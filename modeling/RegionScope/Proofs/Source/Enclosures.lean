import RegionScope.Proofs.Tree.DirectiveLabels
import RegionScope.Proofs.Tree.Owners
import RegionScope.Proofs.Source.Bodies
import RegionScope.Proofs.Source.Braces

/-!
# Enclosures in the tree

An enclosure is a pair of braces with the nodes that it opens. `Stacked` says that the open nodes of
a pass belong to the open enclosures, so that the lineage of the innermost open node can be read
off them (`Stacked.lineage`). `Located` says that the owners and the directives of the tree have the
ancestors that the pairs of braces ask for, and what each new node has to satisfy for that to
remain so.
-/

namespace RegionScope.Source

open RegionScope.Text RegionScope.Tree

namespace Enclosure

/-- The nodes of an enclosure, the innermost one first. -/
def nodes (e : Enclosure) : List Nat := e.block?.toList ++ [e.owner]

/-- The node of an enclosure that holds what stands between its braces. -/
def content (e : Enclosure) : Nat := e.block?.getD e.owner

/-- The block of an enclosure is there if the kind of the owner asks for it, and stands below the
owner. -/
structure Fits (t : Tree) (e : Enclosure) : Prop where
  kind : ∃ kind, t.kind? e.owner = some kind ∧ kind.ownsBlock = e.block?.isSome
  parent : ∀ b, e.block? = some b → t.parent? b = some e.owner

theorem Fits.add {t : Tree} {e : Enclosure} (h : e.Fits t) (label : Label) (parent : Option Nat) :
    e.Fits (t.add label parent) := by
  obtain ⟨⟨kind, hkind, howns⟩, hparent⟩ := h
  constructor
  · exact ⟨kind, (kind?_add_of_lt (lt_size_of_kind? hkind)).trans hkind, howns⟩
  · intro b hb
    rw [parent?_add_of_lt (lt_size_of_parent? (hparent b hb)), hparent b hb]

end Enclosure

/-- The nodes above what stands in some enclosures, the innermost one first. -/
def nodesOf (enclosures : List Enclosure) : List Nat := enclosures.flatMap Enclosure.nodes ++ [0]

/-- The open nodes hold the contents of the open enclosures, each below the next one around it. -/
inductive Stacked (t : Tree) : List Enclosure → List Nat → Prop
  | root : Stacked t [] [0]
  | push {opened : List Enclosure} {stack : List Nat} {e : Enclosure} {p : Nat}
      (inner : Stacked t opened (p :: stack)) (owner : t.parent? e.owner = some p)
      (block : ∀ b, e.block? = some b → t.parent? b = some e.owner) :
      Stacked t (e :: opened) (e.content :: p :: stack)

namespace Stacked

variable {t : Tree} {opened : List Enclosure} {node p : Nat} {stack : List Nat}

theorem add (h : Stacked t opened stack) (label : Label) (parent : Option Nat) :
    Stacked (t.add label parent) opened stack := by
  induction h with
  | root => exact .root
  | push inner owner block ih =>
    refine .push ih ?_ ?_
    · rw [parent?_add_of_lt (lt_size_of_parent? owner), owner]
    · intro b hb
      rw [parent?_add_of_lt (lt_size_of_parent? (block b hb)), block b hb]

theorem lineage_content {e : Enclosure} (howner : t.parent? e.owner = some p)
    (hblock : ∀ b, e.block? = some b → t.parent? b = some e.owner) :
    t.lineage e.content = e.nodes ++ t.lineage p := by
  unfold Enclosure.content Enclosure.nodes
  cases hb : e.block? with
  | none => exact lineage_of_some howner
  | some b =>
    show t.lineage b = b :: e.owner :: t.lineage p
    rw [lineage_of_some (hblock b hb), lineage_of_some howner]

/-- The lineage of the innermost open node consists of the nodes of all open enclosures. -/
theorem lineage_head (h : Stacked t opened stack) :
    ∀ node, stack.head? = some node → t.lineage node = nodesOf opened := by
  induction h with
  | root =>
    intro node hnode
    obtain rfl := Option.some.inj hnode
    cases hparent : t.parent? 0 with
    | none => exact lineage_of_none hparent
    | some p => exact absurd (parent?_lt hparent) (Nat.not_lt_zero p)
  | push inner owner block ih =>
    intro node hnode
    obtain rfl := Option.some.inj hnode
    rw [lineage_content owner block, ih _ rfl, nodesOf, nodesOf, List.flatMap_cons,
      List.append_assoc]

theorem lineage (h : Stacked t opened (node :: stack)) : t.lineage node = nodesOf opened :=
  h.lineage_head node rfl

/-- With one open node no enclosure is open. -/
theorem eq_nil (h : Stacked t opened [node]) : opened = [] := by
  cases h
  rfl

/-- The innermost open node belongs to the innermost open enclosure. -/
theorem pop (h : Stacked t opened (node :: p :: stack)) :
    ∃ e outer, opened = e :: outer ∧ Stacked t outer (p :: stack) := by
  cases h with
  | push inner => exact ⟨_, _, rfl, inner⟩

end Stacked

/-- The owners and the directives of a tree stand where the enclosures seen so far put them. -/
structure Located (text : List Char) (placed : List Enclosure) (bound : Nat) (t : Tree) : Prop where
  owners : (List.range t.size).filter t.isOwner = placed.map (·.owner)
  ofOwner : ∀ e ∈ placed,
    t.ancestors e.owner = nodesOf (strictlyEnclosing placed e.pair.opening)
  ofDirective : ∀ i label, t.directiveLabel? i = some label →
    nextSignificant text label.start.toNat < bound ∧
      t.ancestors i = nodesOf (enclosing placed (nextSignificant text label.start.toNat))

namespace Located

variable {text : List Char} {placed : List Enclosure} {bound : Nat} {t : Tree} {node : Nat}
  {label : Label} {kind : Kind}

theorem lt_size (h : Located text placed bound t) {e : Enclosure} (he : e ∈ placed) :
    e.owner < t.size := by
  have hmem : e.owner ∈ placed.map (·.owner) := List.mem_map_of_mem he
  rw [← h.owners] at hmem
  exact List.mem_range.1 (List.mem_filter.1 hmem).1

theorem mono (h : Located text placed bound t) {bound' : Nat} (hle : bound ≤ bound') :
    Located text placed bound' t := by
  refine ⟨h.owners, h.ofOwner, ?_⟩
  intro i label hi
  obtain ⟨hlt, hancestors⟩ := h.ofDirective i label hi
  exact ⟨Nat.lt_of_lt_of_le hlt hle, hancestors⟩

theorem ofOwner_add (h : Located text placed bound t) {parent : Option Nat} :
    ∀ e ∈ placed, (t.add label parent).ancestors e.owner =
      nodesOf (strictlyEnclosing placed e.pair.opening) := by
  intro e he
  rw [ancestors_add_of_lt (h.lt_size he), h.ofOwner e he]

theorem lt_size_of_directiveLabel? {i : Nat} (h : t.directiveLabel? i = some label) : i < t.size :=
  lt_size_of_label? (label?_of_directiveLabel? h)

/-- Old directives stay where they are. -/
theorem ofDirective_add (h : Located text placed bound t) {parent : Option Nat} {i : Nat}
    {shown : Label} (hi : i < t.size)
    (hshown : (t.add label parent).directiveLabel? i = some shown) :
    nextSignificant text shown.start.toNat < bound ∧ (t.add label parent).ancestors i =
      nodesOf (enclosing placed (nextSignificant text shown.start.toNat)) := by
  rw [directiveLabel?_add_of_lt hi] at hshown
  rw [ancestors_add_of_lt hi]
  exact h.ofDirective i shown hshown

theorem lt_or_eq_of_add {parent : Option Nat} {i : Nat} {shown : Label}
    (h : (t.add label parent).directiveLabel? i = some shown) : i < t.size ∨ i = t.size := by
  have hlt := lt_size_of_directiveLabel? h
  rw [size_add] at hlt
  exact Nat.lt_or_eq_of_le (Nat.le_of_lt_succ hlt)

/-- A directive is placed in what the first significant offset behind it lies in. -/
theorem directive (h : Located text placed bound t) (hnode : t.kind? node = some kind)
    (hlabel : label.kind.isDirective = true)
    (hlineage : t.lineage node =
      nodesOf (enclosing placed (nextSignificant text label.start.toNat)))
    (hbound : nextSignificant text label.start.toNat < bound) :
    Located text placed bound (t.add label (some node)) := by
  have hsize := lt_size_of_kind? hnode
  refine ⟨?_, h.ofOwner_add, ?_⟩
  · rw [filter_isOwner_add, h.owners, isOwner_add_self hsize hnode, hlabel]
    simp
  · intro i shown hshown
    rcases lt_or_eq_of_add hshown with hlt | rfl
    · exact h.ofDirective_add hlt hshown
    · rw [directiveLabel?_add_self, if_pos hlabel] at hshown
      obtain rfl := Option.some.inj hshown
      rw [ancestors_add_self hsize]
      exact ⟨hbound, hlineage⟩

theorem directive_of_not_isDirective {parent : Option Nat} {i : Nat} {shown : Label}
    (hlabel : label.kind.isDirective = false)
    (h : (t.add label parent).directiveLabel? i = some shown) : i < t.size := by
  rcases lt_or_eq_of_add h with hlt | rfl
  · exact hlt
  · rw [directiveLabel?_add_self, hlabel] at h
    cases h

/-- The block of an owner is neither a directive nor an owner. -/
theorem block (h : Located text placed bound t) (hnode : t.kind? node = some kind)
    (howns : kind.ownsBlock = true) (hlabel : label.kind.isDirective = false) :
    Located text placed bound (t.add label (some node)) := by
  refine ⟨?_, h.ofOwner_add, ?_⟩
  · rw [filter_isOwner_add, h.owners, isOwner_add_self (lt_size_of_kind? hnode) hnode, howns]
    simp
  · intro i shown hshown
    exact h.ofDirective_add (directive_of_not_isDirective hlabel hshown) hshown

/-- An owner is placed in what its brace lies strictly in. -/
theorem owner (h : Located text placed bound t) (hnode : t.kind? node = some kind)
    (hnot : kind.ownsBlock = false) (hlabel : label.kind.isDirective = false) {e : Enclosure}
    (howner : e.owner = t.size)
    (hlineage : t.lineage node = nodesOf (strictlyEnclosing placed e.pair.opening))
    (hbefore : ∀ e' ∈ placed, e'.pair.opening < e.pair.opening) (hbound : bound ≤ e.pair.opening) :
    Located text (placed ++ [e]) bound (t.add label (some node)) := by
  have hsize := lt_size_of_kind? hnode
  refine ⟨?_, ?_, ?_⟩
  · rw [filter_isOwner_add, h.owners, isOwner_add_self hsize hnode, hnot, hlabel]
    simp [howner]
  · intro e' he'
    rcases List.mem_append.1 he' with hold | hnew
    · -- the new enclosure begins behind the older ones, so it is around none of them
      rw [strictlyEnclosing_append (Nat.le_of_lt (hbefore e' hold))]
      exact h.ofOwner_add e' hold
    · obtain rfl := List.mem_singleton.1 hnew
      rw [strictlyEnclosing_append (Nat.le_refl _), howner, ancestors_add_self hsize, hlineage]
  · intro i shown hshown
    obtain ⟨hlt, hancestors⟩ :=
      h.ofDirective_add (directive_of_not_isDirective hlabel hshown) hshown
    rw [enclosing_append (Nat.lt_of_lt_of_le hlt hbound)]
    exact ⟨hlt, hancestors⟩

end Located

end RegionScope.Source
