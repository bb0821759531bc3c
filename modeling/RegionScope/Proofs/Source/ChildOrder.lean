import RegionScope.Proofs.Tree.Siblings
import RegionScope.Proofs.Source.HeaderExtents

/-!
# The order of children

The children of a node stand in the order in which the pass adds them. A directive is added at the
next significant token, and an owner at its brace, though it starts where its header does. So a
directive line that stands between two significant tokens of a header comes to stand in front of the
owner that starts before it. This is the only way in which the starts of children fail to increase
(`children_increase_iff`).

Between two tokens the nodes and the waiting directives start in front of what comes
(`Ahead`), and a child of the innermost open node starts behind the start of the header exactly if a
directive line has interrupted the header (`HeaderOrder`).
-/

namespace RegionScope.Source

open RegionScope.Text RegionScope.Tree

variable {text : List Char} {lines : LineIndex} {before rest c : List Token} {token : Token}
  {f g : Frontier} {R : Label → Label → Prop} {P : Label → Prop}

/-! ## Interrupted headers -/

/-- A directive line stands behind a significant token. -/
def Suspended (tokens : List Token) : Prop :=
  ∃ first line, [first, line].Sublist tokens ∧ first.lexeme.isSignificant = true ∧
    line.directive?.isSome = true

/-- A directive line stands between two significant tokens. -/
def Interrupted (tokens : List Token) : Prop :=
  ∃ first line later, [first, line, later].Sublist tokens ∧ first.lexeme.isSignificant = true ∧
    line.directive?.isSome = true ∧ later.lexeme.isSignificant = true

/-- The tokens of the header of a brace at `pos`. -/
def braceHeader (text : List Char) (pos : Nat) : List Token :=
  tokensBetween text (headerBegin text pos) pos

theorem sublist_concat_iff {α : Type} (l : List α) {m : List α} {x y : α} :
    (l ++ [x]).Sublist (m ++ [y]) ↔ (l ++ [x]).Sublist m ∨ x = y ∧ l.Sublist m := by
  constructor
  · intro h
    obtain ⟨front, back, hsplit, hfront, hback⟩ := List.sublist_append_iff.1 h
    rcases List.sublist_singleton.1 hback with rfl | rfl
    · rw [List.append_nil] at hsplit
      exact .inl (hsplit ▸ hfront)
    · obtain ⟨rfl, hlast⟩ := List.append_inj' hsplit rfl
      exact .inr ⟨List.singleton_inj.1 hlast, hfront⟩
  · rintro (h | ⟨rfl, h⟩)
    · exact h.trans (List.sublist_append_left m [y])
    · exact h.append (List.Sublist.refl [x])

theorem Interrupted.suspended (h : Interrupted c) : Suspended c := by
  obtain ⟨first, line, later, hsub, hfirst, hline, -⟩ := h
  exact ⟨first, line, (List.sublist_append_left [first, line] [later]).trans hsub, hfirst, hline⟩

/-- A further significant token interrupts a header whose last line is a directive. -/
theorem interrupted_concat_of_significant (h : token.lexeme.isSignificant = true) :
    Interrupted (c ++ [token]) ↔ Suspended c := by
  constructor
  · rintro ⟨first, line, later, hsub, hfirst, hline, hlater⟩
    rcases (sublist_concat_iff [first, line]).1 hsub with hsub | ⟨-, hsub⟩
    · exact Interrupted.suspended ⟨first, line, later, hsub, hfirst, hline, hlater⟩
    · exact ⟨first, line, hsub, hfirst, hline⟩
  · rintro ⟨first, line, hsub, hfirst, hline⟩
    exact ⟨first, line, token, (sublist_concat_iff [first, line]).2 (.inr ⟨rfl, hsub⟩), hfirst,
      hline, h⟩

theorem interrupted_concat_of_not_significant (h : token.lexeme.isSignificant = false) :
    Interrupted (c ++ [token]) ↔ Interrupted c := by
  constructor
  · rintro ⟨first, line, later, hsub, hfirst, hline, hlater⟩
    rcases (sublist_concat_iff [first, line]).1 hsub with hsub | ⟨rfl, -⟩
    · exact ⟨first, line, later, hsub, hfirst, hline, hlater⟩
    · rw [h] at hlater
      cases hlater
  · rintro ⟨first, line, later, hsub, hrest⟩
    exact ⟨first, line, later, hsub.trans (List.sublist_append_left c [token]), hrest⟩

theorem suspended_concat_of_none (h : token.directive? = none) :
    Suspended (c ++ [token]) ↔ Suspended c := by
  constructor
  · rintro ⟨first, line, hsub, hfirst, hline⟩
    rcases (sublist_concat_iff [first]).1 hsub with hsub | ⟨rfl, -⟩
    · exact ⟨first, line, hsub, hfirst, hline⟩
    · rw [h] at hline
      cases hline
  · rintro ⟨first, line, hsub, hrest⟩
    exact ⟨first, line, hsub.trans (List.sublist_append_left c [token]), hrest⟩

theorem suspended_concat_of_directive {first : Token} (hfirst : first ∈ c)
    (hsignificant : first.lexeme.isSignificant = true) (h : token.directive?.isSome = true) :
    Suspended (c ++ [token]) :=
  ⟨first, token, (sublist_concat_iff [first]).2 (.inr ⟨rfl, List.singleton_sublist.2 hfirst⟩),
    hsignificant, h⟩

theorem not_suspended_of_find? (h : c.find? (·.lexeme.isSignificant) = none) : ¬ Suspended c := by
  rintro ⟨first, line, hsub, hfirst, -⟩
  have hmem : first ∈ c := hsub.subset List.mem_cons_self
  exact List.find?_eq_none.1 h first hmem hfirst

/-! ## Flushing and opening -/

namespace Frontier

theorem hasChild_flush_iff (h : f.current < f.tree.size) :
    (f.flush lines).tree.HasChild f.current P ↔
      f.tree.HasChild f.current P ∨ ∃ d ∈ f.pending, P (directiveLabel lines d) := by
  let kept : Frontier → Prop := fun g => g.current = f.current ∧ g.current < g.tree.size ∧
    (g.tree.HasChild f.current P ∨ (∃ d ∈ g.pending, P (directiveLabel lines d)) ↔
      f.tree.HasChild f.current P ∨ ∃ d ∈ f.pending, P (directiveLabel lines d))
  have hflush : kept (f.flush lines) := by
    refine flush_induction (P := kept) ?_ ⟨rfl, h, Iff.rfl⟩
    intro g d rest hpending ⟨hcurrent, hlt, hiff⟩
    refine ⟨hcurrent, lt_size_add (Nat.le_of_lt hlt), ?_⟩
    rw [← hiff, hpending, List.exists_mem_cons_iff, ← or_assoc, ← hcurrent]
    exact or_congr_left (hasChild_add_iff hlt)
  rw [← hflush.2.2]
  simp [flush]

theorem startsWithin_flush_iff {pos : Int} (h : 0 < f.tree.size) :
    (f.flush lines).tree.StartsWithin pos ↔
      f.tree.StartsWithin pos ∧ ∀ d ∈ f.pending, (d.start : Int) < pos := by
  let kept : Frontier → Prop := fun g => 0 < g.tree.size ∧
    (g.tree.StartsWithin pos ∧ (∀ d ∈ g.pending, (d.start : Int) < pos) ↔
      f.tree.StartsWithin pos ∧ ∀ d ∈ f.pending, (d.start : Int) < pos)
  have hflush : kept (f.flush lines) := by
    refine flush_induction (P := kept) ?_ ⟨h, Iff.rfl⟩
    intro g d rest hpending ⟨hlt, hiff⟩
    refine ⟨lt_size_add (Nat.zero_le _), ?_⟩
    rw [← hiff, hpending, List.forall_mem_cons, ← and_assoc]
    exact and_congr_left' (startsWithin_add_iff hlt)
  rw [← hflush.2]
  simp [flush]

/-- Directives that wait are added in their order, behind the children that start in front of them.
-/
theorem siblingsMeet_flush_iff (hR : ∀ a b : Label, a.start < b.start → R a b)
    (hcurrent : f.current < f.tree.size) (hsorted : f.pending.Pairwise (·.start < ·.start))
    (hbehind : ∀ d ∈ f.pending, ¬ f.tree.HasChild f.current fun a => (d.start : Int) ≤ a.start) :
    (f.flush lines).tree.SiblingsMeet R ↔ f.tree.SiblingsMeet R := by
  let kept : Frontier → Prop := fun g => g.current < g.tree.size ∧
    g.pending.Pairwise (·.start < ·.start) ∧
    (∀ d ∈ g.pending, ¬ g.tree.HasChild g.current fun a => (d.start : Int) ≤ a.start) ∧
    (g.tree.SiblingsMeet R ↔ f.tree.SiblingsMeet R)
  have hflush : kept (f.flush lines) := by
    refine flush_induction (P := kept) ?_ ⟨hcurrent, hsorted, hbehind, Iff.rfl⟩
    intro g d rest hpending ⟨hlt, hsorted, hbehind, hiff⟩
    rw [hpending] at hsorted hbehind
    obtain ⟨hfirst, hsorted⟩ := List.pairwise_cons.1 hsorted
    obtain ⟨hd, hbehind⟩ := List.forall_mem_cons.1 hbehind
    refine ⟨lt_size_add (Nat.le_of_lt hlt), hsorted, ?_, ?_⟩
    · intro e he hchild
      rcases (hasChild_add_iff hlt).1 hchild with hold | hnew
      · exact hbehind e he hold
      · have hlt := hfirst e he
        have hle : (e.start : Int) ≤ d.start := hnew
        omega
    · rw [← hiff]
      refine (siblingsMeet_add_iff hlt).trans (and_iff_left ?_)
      rintro ⟨i, hi, a, ha, hnot⟩
      exact hd ⟨i, hi, a, ha, Int.not_lt.1 fun hlt => hnot (hR a _ hlt)⟩
  exact hflush.2.2.2

/-- An owner asks something of the children so far, its block of nothing. -/
theorem siblingsMeet_enter_iff {label : Label} {pos : Nat} (h : f.current < f.tree.size) :
    (f.enter lines label pos).tree.SiblingsMeet R ↔
      f.tree.SiblingsMeet R ∧ ¬ f.tree.HasChild f.current fun a => ¬ R a label := by
  rw [← siblingsMeet_add_iff h]
  by_cases howns : label.kind.ownsBlock = true
  · rw [enter_of_ownsBlock howns]
    exact (siblingsMeet_add_iff (lt_size_add (Nat.le_refl _))).trans
      (and_iff_left (not_hasChild_add _ _ _ _))
  · rw [enter_of_not_ownsBlock (Bool.eq_false_iff.2 howns)]
    exact Iff.rfl

/-- What an opening brace opens has no children. -/
theorem not_hasChild_enter (lines : LineIndex) (label : Label) (pos : Nat) (f : Frontier)
    (P : Label → Prop) :
    ¬ (f.enter lines label pos).tree.HasChild (f.enter lines label pos).current P := by
  by_cases howns : label.kind.ownsBlock = true
  · rw [enter_of_ownsBlock howns]
    exact not_hasChild_add _ _ _ _
  · rw [enter_of_not_ownsBlock (Bool.eq_false_iff.2 howns)]
    exact not_hasChild_add _ _ _ _

theorem current_lt_size_enter (lines : LineIndex) (label : Label) (pos : Nat) (f : Frontier) :
    (f.enter lines label pos).current < (f.enter lines label pos).tree.size := by
  by_cases howns : label.kind.ownsBlock = true
  · rw [enter_of_ownsBlock howns]
    exact lt_size_add (Nat.le_refl _)
  · rw [enter_of_not_ownsBlock (Bool.eq_false_iff.2 howns)]
    exact lt_size_add (Nat.le_refl _)

theorem startsWithin_enter {label : Label} {pos : Nat} {bound : Int} (hpos : 0 < f.tree.size)
    (h : f.tree.StartsWithin bound) (hlabel : label.start < bound) (hbrace : (pos : Int) < bound) :
    (f.enter lines label pos).tree.StartsWithin bound := by
  have howner : (f.tree.add label (some f.current)).StartsWithin bound :=
    (startsWithin_add_iff hpos).2 ⟨h, hlabel⟩
  by_cases howns : label.kind.ownsBlock = true
  · rw [enter_of_ownsBlock howns]
    exact (startsWithin_add_iff (lt_size_add (Nat.zero_le _))).2 ⟨howner, hbrace⟩
  · rw [enter_of_not_ownsBlock (Bool.eq_false_iff.2 howns)]
    exact howner

end Frontier

/-! ## What starts in front of what comes -/

/-- The nodes of the frontier, the header and the directives that wait start in front of the tokens
to come, and of what waits. -/
structure Ahead (rest : List Token) (f : Frontier) : Prop where
  nodes : ∀ t ∈ rest, f.tree.StartsWithin t.start
  header : ∀ h, f.headerStart = some h → ∀ t ∈ rest, h < t.start
  pending : ∀ d ∈ f.pending, ∀ t ∈ rest, d.start < t.start
  nodesPending : ∀ d ∈ f.pending, f.tree.StartsWithin d.start
  headerPending : ∀ h, f.headerStart = some h → ∀ d ∈ f.pending, h < d.start
  sorted : f.pending.Pairwise (·.start < ·.start)

namespace Ahead

theorem start (rest : List Token) : Ahead rest Outline.start.frontier where
  nodes := by
    intro t _ i a hi ha
    have hlt := lt_size_of_label? ha
    have hsize : Outline.start.frontier.tree.size = 1 := size_add ..
    omega
  header := nofun
  pending := nofun
  nodesPending := nofun
  headerPending := nofun
  sorted := .nil

/-- Once nothing waits, only the nodes and the header are left. -/
theorem of_nodes (hnodes : ∀ t ∈ rest, f.tree.StartsWithin t.start)
    (hheader : ∀ h, f.headerStart = some h → ∀ t ∈ rest, h < t.start) (hpending : f.pending = []) :
    Ahead rest f where
  nodes := hnodes
  header := hheader
  pending := by rw [hpending]; nofun
  nodesPending := by rw [hpending]; nofun
  headerPending := by rw [hpending]; nofun
  sorted := by rw [hpending]; exact .nil

/-- A flush keeps the nodes in front of the tokens to come. -/
theorem flush (h : Ahead rest f) (hpos : 0 < f.tree.size) :
    ∀ t ∈ rest, (f.flush lines).tree.StartsWithin t.start := by
  intro t ht
  refine (Frontier.startsWithin_flush_iff hpos).2 ⟨h.nodes t ht, fun d hd => ?_⟩
  exact Int.ofNat_lt.2 (h.pending d hd t ht)

theorem step (h : Ahead (token :: rest) f) (hrest : ∀ t ∈ rest, token.start < t.start)
    (hedge : RightEdge f.tree f.current f.around) (hmove : Frontier.Move lines token f g) :
    Ahead rest g := by
  have htoken : token ∈ token :: rest := List.mem_cons_self
  have hlater : ∀ t ∈ rest, t ∈ token :: rest := fun t ht => List.mem_cons_of_mem token ht
  cases hmove with
  | skip =>
    exact ⟨fun t ht => h.nodes t (hlater t ht), fun p hp t ht => h.header p hp t (hlater t ht),
      fun d hd t ht => h.pending d hd t (hlater t ht), h.nodesPending, h.headerPending, h.sorted⟩
  | @wait d hd =>
    -- the directive is the token, so all that is in front of the token is in front of it
    have hstart : d.start = token.start := (Token.directive?_eq_some.1 hd).1.symm
    have hmem : ∀ {e}, e ∈ f.pending ++ [d] → e ∈ f.pending ∨ e = d := by
      intro e he
      simpa using he
    refine ⟨fun t ht => h.nodes t (hlater t ht), fun p hp t ht => h.header p hp t (hlater t ht),
      ?_, ?_, ?_, ?_⟩
    · intro e he t ht
      rcases hmem he with he | rfl
      · exact h.pending e he t (hlater t ht)
      · rw [hstart]
        exact hrest t ht
    · intro e he
      rcases hmem he with he | rfl
      · exact h.nodesPending e he
      · rw [hstart]
        exact h.nodes token htoken
    · intro p hp e he
      rcases hmem he with he | rfl
      · exact h.headerPending p hp e he
      · rw [hstart]
        exact h.header p hp token htoken
    · refine List.pairwise_append.2 ⟨h.sorted, List.pairwise_singleton _ _, fun e he e' he' => ?_⟩
      rw [List.mem_singleton.1 he', hstart]
      exact h.pending e he token htoken
  | @pass start _ _ _ hheader =>
    refine of_nodes (fun t ht => h.flush hedge.size_pos t (hlater t ht)) ?_ rfl
    intro p hp t ht
    have hp : start = some p := hp
    rcases hheader with hnone | hsome
    · rw [hnone] at hp
      cases hp
    · rw [hsome, Option.some_inj] at hp
      cases hstart : f.headerStart with
      | none =>
        rw [hstart, Option.getD_none] at hp
        exact hp ▸ hrest t ht
      | some q =>
        rw [hstart, Option.getD_some] at hp
        exact hp ▸ h.header q hstart t (hlater t ht)
  | close =>
    refine of_nodes (fun t ht => ?_) (fun _ hnone => by cases hnone) (Frontier.pending_leave _)
    show (f.flush lines).leave.tree.StartsWithin t.start
    rw [Frontier.tree_leave]
    exact h.flush hedge.size_pos t (hlater t ht)
  | openOwner header =>
    refine of_nodes (fun t ht => ?_) (fun _ hnone => by cases hnone) rfl
    have hbrace : (token.start : Int) < t.start := Int.ofNat_lt.2 (hrest t ht)
    have howner : ((f.headerStart.getD token.start : Nat) : Int) < t.start := by
      cases hstart : f.headerStart with
      | none => exact hbrace
      | some q => exact Int.ofNat_lt.2 (h.header q hstart t (hlater t ht))
    refine (Frontier.startsWithin_flush_iff ?_).2 ⟨?_, ?_⟩
    · exact Nat.lt_of_le_of_lt (Nat.zero_le _) (Frontier.current_lt_size_enter _ _ _ _)
    · exact Frontier.startsWithin_enter hedge.size_pos (h.nodes t (hlater t ht)) howner hbrace
    · intro d hd
      rw [Frontier.pending_enter] at hd
      exact Int.ofNat_lt.2 (h.pending d hd t (hlater t ht))

end Ahead

/-! ## The children behind the start of a header -/

/-- What a header that starts at `h` and has the tokens `c` so far means for the innermost open
node: its owners start in front of the header, a child starts behind the start of the header exactly
if the header has been interrupted, and a directive line behind the first token of the header has
interrupted it or waits. -/
structure HeaderOrder (c : List Token) (h : Nat) (f : Frontier) : Prop where
  owners : ¬ f.tree.HasChild f.current fun a => a.kind.isDirective = false ∧ (h : Int) ≤ a.start
  behind : (f.tree.HasChild f.current fun a => (h : Int) ≤ a.start) ↔ Interrupted c
  waiting : Suspended c ↔ Interrupted c ∨ f.pending ≠ []

namespace HeaderOrder

variable {h : Nat}

theorem skip (hc : HeaderOrder c h f) (hinsignificant : token.lexeme.isSignificant = false)
    (hnone : token.directive? = none) : HeaderOrder (c ++ [token]) h f where
  owners := hc.owners
  behind := by rw [interrupted_concat_of_not_significant hinsignificant, hc.behind]
  waiting := by
    rw [suspended_concat_of_none hnone, interrupted_concat_of_not_significant hinsignificant,
      hc.waiting]

/-- A directive line behind the first token of the header waits. -/
theorem wait (hc : HeaderOrder c h f) {first : Token} (hmem : first ∈ c)
    (hfirst : first.lexeme.isSignificant = true) {d : PendingDirective}
    (hd : token.directive? = some d) :
    HeaderOrder (c ++ [token]) h { f with pending := f.pending ++ [d] } where
  owners := hc.owners
  behind := by
    have hinsignificant : token.lexeme.isSignificant = false := by
      rw [(Token.directive?_eq_some.1 hd).2]
      rfl
    rw [interrupted_concat_of_not_significant hinsignificant]
    exact hc.behind
  waiting := by
    have hsuspended : Suspended (c ++ [token]) :=
      suspended_concat_of_directive hmem hfirst (by rw [hd]; rfl)
    exact iff_of_true hsuspended (.inr (by simp))

/-- A further token of the header places the directives that wait. -/
theorem pass (hc : HeaderOrder c h f) (hcurrent : f.current < f.tree.size)
    (hpending : ∀ d ∈ f.pending, h < d.start) (hsignificant : token.lexeme.isSignificant = true)
    (start : Option Nat) :
    HeaderOrder (c ++ [token]) h ((f.flush lines).withHeaderStart start) where
  owners := by
    rintro hchild
    rcases (Frontier.hasChild_flush_iff hcurrent).1 hchild with hold | ⟨d, -, hnot, -⟩
    · exact hc.owners hold
    · cases hnot
  behind := by
    rw [interrupted_concat_of_significant hsignificant, hc.waiting, ← hc.behind]
    refine (Frontier.hasChild_flush_iff hcurrent).trans (or_congr_right ?_)
    constructor
    · rintro ⟨d, hd, -⟩
      exact List.ne_nil_of_mem hd
    · intro hne
      obtain ⟨d, hd⟩ := List.exists_mem_of_ne_nil _ hne
      exact ⟨d, hd, Int.ofNat_le.2 (Nat.le_of_lt (hpending d hd))⟩
  waiting := by
    rw [interrupted_concat_of_significant hsignificant,
      suspended_concat_of_none (token.directive?_of_isSignificant hsignificant)]
    exact (or_iff_left (not_not_intro rfl)).symm

/-- The first token of a header stands behind all children. -/
theorem first (hnone : c.find? (·.lexeme.isSignificant) = none)
    (hsignificant : token.lexeme.isSignificant = true)
    (hwithin : (f.flush lines).tree.StartsWithin token.start) (start : Option Nat) :
    HeaderOrder (c ++ [token]) token.start ((f.flush lines).withHeaderStart start) where
  owners := fun ⟨i, hi, a, ha, _, hle⟩ => hwithin.not_hasChild _ ⟨i, hi, a, ha, hle⟩
  behind := by
    rw [interrupted_concat_of_significant hsignificant]
    exact iff_of_false (hwithin.not_hasChild _) (not_suspended_of_find? hnone)
  waiting := by
    rw [interrupted_concat_of_significant hsignificant,
      suspended_concat_of_none (token.directive?_of_isSignificant hsignificant)]
    exact (or_iff_left (not_not_intro rfl)).symm

end HeaderOrder

/-! ## The order of children in a run -/

/-- An owner starts in front of the siblings behind it, and a directive in front of the directives
behind it. -/
def OwnersLead (a b : Label) : Prop :=
  a.kind.isDirective = false ∨ b.kind.isDirective = true → a.start < b.start

/-- After some tokens: children are in order but for directives in front of owners, and wholly in
order exactly if no directive line has interrupted the header of a brace. -/
structure ChildOrder (text : List Char) (before : List Token) (f : Frontier) : Prop where
  owners : f.tree.SiblingsMeet OwnersLead
  increase : (f.tree.SiblingsMeet fun a b => a.start < b.start) ↔
    ∀ brace ∈ before, brace.opensBrace = true → ¬ Interrupted (braceHeader text brace.start)
  header : ∀ h, f.headerStart = some h → HeaderOrder (collected text before) h f

namespace ChildOrder

theorem siblingsMeet_flush (h : Ahead rest f) (hcurrent : f.current < f.tree.size)
    (hR : ∀ a b : Label, a.start < b.start → R a b) :
    (f.flush lines).tree.SiblingsMeet R ↔ f.tree.SiblingsMeet R :=
  Frontier.siblingsMeet_flush_iff hR hcurrent h.sorted
    fun d hd => (h.nodesPending d hd).not_hasChild _

theorem forall_concat_iff (hnot : token.opensBrace = false) :
    (∀ brace ∈ before ++ [token], brace.opensBrace = true →
        ¬ Interrupted (braceHeader text brace.start)) ↔
      ∀ brace ∈ before, brace.opensBrace = true →
        ¬ Interrupted (braceHeader text brace.start) := by
  simp [or_imp, forall_and, hnot]

/-- A brace opens a node whose owner starts with the header, so the children in front of the owner
start in front of it exactly if the header has not been interrupted. -/
theorem open_iff (hcollected : collected text before = braceHeader text token.start)
    (hstart : f.headerStart =
      ((collected text before).find? (·.lexeme.isSignificant)).map (·.start))
    (hahead : Ahead (token :: rest) f)
    (hheader : ∀ h, f.headerStart = some h → HeaderOrder (collected text before) h f) :
    let start := ((f.headerStart.getD token.start : Nat) : Int)
    (¬ f.tree.HasChild f.current fun a => a.kind.isDirective = false ∧ start ≤ a.start) ∧
      ((f.tree.HasChild f.current fun a => start ≤ a.start) ↔
        Interrupted (braceHeader text token.start)) := by
  intro start
  rw [← hcollected]
  cases hf : f.headerStart with
  | none =>
    have hnone : (collected text before).find? (·.lexeme.isSignificant) = none := by
      rw [hf] at hstart
      exact Option.map_eq_none_iff.1 hstart.symm
    have hwithin : f.tree.StartsWithin start := by
      show f.tree.StartsWithin ((f.headerStart.getD token.start : Nat) : Int)
      rw [hf]
      exact hahead.nodes token List.mem_cons_self
    refine ⟨fun ⟨i, hi, a, ha, _, hle⟩ => hwithin.not_hasChild _ ⟨i, hi, a, ha, hle⟩, ?_⟩
    exact iff_of_false (hwithin.not_hasChild _)
      fun hinterrupted => not_suspended_of_find? hnone hinterrupted.suspended
  | some h =>
    have hh : start = (h : Int) := by
      show ((f.headerStart.getD token.start : Nat) : Int) = h
      rw [hf, Option.getD_some]
    rw [hh]
    exact ⟨(hheader h hf).owners, (hheader h hf).behind⟩

/-- A further token begins a header or goes on with the one that there is. -/
theorem header_pass (hahead : Ahead (token :: rest) f)
    (hedge : RightEdge f.tree f.current f.around)
    (hf : f.headerStart = (c.find? (·.lexeme.isSignificant)).map (·.start))
    (hheader : ∀ h, f.headerStart = some h → HeaderOrder c h f)
    (hsignificant : token.lexeme.isSignificant = true) (start : Option Nat) :
    HeaderOrder (c ++ [token]) (f.headerStart.getD token.start)
      ((f.flush lines).withHeaderStart start) := by
  cases hstart : f.headerStart with
  | none =>
    rw [hstart] at hf
    exact .first (Option.map_eq_none_iff.1 hf.symm) hsignificant
      (hahead.flush hedge.size_pos token List.mem_cons_self) start
  | some q =>
    exact (hheader q hstart).pass (hedge.lt_size List.mem_cons_self)
      (hahead.headerPending q hstart) hsignificant start

/-- The directives that wait go below what a brace opens, where they are the first children. -/
theorem siblingsMeet_flush_enter (hahead : Ahead rest f) (hcurrent : f.current < f.tree.size)
    (hR : ∀ a b : Label, a.start < b.start → R a b) (label : Label) (pos : Nat) :
    ((f.enter lines label pos).flush lines).tree.SiblingsMeet R ↔
      f.tree.SiblingsMeet R ∧ ¬ f.tree.HasChild f.current fun a => ¬ R a label := by
  rw [← Frontier.siblingsMeet_enter_iff hcurrent]
  refine Frontier.siblingsMeet_flush_iff hR (Frontier.current_lt_size_enter _ _ _ _) ?_ ?_
  · rw [Frontier.pending_enter]
    exact hahead.sorted
  · exact fun d _ => Frontier.not_hasChild_enter _ _ _ _ _

theorem step (hsplit : before ++ token :: rest = lex text) (h : ChildOrder text before f)
    (hahead : Ahead (token :: rest) f) (hedge : RightEdge f.tree f.current f.around)
    (hf : f.headerStart = ((collected text before).find? (·.lexeme.isSignificant)).map (·.start))
    (hcollected : ∀ h, g.headerStart = some h →
      collected text (before ++ [token]) = collected text before ++ [token])
    (hmove : Frontier.Move lines token f g) : ChildOrder text (before ++ [token]) g := by
  have hcurrent := hedge.lt_size List.mem_cons_self
  have hless : ∀ a b : Label, a.start < b.start → OwnersLead a b := fun a b hlt _ => hlt
  cases hmove with
  | skip insignificant hnone =>
    have hnot : token.opensBrace = false := by
      refine Bool.eq_false_iff.2 fun hopens => ?_
      rw [Token.isSignificant_of_opensBrace hopens] at insignificant
      cases insignificant
    refine ⟨h.owners, by rw [forall_concat_iff hnot, h.increase], fun p hp => ?_⟩
    rw [hcollected p hp]
    exact (h.header p hp).skip insignificant hnone
  | @wait d hd =>
    have hnot : token.opensBrace = false := by
      rw [Token.opensBrace, (Token.directive?_eq_some.1 hd).2]
      rfl
    refine ⟨h.owners, by rw [forall_concat_iff hnot]; exact h.increase, fun p hp => ?_⟩
    obtain ⟨first, hfirst, -⟩ := Option.map_eq_some_iff.1 (hf.symm.trans hp)
    have hsignificant := List.find?_some hfirst
    rw [hcollected p hp]
    exact (h.header p hp).wait (List.mem_of_find?_eq_some hfirst) hsignificant hd
  | @pass start significant noOpening noClosing hheader =>
    refine ⟨(siblingsMeet_flush hahead hcurrent hless).2 h.owners, ?_, fun p hp => ?_⟩
    · rw [forall_concat_iff noOpening, ← h.increase]
      exact siblingsMeet_flush hahead hcurrent fun _ _ hlt => hlt
    · have hp' : start = some p := hp
      rw [hcollected p hp]
      rcases hheader with hnone | hsome
      · cases hnone.symm.trans hp'
      · rw [← Option.some_inj.1 (hsome.symm.trans hp')]
        exact header_pass hahead hedge hf h.header significant start
  | close closing =>
    have hnot := Token.opensBrace_of_closesBrace closing
    have htree : ((f.flush lines).leave.withHeaderStart none).tree = (f.flush lines).tree :=
      Frontier.tree_leave _
    refine ⟨?_, ?_, fun _ hnone => by cases hnone⟩
    · rw [htree]
      exact (siblingsMeet_flush hahead hcurrent hless).2 h.owners
    · rw [htree, forall_concat_iff hnot, ← h.increase]
      exact siblingsMeet_flush hahead hcurrent fun _ _ hlt => hlt
  | openOwner header opening =>
    obtain ⟨howners, hbehind⟩ := open_iff (tokensBetween_headerBegin hsplit.symm).symm hf hahead
      h.header
    have hplain : (ownerLabel lines f.context header
        (f.headerStart.getD token.start)).kind.isDirective = false :=
      Kind.isDirective_of_mayHold (mayHold_headerKind _ _)
    refine ⟨(siblingsMeet_flush_enter hahead hcurrent hless _ _).2 ⟨h.owners, ?_⟩, ?_,
      fun _ hnone => by cases hnone⟩
    · rintro ⟨i, hi, a, ha, hnot⟩
      refine howners ⟨i, hi, a, ha, ?_⟩
      rw [OwnersLead, hplain, Classical.not_imp, or_iff_left Bool.false_ne_true] at hnot
      exact ⟨hnot.1, Int.not_lt.1 hnot.2⟩
    · have hchild : (f.tree.HasChild f.current fun a => ¬ a.start <
          (ownerLabel lines f.context header (f.headerStart.getD token.start)).start) ↔
          Interrupted (braceHeader text token.start) := by
        rw [← hbehind]
        simp only [Int.not_lt]
        rfl
      rw [List.forall_mem_append, List.forall_mem_singleton, ← h.increase, ← hchild,
        forall_prop_of_true opening]
      exact siblingsMeet_flush_enter hahead hcurrent (fun _ _ hlt => hlt) _ _

theorem run (hsplit : before ++ rest = lex text) :
    ChildOrder text before (Outline.run (.ofText text) before).frontier ∧
      Ahead rest (Outline.run (.ofText text) before).frontier := by
  induction before using List.reverseRecOn generalizing rest with
  | nil =>
    refine ⟨⟨?_, ?_, nofun⟩, Ahead.start rest⟩
    · exact siblingsMeet_single _ _
    · exact iff_of_true (siblingsMeet_single _ _) nofun
  | append_singleton before token ih =>
    rw [List.append_assoc, List.singleton_append] at hsplit
    obtain ⟨horder, hahead⟩ := ih hsplit
    have hedge := (RightEdge.treeInvariant (.ofText text)).at_end before
    have hmove := Frontier.move_of_step (.ofText text) (Outline.run (.ofText text) before) token
    have hstart := (CollectedHeader.run hsplit).headerStart
    have hsplit' : before ++ [token] ++ rest = lex text := by
      rwa [List.append_assoc, List.singleton_append]
    have hnext := (CollectedHeader.run hsplit').headerStart
    have hrun : Outline.run (.ofText text) (before ++ [token]) =
        (Outline.run (.ofText text) before).step (.ofText text) token := by
      rw [Outline.run, List.foldl_append]
      rfl
    obtain ⟨hbefore, hrest⟩ := start_lt_of_lex_eq hsplit.symm
    rw [hrun] at hnext ⊢
    refine ⟨horder.step hsplit hahead hedge hstart ?_ hmove, hahead.step hrest hedge hmove⟩
    intro p hp
    by_cases hends : EndsHeader text token
    · rw [collected_concat_of_ends hbefore hends] at hnext
      cases hnext.symm.trans hp
    · exact collected_concat_of_not_ends hbefore hends

end ChildOrder

/-- In the outline of every text an owner starts in front of all its siblings behind it, and a
directive in front of the directives behind it. The starts of the children of every node increase
from first to last if and only if no directive line stands between two significant tokens of the
header of a brace. -/
theorem children_increase_iff (text : List Char) :
    (outline text).SiblingsMeet OwnersLead ∧
    (((outline text).SiblingsMeet fun a b => a.start < b.start) ↔
      ∀ pair ∈ bracePairs text, ¬ Interrupted (braceHeader text pair.opening)) := by
  obtain ⟨horder, hahead⟩ := ChildOrder.run (List.append_nil (lex text))
  have hedge := (RightEdge.treeInvariant (.ofText text)).at_end (lex text)
  have hcurrent := hedge.lt_size List.mem_cons_self
  have hbraces : (∀ pair ∈ bracePairs text, ¬ Interrupted (braceHeader text pair.opening)) ↔
      ∀ brace ∈ lex text, brace.opensBrace = true →
        ¬ Interrupted (braceHeader text brace.start) := by
    have hopenings : (∀ pos ∈ (bracePairs text).map (·.opening),
          ¬ Interrupted (braceHeader text pos)) ↔
        ∀ pos ∈ ((lex text).filter Token.opensBrace).map (·.start),
          ¬ Interrupted (braceHeader text pos) := by rw [map_opening_bracePairs]
    rw [List.forall_mem_map, List.forall_mem_map] at hopenings
    rw [hopenings]
    simp only [List.mem_filter, and_imp]
  rw [outline_eq_tree, hbraces, ← horder.increase]
  constructor
  · refine (ChildOrder.siblingsMeet_flush hahead hcurrent ?_).2 horder.owners
    exact fun _ _ hlt _ => hlt
  · exact ChildOrder.siblingsMeet_flush hahead hcurrent fun _ _ hlt => hlt

/-- The line in front of the base list of a class is placed before the class, which starts first. -/
theorem children_of_interrupted_header :
    let tree := outline "class A\n#if X\n: B\n\x7b\x7d".toList
    tree.children 0 = [1, 2] ∧ (tree.label? 1).map (·.start) = some 8 ∧
      (tree.label? 2).map (·.start) = some 0 ∧
      ¬ tree.SiblingsMeet fun a b => a.start < b.start := by
  intro tree
  have hchildren : tree.children 0 = [1, 2] := by decide +kernel
  have hline : (tree.label? 1).map (·.start) = some 8 := by decide +kernel
  have hclass : (tree.label? 2).map (·.start) = some 0 := by decide +kernel
  refine ⟨hchildren, hline, hclass, fun h => ?_⟩
  have hroot := h 0
  rw [hchildren] at hroot
  obtain ⟨a, b, ha, hb, hlt⟩ := (List.pairwise_cons.1 hroot).1 2 (by simp)
  rw [ha] at hline
  rw [hb] at hclass
  simp only [Option.map_some, Option.some_inj] at hline hclass
  omega

end RegionScope.Source
