import RegionScope.Source.Outline
import RegionScope.Proofs.Text.Trimmed

/-!
# Headers that mean the same

A header collects more blanks than its normal form keeps. Two headers are the same if they have
one normal form whatever is added to them (`SameHeader`). So a blank more behind a blank or in an
empty header, and blanks in place of an empty header, make no difference.
-/

namespace RegionScope.Source

open RegionScope.Text

/-- Two headers, latest character first, that have one normal form whatever is added to them. -/
def SameHeader (header header' : List Char) : Prop :=
  ∀ text, collapse (header.reverse ++ text) = collapse (header'.reverse ++ text)

namespace SameHeader

variable {header header' other : List Char}

theorem refl (header : List Char) : SameHeader header header := fun _ => rfl

theorem symm (h : SameHeader header header') : SameHeader header' header :=
  fun text => (h text).symm

theorem trans (h : SameHeader header header') (h' : SameHeader header' other) :
    SameHeader header other := fun text => (h text).trans (h' text)

theorem normalHeader (h : SameHeader header header') :
    normalHeader header.reverse = normalHeader header'.reverse := by
  have := h []
  rw [List.append_nil, List.append_nil] at this
  exact congrArg dropAttributes this

/-- The same text may be added to both. -/
theorem append (h : SameHeader header header') (text : List Char) :
    SameHeader (text ++ header) (text ++ header') := by
  intro rest
  rw [List.reverse_append, List.reverse_append, List.append_assoc, List.append_assoc]
  exact h _

/-- One more blank in an empty header, or behind a blank, makes no difference. -/
theorem space (h : header = [] ∨ header.head? = some ' ') : SameHeader header (' ' :: header) := by
  intro text
  rw [List.reverse_cons, List.append_assoc]
  rcases h with rfl | hhead
  · rfl
  · obtain ⟨front, rfl⟩ : ∃ front, header = ' ' :: front := by
      cases header with
      | nil => cases hhead
      | cons c front => exact ⟨front, by rw [Option.some.inj hhead]⟩
    rw [List.reverse_cons, List.append_assoc, List.append_assoc]
    apply collapse_append
    · rfl
    · exact (squeezeOnto_space_idem (squeeze text)).symm

/-- Blanks alone are as good as an empty header. -/
theorem of_blanks (h : ∀ c ∈ header, c = ' ') : SameHeader header [] := by
  induction header with
  | nil => exact refl []
  | cons c header ih =>
    obtain rfl := h c List.mem_cons_self
    have hrest : ∀ c ∈ header, c = ' ' := fun c hc => h c (List.mem_cons_of_mem _ hc)
    apply (SameHeader.symm ?_).trans (ih hrest)
    apply space
    cases header with
    | nil => exact .inl rfl
    | cons d header => exact .inr (congrArg some (hrest d List.mem_cons_self))

end SameHeader

end RegionScope.Source
