import RegionScope.Text.Blank

/-!
# Lists of names

Splitting at a separator, and sets of strings as strictly increasing lists. Strings are
ordered by code points.
-/

namespace RegionScope.Text

/-- The parts of a text between the separators; a text without one is a single part. -/
def splitAt (separator : Char) : List Char → List (List Char)
  | [] => [[]]
  | c :: cs =>
    if c = separator then [] :: splitAt separator cs
    else
      match splitAt separator cs with
      | [] => [[c]]
      | part :: parts => (c :: part) :: parts

/-- The parts of a string between the separators. -/
def splitString (separator : Char) (s : String) : List String :=
  (splitAt separator s.toList).map String.ofList

/-- Puts a string into a strictly increasing list, unless it is there. -/
def insertString (s : String) : List String → List String
  | [] => [s]
  | t :: rest =>
    if s < t then s :: t :: rest
    else if s = t then t :: rest
    else t :: insertString s rest

/-- The strings of a list in strictly increasing order. -/
def sortedSet (strings : List String) : List String := strings.foldr insertString []

/-- Inserting adds one member. -/
theorem mem_insertString {s t : String} {l : List String} :
    t ∈ insertString s l ↔ t = s ∨ t ∈ l := by
  induction l with
  | nil => simp [insertString]
  | cons u rest ih =>
    unfold insertString
    split
    · simp
    · split
      · next h => subst h; simp
      · rw [List.mem_cons, ih, List.mem_cons]
        exact or_left_comm

/-- Sorting keeps the members. -/
theorem mem_sortedSet {t : String} {l : List String} : t ∈ sortedSet l ↔ t ∈ l := by
  induction l with
  | nil => simp [sortedSet]
  | cons s rest ih =>
    rw [show sortedSet (s :: rest) = insertString s (sortedSet rest) from rfl, mem_insertString, ih,
      List.mem_cons]

/-- Inserting keeps a list strictly increasing. -/
theorem pairwise_insertString {s : String} {l : List String} (h : l.Pairwise (· < ·)) :
    (insertString s l).Pairwise (· < ·) := by
  induction l with
  | nil => exact List.pairwise_singleton _ s
  | cons t rest ih =>
    have ⟨hfirst, hrest⟩ := List.pairwise_cons.1 h
    rw [insertString]
    by_cases hlt : s < t
    · rw [if_pos hlt]
      refine List.pairwise_cons.2 ⟨fun u hu => ?_, h⟩
      rcases List.mem_cons.1 hu with rfl | hu
      · exact hlt
      · exact String.lt_trans hlt (hfirst u hu)
    · rw [if_neg hlt]
      by_cases heq : s = t
      · rw [if_pos heq]
        exact h
      · rw [if_neg heq]
        refine List.pairwise_cons.2 ⟨fun u hu => ?_, ih hrest⟩
        rcases mem_insertString.1 hu with rfl | hu
        · exact Std.lt_of_le_of_ne (String.not_lt.1 hlt) (Ne.symm heq)
        · exact hfirst u hu

/-- Sorting leaves a strictly increasing list. -/
theorem pairwise_sortedSet (l : List String) : (sortedSet l).Pairwise (· < ·) := by
  induction l with
  | nil => exact .nil
  | cons s rest ih => exact pairwise_insertString ih

/-- Strictly increasing lists with the same members are the same list. -/
theorem eq_of_pairwise_of_mem_iff {l l' : List String} (h : l.Pairwise (· < ·))
    (h' : l'.Pairwise (· < ·)) (hmem : ∀ s, s ∈ l ↔ s ∈ l') : l = l' := by
  have hne : ∀ {s t : String}, s < t → s ≠ t := fun hlt => Std.ne_of_lt hlt
  have hperm : l.Perm l' := (List.perm_ext_iff_of_nodup (h.imp hne) (h'.imp hne)).2 hmem
  exact hperm.eq_of_pairwise (fun _ _ _ _ hlt hgt => absurd hgt (String.lt_asymm hlt)) h h'

/-- The trimmed items of comma-separated lists that are not empty, in increasing order. -/
def commaItems (values : List String) : List String :=
  sortedSet ((values.flatMap (splitString ',')).map trimString |>.filter (· != ""))

end RegionScope.Text
