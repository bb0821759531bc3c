import RegionScope.Text.LineIndex

/-!
# Lines of positions

In an increasing list the entry at a place is below a bound exactly when the place is below
the number of such entries (`lt_iff_lt_countP`), so the search for the first break that is not
below a position ends at the number of breaks below it (`lowerBound_eq_countP`). The line of a
position is one more than the number of newlines before it (`line_ofText`).
-/

namespace RegionScope.Text

/-- The number of newlines in a text. -/
def newlines (text : List Char) : Nat := text.count '\n'

namespace LineIndex

theorem lt_iff_lt_countP {l : List Int} {bound b : Int} {i : Nat} (hl : l.Pairwise (· < ·))
    (hi : l[i]? = some b) : b < bound ↔ i < l.countP (· < bound) := by
  induction l generalizing i with
  | nil => simp at hi
  | cons a rest ih =>
    obtain ⟨ha, hrest⟩ := List.pairwise_cons.1 hl
    rw [List.countP_cons]
    cases i with
    | zero =>
      obtain rfl : a = b := by simpa using hi
      constructor
      · intro h
        simp [h]
      · intro h
        -- a first entry that is not below the bound leaves no entry below it
        by_cases hb : a < bound
        · exact hb
        · have : rest.countP (· < bound) = 0 := by
            rw [List.countP_eq_zero]
            intro c hc
            have := ha c hc
            simp only [decide_eq_true_eq]
            omega
          simp [this, hb] at h
    | succ i =>
      have hi : rest[i]? = some b := by simpa using hi
      rw [ih hrest hi]
      have hab : a < b := ha b (List.mem_of_getElem? hi)
      by_cases hb : a < bound
      · simp [hb]
      · have : ¬ i < rest.countP (· < bound) := by
          rw [← ih hrest hi]
          omega
        simp only [decide_eq_true_eq, if_neg hb]
        omega

/-- The search ends at the number of breaks below the position. -/
theorem lowerBound_eq_countP {index : LineIndex} {pos : Int} {lo hi : Nat}
    (hl : index.breaks.toList.Pairwise (· < ·)) (hhi : hi ≤ index.breaks.size)
    (hlo : lo ≤ index.breaks.toList.countP (· < pos))
    (hcount : index.breaks.toList.countP (· < pos) ≤ hi) :
    lowerBound index pos lo hi = index.breaks.toList.countP (· < pos) := by
  fun_induction lowerBound index pos lo hi with
  | case1 lo hi hlt mid b hb hbelow ih =>
    -- the entry in the middle is below the position, and so are all before it
    rw [← Array.getElem?_toList] at hb
    exact ih hhi ((lt_iff_lt_countP hl hb).1 hbelow) hcount
  | case2 lo hi hlt mid b hb hbelow ih =>
    -- it is not below the position, and none behind it is
    rw [← Array.getElem?_toList] at hb
    have hmid := mt (lt_iff_lt_countP hl hb).2 hbelow
    exact ih (by omega) hlo (Nat.le_of_not_lt hmid)
  | case3 lo hi hlt mid hnone =>
    have := Array.getElem?_eq_none_iff.1 hnone
    omega
  | case4 lo hi hge => omega

/-- Every break of a text that begins at `pos` is at `pos` or behind it. -/
theorem le_of_mem_breaksFrom {pos : Nat} {text : List Char} {b : Int}
    (h : b ∈ breaksFrom pos text) : (pos : Int) ≤ b := by
  induction text generalizing pos with
  | nil => simp [breaksFrom] at h
  | cons c cs ih =>
    unfold breaksFrom at h
    split at h
    · rcases List.mem_cons.1 h with rfl | h
      · exact Int.le_refl _
      · have := ih h
        omega
    · have := ih h
      omega

theorem breaksFrom_pairwise_lt (pos : Nat) (text : List Char) :
    (breaksFrom pos text).Pairwise (· < ·) := by
  induction text generalizing pos with
  | nil => exact List.Pairwise.nil
  | cons c cs ih =>
    unfold breaksFrom
    split
    · refine List.pairwise_cons.2 ⟨?_, ih (pos + 1)⟩
      intro b hb
      have := le_of_mem_breaksFrom hb
      omega
    · exact ih (pos + 1)

/-- The breaks below a bound are the newlines of the text up to it. -/
theorem countP_breaksFrom (pos : Nat) (text : List Char) (bound : Int) :
    (breaksFrom pos text).countP (· < bound) = newlines (text.take (bound - pos).toNat) := by
  induction text generalizing pos with
  | nil => simp [breaksFrom, newlines]
  | cons c cs ih =>
    have hnext := ih (pos + 1)
    -- the first character is counted if the bound lies behind it
    by_cases hbound : (pos : Int) < bound
    · obtain ⟨n, hn⟩ : ∃ n, (bound - pos).toNat = n + 1 :=
        ⟨(bound - pos).toNat - 1, by omega⟩
      have hn' : (bound - (pos + 1 : Nat)).toNat = n := by omega
      rw [hn, List.take_succ_cons]
      rw [hn'] at hnext
      by_cases hc : c = '\n'
      · simp [breaksFrom, newlines, hc, hbound, hnext]
      · simp [breaksFrom, newlines, hc, hnext]
    · have hzero : (bound - pos).toNat = 0 := by omega
      have hzero' : (bound - (pos + 1 : Nat)).toNat = 0 := by omega
      rw [hzero'] at hnext
      by_cases hc : c = '\n'
      · simpa [breaksFrom, newlines, hc, hbound, hzero] using hnext
      · simpa [breaksFrom, newlines, hc, hzero] using hnext

/-- The line of a position is one more than the number of newlines before it. -/
theorem line_ofText (text : List Char) (pos : Int) :
    (ofText text).line pos = newlines (text.take pos.toNat) + 1 := by
  have hl : (ofText text).breaks.toList.Pairwise (· < ·) := by
    simpa [ofText] using breaksFrom_pairwise_lt 0 text
  have hcount := (ofText text).breaks.toList.countP_le_length (p := (· < pos))
  rw [Array.length_toList] at hcount
  rw [line, lowerBound_eq_countP hl (Nat.le_refl _) (Nat.zero_le _) hcount]
  have := countP_breaksFrom 0 text pos
  simp only [Int.ofNat_zero, Int.sub_zero] at this
  simpa [ofText] using this

theorem line_ofText_natCast (text : List Char) (pos : Nat) :
    (ofText text).line pos = newlines (text.take pos) + 1 := by
  rw [line_ofText, Int.toNat_natCast]

end LineIndex

theorem newlines_append (text text' : List Char) :
    newlines (text ++ text') = newlines text + newlines text' := List.count_append

end RegionScope.Text
