import RegionScope.Proofs.Brackets

/-!
# Segments of a list with brackets

The height of a place is by how much openings outnumber closings in front of it, and the excess of
a segment is the difference of the heights at its two ends (`excess_take_add_slice`). A list is
balanced exactly when behind every opening item some segment from it on has as many closings as
openings, and in front of every closing item some segment up to it has as many openings as
closings (`balancedFrom_zero_iff`).
-/

namespace RegionScope.Brackets

variable {α : Type} {opens closes : α → Bool} {x : α} {l : List α} {i j k : Nat}

/-- The items of a list from place `i` on that stand in front of place `j`. -/
def slice (l : List α) (i j : Nat) : List α := (l.take j).drop i

theorem excess_append (front back : List α) : excess opens closes (front ++ back) =
    excess opens closes front + excess opens closes back := by
  simp only [excess, List.countP_append]
  omega

/-- No part at the end of a balanced list opens more brackets than it closes. -/
theorem BalancedFrom.excess_nonpos {back : List α} (h : BalancedFrom opens closes 0 l)
    (hback : back <:+ l) : excess opens closes back ≤ 0 := by
  obtain ⟨front, rfl⟩ := hback
  have hfront := h.2 front back rfl
  have htotal := h.1
  rw [excess_append] at htotal
  omega

theorem take_append_slice (l : List α) (h : i ≤ j) : l.take i ++ slice l i j = l.take j := by
  have htake : (l.take j).take i = l.take i := by rw [List.take_take, Nat.min_eq_left h]
  rw [slice, ← htake, List.take_append_drop]

/-- The excess of a segment is the difference of two heights. -/
theorem excess_take_add_slice (opens closes : α → Bool) (l : List α) (h : i ≤ j) :
    excess opens closes (l.take i) + excess opens closes (slice l i j) =
      excess opens closes (l.take j) := by
  rw [← excess_append, take_append_slice l h]

/-- One item changes the height by one at most. -/
theorem excess_take_succ (opens closes : α → Bool) (hx : l[k]? = some x) :
    excess opens closes (l.take (k + 1)) =
      excess opens closes (l.take k) + if opens x then 1 else if closes x then -1 else 0 := by
  rw [List.take_add_one, hx, excess_append]
  congr 1
  have hnil : excess opens closes ([] : List α) = 0 := rfl
  rw [Option.toList_some, excess_cons, hnil, Int.zero_add]

/-- Below a height that is not negative the height falls only at a closing item that no segment
compensates. -/
theorem height_nonneg
    (hcloses : ∀ k x, l[k]? = some x → closes x = true → opens x = false →
      ∃ i ≤ k, 0 ≤ excess opens closes (slice l i (k + 1))) (k : Nat) :
    0 ≤ excess opens closes (l.take k) := by
  -- the places in front of the first negative height all have a height that is not negative
  induction k using Nat.strongRecOn with
  | ind k ih =>
    cases k with
    | zero => exact Int.le_refl 0
    | succ k =>
      have hk := ih k (Nat.lt_succ_self k)
      cases hx : l[k]? with
      | none =>
        have hlength := List.getElem?_eq_none_iff.1 hx
        rw [List.take_of_length_le hlength] at hk
        rw [List.take_of_length_le (Nat.le_succ_of_le hlength)]
        exact hk
      | some x =>
        have hstep := excess_take_succ opens closes hx
        cases hopens : opens x with
        | true =>
          rw [hopens] at hstep
          simp only [if_true] at hstep
          omega
        | false =>
          cases hc : closes x with
          | false =>
            rw [hopens, hc] at hstep
            simp only [Bool.false_eq_true, if_false] at hstep
            omega
          | true =>
            obtain ⟨i, hi, hsegment⟩ := hcloses k x hx hc hopens
            have hheight := ih i (Nat.lt_succ_of_le hi)
            have hle : i ≤ k + 1 := Nat.le_succ_of_le hi
            have hsum := excess_take_add_slice opens closes l hle
            omega

/-- A positive height at the end would go back to the start, if every opening is compensated. -/
theorem height_end_nonpos
    (hopens : ∀ k x, l[k]? = some x → opens x = true →
      ∃ j ≤ l.length, k < j ∧ excess opens closes (slice l k j) ≤ 0) :
    excess opens closes l ≤ 0 := by
  by_contra hpos
  -- from the end towards the start: the last place without a positive height would open
  have key : ∀ n ≤ l.length, ∀ j, l.length - n ≤ j → j ≤ l.length →
      0 < excess opens closes (l.take j) := by
    intro n hn
    induction n with
    | zero =>
      intro j hge hle
      obtain rfl : j = l.length := Nat.le_antisymm hle hge
      rw [List.take_length]
      omega
    | succ n ih =>
      have ih := ih (Nat.le_of_succ_le hn)
      intro j hge hle
      rcases Nat.lt_or_ge j (l.length - n) with hlt | hge'
      · obtain rfl : j = l.length - (n + 1) := by omega
        have hj : l.length - (n + 1) < l.length := by omega
        have hx : l[l.length - (n + 1)]? = some l[l.length - (n + 1)] :=
          List.getElem?_eq_getElem hj
        have hstep := excess_take_succ opens closes hx
        have hnext := ih (l.length - (n + 1) + 1) (by omega) (by omega)
        by_contra hle'
        have hopen : opens l[l.length - (n + 1)] = true := by
          by_contra hnot
          rw [if_neg hnot] at hstep
          split at hstep <;> omega
        obtain ⟨j, hjle, hlt, hsegment⟩ := hopens _ _ hx hopen
        have hsum := excess_take_add_slice opens closes l (Nat.le_of_lt hlt)
        have hj := ih j (by omega) hjle
        omega
      · exact ih j hge' hle
  have hzero := key l.length (Nat.le_refl _) 0 (by omega) (Nat.zero_le _)
  simp [excess] at hzero

/-- A list is balanced when every opening item is compensated behind it, and every closing item in
front of it. -/
theorem balancedFrom_zero_iff : BalancedFrom opens closes 0 l ↔
    (∀ k x, l[k]? = some x → opens x = true →
      ∃ j ≤ l.length, k < j ∧ excess opens closes (slice l k j) ≤ 0) ∧
    ∀ k x, l[k]? = some x → closes x = true → opens x = false →
      ∃ i ≤ k, 0 ≤ excess opens closes (slice l i (k + 1)) := by
  constructor
  · rintro ⟨htotal, hfront⟩
    have hheight : ∀ k, 0 ≤ excess opens closes (l.take k) := by
      intro k
      have := hfront (l.take k) (l.drop k) (List.take_append_drop k l).symm
      simpa using this
    constructor
    · -- up to the end of the list everything is compensated
      intro k x hx hopens
      have hk := (List.getElem?_eq_some_iff.1 hx).1
      refine ⟨l.length, Nat.le_refl _, hk, ?_⟩
      have hsum := excess_take_add_slice opens closes l (Nat.le_of_lt hk)
      have := hheight k
      rw [List.take_length] at hsum
      omega
    · -- and from its start on
      intro k x _ _ _
      exact ⟨0, Nat.zero_le k, by simpa [slice] using hheight (k + 1)⟩
  · rintro ⟨hopens, hcloses⟩
    have hheight := height_nonneg hcloses
    refine ⟨?_, ?_⟩
    · have hend := height_end_nonpos hopens
      have := hheight l.length
      rw [List.take_length] at this
      omega
    · rintro front back rfl
      have := hheight front.length
      rw [List.take_left] at this
      omega

end RegionScope.Brackets
