import Mathlib.Data.List.Basic
import Mathlib.Order.Lattice

/-!
# Stable sorts

A list is sorted stably by a key when its items stand in the order of their keys and those of one
key in the order in which they were (`IsStableSort`). There is no more than one such list
(`IsStableSort.unique`), so a part of the items is sorted by leaving out the others
(`IsStableSort.filter`).
-/

namespace RegionScope

variable {α κ : Type} [LinearOrder κ]

/-- `sorted` holds the items of `l` in the order of their keys, and those of each key in the order
in which they are in `l`. -/
structure IsStableSort (key : α → κ) (l sorted : List α) : Prop where
  perm : sorted.Perm l
  ordered : sorted.Pairwise fun a b => key a ≤ key b
  stable : ∀ k, sorted.filter (fun a => key a = k) = l.filter fun a => key a = k

namespace IsStableSort

variable {key : α → κ} {l sorted sorted' : List α}

/-- Lists in order that have the same items of each key are equal. -/
theorem eq_of_filter_eq (h : sorted.Pairwise fun a b => key a ≤ key b)
    (h' : sorted'.Pairwise fun a b => key a ≤ key b) (hperm : sorted.Perm sorted')
    (hkeys : ∀ k, sorted.filter (fun a => key a = k) = sorted'.filter fun a => key a = k) :
    sorted = sorted' := by
  induction sorted generalizing sorted' with
  | nil => exact hperm.nil_eq
  | cons a rest ih =>
    cases sorted' with
    | nil => exact absurd hperm.length_eq (by simp)
    | cons b rest' =>
      obtain ⟨ha, hrest⟩ := List.pairwise_cons.1 h
      obtain ⟨hb, hrest'⟩ := List.pairwise_cons.1 h'
      -- each of the first items has a least key, so they have one key and are the first of it
      have hab : key a ≤ key b := by
        rcases List.mem_cons.1 (hperm.mem_iff.2 List.mem_cons_self) with heq | hmem
        · exact le_of_eq (congrArg key heq.symm)
        · exact ha b hmem
      have hba : key b ≤ key a := by
        rcases List.mem_cons.1 (hperm.mem_iff.1 List.mem_cons_self) with heq | hmem
        · exact le_of_eq (congrArg key heq.symm)
        · exact hb a hmem
      have hkey : key b = key a := le_antisymm hba hab
      have hfirst := hkeys (key a)
      rw [List.filter_cons_of_pos (by simp), List.filter_cons_of_pos (by simp [hkey])] at hfirst
      obtain ⟨rfl, -⟩ := List.cons.inj hfirst
      rw [ih hrest hrest' hperm.cons_inv]
      intro k
      have hk := hkeys k
      by_cases hak : key a = k
      · rw [List.filter_cons_of_pos (by simpa using hak),
          List.filter_cons_of_pos (by simpa using hak)] at hk
        exact (List.cons.inj hk).2
      · rwa [List.filter_cons_of_neg (by simpa using hak),
          List.filter_cons_of_neg (by simpa using hak)] at hk

/-- A list is sorted stably in one way only. -/
theorem unique (h : IsStableSort key l sorted) (h' : IsStableSort key l sorted') :
    sorted = sorted' :=
  eq_of_filter_eq h.ordered h'.ordered (h.perm.trans h'.perm.symm)
    fun k => (h.stable k).trans (h'.stable k).symm

/-- What is selected of a sorted list is what was selected, sorted. -/
theorem filter (h : IsStableSort key l sorted) (p : α → Bool) :
    IsStableSort key (l.filter p) (sorted.filter p) := by
  refine ⟨h.perm.filter p, h.ordered.filter p, ?_⟩
  intro k
  rw [List.filter_comm, h.stable k, List.filter_comm]

/-- Items in two parts may be sorted by themselves if all of the others come behind them. -/
theorem append {more more' : List α} {l' : List α} (h : IsStableSort key (l ++ more) sorted)
    (h' : IsStableSort key (l' ++ more') sorted')
    (hlt : ∀ a ∈ l ++ more, ∀ b ∈ l' ++ more', key a < key b) :
    IsStableSort key ((l ++ l') ++ (more ++ more')) (sorted ++ sorted') := by
  constructor
  · refine (h.perm.append h'.perm).trans ?_
    rw [List.append_assoc, List.append_assoc, ← List.append_assoc more, ← List.append_assoc l']
    exact (List.perm_append_comm.append_right more').append_left l
  · refine List.pairwise_append.2 ⟨h.ordered, h'.ordered, ?_⟩
    intro a ha b hb
    exact le_of_lt (hlt a (h.perm.mem_iff.1 ha) b (h'.perm.mem_iff.1 hb))
  · intro k
    -- the items of one key are all in front or all behind
    have hnone : (more.filter fun a => key a = k) = [] ∨ (l'.filter fun a => key a = k) = [] := by
      by_contra hboth
      rw [not_or] at hboth
      obtain ⟨a, ha⟩ := List.exists_mem_of_ne_nil _ hboth.1
      obtain ⟨b, hb⟩ := List.exists_mem_of_ne_nil _ hboth.2
      obtain ⟨ha, hak⟩ := List.mem_filter.1 ha
      obtain ⟨hb, hbk⟩ := List.mem_filter.1 hb
      have := hlt a (List.mem_append_right l ha) b (List.mem_append_left more' hb)
      rw [of_decide_eq_true hak, of_decide_eq_true hbk] at this
      exact lt_irrefl k this
    simp only [List.filter_append, h.stable, h'.stable]
    rcases hnone with hnone | hnone
    · rw [hnone, List.append_nil, List.nil_append, List.append_assoc]
    · rw [hnone, List.append_nil, List.nil_append, List.append_assoc]

/-- Merge sort by an order that is the order of the keys is stable. -/
theorem of_mergeSort {le : α → α → Bool} (hle : ∀ a b, le a b = true ↔ key a ≤ key b)
    (l : List α) : IsStableSort key l (l.mergeSort le) := by
  have htrans : ∀ a b c, le a b = true → le b c = true → le a c = true := by
    intro a b c hab hbc
    rw [hle] at *
    exact le_trans hab hbc
  have htotal : ∀ a b, (le a b || le b a) = true := by
    intro a b
    rw [Bool.or_eq_true, hle, hle]
    exact le_total _ _
  have hperm : (l.mergeSort le).Perm l := List.mergeSort_perm l le
  refine ⟨hperm, (List.pairwise_mergeSort htrans htotal l).imp (hle _ _).1, ?_⟩
  intro k
  -- the items of one key are in order as they are, so merge sort leaves them in this order
  have hclass : (l.filter fun a => key a = k).Pairwise fun a b => le a b = true := by
    apply List.pairwise_of_forall_mem_list
    intro a ha b hb
    have hka := of_decide_eq_true (List.mem_filter.1 ha).2
    have hkb := of_decide_eq_true (List.mem_filter.1 hb).2
    exact (hle a b).2 (le_of_eq (hka.trans hkb.symm))
  have hsublist := (List.sublist_mergeSort htrans htotal hclass List.filter_sublist).filter
    fun a => decide (key a = k)
  rw [List.filter_filter] at hsublist
  simp only [Bool.and_self] at hsublist
  exact (hsublist.eq_of_length (hperm.filter _).length_eq.symm).symm

end IsStableSort

end RegionScope
