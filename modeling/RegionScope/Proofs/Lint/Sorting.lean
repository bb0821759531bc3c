import RegionScope.Lint.Rule
import RegionScope.Proofs.StableSort
import Mathlib.Data.List.Nodup
import Mathlib.Data.List.Perm.Basic
import Mathlib.Data.Prod.Lex
import Mathlib.Data.String.Basic

/-!
# Order of issues

Issues are ordered by line and message, and sorting only changes their order
(`sort_perm`, `sort_pairwise`), but not that of issues that agree in both (`isStableSort_sort`).
Among issues of which each stands on a line of its own the sorted
order is the order of the lines, so a part of the issues that is given in that order is found in it
again (`filter_sort`).
-/

namespace RegionScope.Issue

variable {a b c : Issue} {issues : List Issue}

theorem le_iff : a.le b = true ↔
    a.sortLine < b.sortLine ∨ a.sortLine = b.sortLine ∧ a.messageText ≤ b.messageText := by
  simp [le]

theorem le_trans (hab : a.le b = true) (hbc : b.le c = true) : a.le c = true := by
  rw [le_iff] at *
  rcases hab with hab | ⟨hab, hmessage⟩
  · rcases hbc with hbc | ⟨hbc, -⟩
    · exact .inl (Int.lt_trans hab hbc)
    · exact .inl (hbc ▸ hab)
  · rcases hbc with hbc | ⟨hbc, hmessage'⟩
    · exact .inl (hab ▸ hbc)
    · exact .inr ⟨hab.trans hbc, String.le_trans hmessage hmessage'⟩

theorem le_total (a b : Issue) : (a.le b || b.le a) = true := by
  rw [Bool.or_eq_true_iff, le_iff, le_iff]
  rcases Int.lt_trichotomy a.sortLine b.sortLine with h | h | h
  · exact .inl (.inl h)
  · rcases String.le_total a.messageText b.messageText with hmessage | hmessage
    · exact .inl (.inr ⟨h, hmessage⟩)
    · exact .inr (.inr ⟨h.symm, hmessage⟩)
  · exact .inr (.inl h)

theorem sort_perm (issues : List Issue) : (sort issues).Perm issues := List.mergeSort_perm issues le

theorem sort_pairwise (issues : List Issue) : (sort issues).Pairwise fun a b => a.le b = true :=
  @List.pairwise_mergeSort Issue le (fun _ _ _ => le_trans) le_total issues

/-- What issues are sorted by: the line, then the text of the message. -/
def sortKey (issue : Issue) : Int ×ₗ String := toLex (issue.sortLine, issue.messageText)

theorem le_iff_sortKey (a b : Issue) : a.le b = true ↔ a.sortKey ≤ b.sortKey := by
  rw [le_iff, sortKey, sortKey, Prod.Lex.toLex_le_toLex]

theorem isStableSort_sort (issues : List Issue) : IsStableSort sortKey issues (sort issues) :=
  .of_mergeSort le_iff_sortKey issues

/-- Issues on lines of their own are told apart by the order. -/
theorem eq_of_le_of_le (h : issues.Pairwise fun a b => a.sortLine < b.sortLine) (ha : a ∈ issues)
    (hb : b ∈ issues) (hab : a.le b = true) (hba : b.le a = true) : a = b := by
  have hnodup : (issues.map sortLine).Nodup :=
    List.pairwise_map.2 (h.imp fun hlt => Int.ne_of_lt hlt)
  apply List.inj_on_of_nodup_map hnodup ha hb
  rw [le_iff] at *
  omega

/-- The selected issues keep their order if their lines increase. -/
theorem filter_sort {p : Issue → Bool}
    (h : (issues.filter p).Pairwise fun a b => a.sortLine < b.sortLine) :
    (sort issues).filter p = issues.filter p := by
  have hperm : ((sort issues).filter p).Perm (issues.filter p) := (sort_perm issues).filter p
  refine hperm.eq_of_pairwise ?_ ((sort_pairwise issues).filter p) ?_
  · intro a b ha hb hab hba
    exact eq_of_le_of_le h (hperm.mem_iff.1 ha) hb hab hba
  · exact h.imp fun hlt => le_iff.2 (.inl hlt)

/-! ## Issues on a line -/

/-- The line that an issue gives. -/
def line? (issue : Issue) : Option Int := (issue.get? "line").bind (·.integer?)

/-- How many of some issues stand on a line. -/
def countAt (line : Int) (issues : List Issue) : Nat :=
  issues.countP fun issue => issue.line? == some line

theorem countAt_sort (line : Int) (issues : List Issue) :
    countAt line (sort issues) = countAt line issues := (sort_perm issues).countP_eq _

theorem countAt_append (line : Int) (issues more : List Issue) :
    countAt line (issues ++ more) = countAt line issues + countAt line more := List.countP_append

/-- Of issues on different lines at most one stands on a line. -/
theorem countAt_eq (h : (issues.map line?).Nodup) (line : Int) :
    countAt line issues = if some line ∈ issues.map line? then 1 else 0 := by
  have hcount : countAt line issues = (issues.map line?).count (some line) := by
    rw [countAt, List.count, List.countP_map]
    rfl
  rw [hcount]
  exact h.count

/-! ## Issues that rules make -/

variable {severity message id : String} {line : Int} {plugin : Option String}

theorem line?_make : (make severity message (some line) plugin).line? = some line := by
  simp [make, line?, get?, Json.Fields.get?, List.lookup_cons, Json.integer?]

theorem stamp_make : stamp id (make severity message (some line) none) =
    make severity message (some line) (some id) := by
  simp [make, stamp, Json.Fields.setIfMissing, Json.Fields.get?]

theorem isError_make :
    (make severity message (some line) plugin).isError = (severity == "ERROR") := by
  simp [make, isError, get?, Json.Fields.get?]

theorem sortLine_make : (make severity message (some line) plugin).sortLine = line := by
  have h : ((make severity message (some line) plugin).get? "line").bind (·.integer?) =
      some line := line?_make
  rw [sortLine, h]
  rfl

end RegionScope.Issue
