import RegionScope.Json.Binary64

/-!
# JSON values

Null, truth values, integers of any size, floating point numbers, strings, lists, and
objects whose fields keep their order. An object has each key once: setting a key that is
there replaces the value in its place, any other key is added at the end.

A rule may also report what has a text but no written form: a value of another kind, a list within
itself, or an integer with more digits than are written.
-/

namespace RegionScope

/-- A value that has no written form: its text, its literal form in a list or an object, whether it
counts as true, and the reason that is given where it is to be written. -/
structure Foreign where
  text : String
  literal : String
  truth : Bool
  refusal : String

/-- A value. -/
inductive Json where
  | null
  | bool (value : Bool)
  | int (value : Int)
  | float (value : Binary64)
  | str (value : String)
  | arr (items : List Json)
  | obj (fields : List (String × Json))
  | foreign (value : Foreign)

namespace Json

/-- The most digits of an integer that is read. -/
def mostDigits : Nat := 4300

/-- The fields of an object, in order. -/
abbrev Fields := List (String × Json)

namespace Fields

/-- The value of a key. -/
def get? (fields : Fields) (key : String) : Option Json := fields.lookup key

/-- The fields with `key` set to `value`. -/
def set (fields : Fields) (key : String) (value : Json) : Fields :=
  match fields with
  | [] => [(key, value)]
  | field :: rest =>
    if field.1 = key then (key, value) :: rest else field :: set rest key value

/-- A key that is set has its new value; every other key keeps its own. -/
theorem get?_set (fields : Fields) (key other : String) (value : Json) :
    (fields.set key value).get? other = if other = key then some value else fields.get? other := by
  induction fields with
  | nil =>
    by_cases h : other = key
    · simp [set, get?, h]
    · have hb : (other == key) = false := by simpa using h
      simp [set, get?, List.lookup_cons, h, hb]
  | cons field rest ih =>
    obtain ⟨k, v⟩ := field
    by_cases hk : k = key
    · by_cases h : other = key
      · simp [set, get?, hk, h]
      · have hb : (other == key) = false := by simpa using h
        simp [set, get?, List.lookup_cons, hk, h, hb]
    · by_cases h : other = k
      · have hne : other ≠ key := fun e => hk (h ▸ e)
        simp [set, get?, hk, h]
      · have hb : (other == k) = false := by simpa using h
        simpa [set, get?, List.lookup_cons, hk, hb] using ih

/-- The fields with `key` set to `value` unless the key is there. -/
def setIfMissing (fields : Fields) (key : String) (value : Json) : Fields :=
  if (fields.get? key).isSome then fields else fields ++ [(key, value)]

/-- The fields of a list of pairs: each key at the place of its first pair, with the value
of its last. -/
def ofPairs (pairs : List (String × Json)) : Fields :=
  pairs.foldl (fun fields pair => fields.set pair.1 pair.2) []

end Fields

/-- Whether a value counts as true: null, false, zero and everything empty do not. -/
def truthy : Json → Bool
  | null => false
  | bool b => b
  | int i => i != 0
  | float x => !x.isZero
  | str s => s != ""
  | arr items => !items.isEmpty
  | obj fields => !fields.isEmpty
  | foreign value => value.truth

/-- The integer that a value is, a truth value as 0 or 1. -/
def integer? : Json → Option Int
  | int i => some i
  | bool b => some (if b then 1 else 0)
  | _ => none

end Json

end RegionScope
