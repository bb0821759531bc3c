import Mathlib.Data.List.Induction
import Mathlib.Data.List.Nodup
import RegionScope.Json.Reader

/-!
# Members of an object

An object is written as a list of members, in which a key may stand more than once (`members?`). Of
its fields each has another key, at the place of the first member with this key
(`find?_keys_ofPairs`) and with the value of the last one (`get?_ofPairs`).
-/

namespace RegionScope.Json

variable {key : String} {value : Json} {fields members : Fields} {text cs rest : List Char}

namespace Fields

/-- The keys of the fields, in order. -/
def keys (fields : Fields) : List String := fields.map (·.1)

theorem keys_set (fields : Fields) (key : String) (value : Json) :
    (fields.set key value).keys =
      if key ∈ fields.keys then fields.keys else fields.keys ++ [key] := by
  induction fields with
  | nil => rfl
  | cons field rest ih =>
    rw [set]
    by_cases hkey : field.1 = key
    · rw [if_pos hkey, if_pos (by rw [keys, ← hkey]; exact List.mem_cons_self)]
      exact congrArg (· :: keys rest) hkey.symm
    · have hmem : key ∈ keys (field :: rest) ↔ key ∈ keys rest := by
        rw [keys, List.map_cons, List.mem_cons, or_iff_right (Ne.symm hkey), keys]
      have hcons : ∀ more, keys (field :: more) = field.1 :: keys more := fun _ => rfl
      rw [if_neg hkey, hcons, ih]
      simp only [hmem]
      split <;> rfl

theorem ofPairs_concat (members : Fields) (key : String) (value : Json) :
    ofPairs (members ++ [(key, value)]) = (ofPairs members).set key value := by
  rw [ofPairs, List.foldl_append]
  rfl

theorem nodup_keys_ofPairs (members : Fields) : (ofPairs members).keys.Nodup := by
  induction members using List.reverseRecOn with
  | nil => exact List.nodup_nil
  | append_singleton members member ih =>
    rw [ofPairs_concat, keys_set]
    split
    · exact ih
    · next hnew =>
      rw [← List.concat_eq_append, List.nodup_concat]
      exact ⟨hnew, ih⟩

/-- Among the keys of an object the same one comes first as among those of its members, whatever is
asked of it. -/
theorem find?_keys_ofPairs (members : Fields) (p : String → Bool) :
    (ofPairs members).keys.find? p = (keys members).find? p := by
  induction members using List.reverseRecOn with
  | nil => rfl
  | append_singleton members member ih =>
    have hkeys : keys (members ++ [member]) = keys members ++ [member.1] := List.map_append
    rw [ofPairs_concat, keys_set, hkeys, List.find?_append, ← ih]
    split
    · next hmem =>
      -- a key that is there already is found there
      cases hfind : (ofPairs members).keys.find? p with
      | some key => rfl
      | none =>
        rw [List.find?_cons_of_neg (List.find?_eq_none.1 hfind _ hmem)]
        rfl
    · rw [List.find?_append]

theorem get?_eq_none_iff : fields.get? key = none ↔ key ∉ fields.keys := by
  rw [get?, List.lookup_eq_none_iff, keys, List.mem_map]
  constructor
  · rintro h ⟨field, hfield, rfl⟩
    simpa using h field hfield
  · intro h field hfield
    rw [bne_iff_ne]
    rintro rfl
    exact h ⟨field, hfield, rfl⟩

theorem get?_cons (field : String × Json) (fields : Fields) (key : String) :
    get? (field :: fields) key = if key = field.1 then some field.2 else fields.get? key := by
  rw [get?, List.lookup_cons]
  by_cases hkey : key = field.1
  · rw [if_pos hkey, beq_iff_eq.2 hkey]
  · rw [if_neg hkey, beq_eq_false_iff_ne.2 hkey, get?]

/-- A field has the value of the last member with its key. -/
theorem get?_ofPairs (members : Fields) (key : String) :
    (ofPairs members).get? key = get? members.reverse key := by
  induction members using List.reverseRecOn with
  | nil => rfl
  | append_singleton members member ih =>
    rw [ofPairs_concat, get?_set, ih, List.reverse_concat, get?_cons]

/-- A key has a last value exactly if a member has the key. -/
theorem lookup_reverse_eq_none_iff : members.reverse.lookup key = none ↔ key ∉ members.keys := by
  rw [keys, ← List.mem_reverse, ← List.map_reverse]
  exact get?_eq_none_iff

theorem get?_of_mem (hnodup : fields.keys.Nodup) {field : String × Json} (h : field ∈ fields) :
    fields.get? field.1 = some field.2 := by
  induction fields with
  | nil => cases h
  | cons first rest ih =>
    obtain ⟨hfirst, hrest⟩ : first.1 ∉ keys rest ∧ (keys rest).Nodup := List.nodup_cons.1 hnodup
    rw [get?_cons]
    rcases List.mem_cons.1 h with rfl | h
    · exact if_pos rfl
    · have hne : field.1 ≠ first.1 := by
        intro heq
        rw [← heq] at hfirst
        exact hfirst (List.mem_map_of_mem h)
      rw [if_neg hne]
      exact ih hrest h

end Fields

/-! ## Objects in a text -/

/-- The members of an object from behind its opening brace, and what follows the closing one. -/
def readBody (fuel : Nat) (cs : List Char) : Option (Fields × List Char) :=
  match skipGaps cs with
  | '}' :: rest => some ([], rest)
  | inner => readMembers fuel inner

theorem readBody_of_closed {fuel : Nat} (h : skipGaps cs = '}' :: rest) :
    readBody fuel cs = some ([], rest) := by
  rw [readBody, h]
  rfl

theorem readBody_of_open {fuel : Nat} (h : ∀ rest, skipGaps cs ≠ '}' :: rest) :
    readBody fuel cs = readMembers fuel (skipGaps cs) := by
  rw [readBody]
  split
  · next hclosed => exact absurd hclosed (h _)
  · rfl

/-- The members of the object that a text holds, in document order; none if it holds none. -/
def members? (text : List Char) : Option Fields :=
  match skipGaps text with
  | '{' :: cs =>
    (readBody text.length cs).bind fun body =>
      if (skipGaps body.2).isEmpty then some body.1 else none
  | _ => none

theorem readWord_ne_obj : readWord cs ≠ some (.obj fields, rest) := by
  intro h
  obtain ⟨entry, hentry, hread⟩ := List.exists_of_findSome?_eq_some h
  obtain ⟨after, -, hpair⟩ := Option.map_eq_some_iff.1 hread
  have hobj : entry.2 = .obj fields := (Prod.mk.inj hpair).1
  -- none of the words stands for an object
  simp only [List.mem_cons, List.not_mem_nil, or_false] at hentry
  rcases hentry with rfl | rfl | rfl | rfl | rfl | rfl <;> cases hobj

theorem readNumber_ne_obj {negative : Bool} :
    readNumber negative cs ≠ some (.obj fields, rest) := by
  intro h
  rw [readNumber] at h
  obtain ⟨⟨whole, after⟩, -, h⟩ := Option.bind_eq_some_iff.1 h
  dsimp only at h
  split at h
  · split at h <;> cases h
  · cases h

/-- Only a brace begins an object. -/
theorem readValue_eq_obj_iff {fuel : Nat} {c : Char} :
    readValue (fuel + 1) (c :: cs) = some (.obj fields, rest) ↔
      c = '{' ∧ ∃ members, readBody fuel cs = some (members, rest) ∧
        fields = Fields.ofPairs members := by
  have hbody : readValue (fuel + 1) ('{' :: cs) =
      (readBody fuel cs).map fun body => (.obj (Fields.ofPairs body.1), body.2) := by
    rw [readValue, if_neg (by decide), if_neg (by decide), if_pos rfl]
    split
    · next hclosed =>
      rw [readBody_of_closed hclosed]
      rfl
    · next hopen => rw [readBody_of_open hopen]
  by_cases hc : c = '{'
  · subst hc
    rw [hbody, Option.map_eq_some_iff]
    constructor
    · rintro ⟨⟨members, after⟩, hread, hpair⟩
      obtain ⟨hobj, rfl⟩ := Prod.mk.inj hpair
      exact ⟨rfl, members, hread, (Json.obj.inj hobj).symm⟩
    · rintro ⟨-, members, hread, rfl⟩
      exact ⟨(members, rest), hread, rfl⟩
  · refine iff_of_false ?_ fun h => hc h.1
    intro h
    rw [readValue] at h
    split at h
    · obtain ⟨_, -, hpair⟩ := Option.map_eq_some_iff.1 h
      cases hpair
    split at h
    · split at h
      · cases h
      · obtain ⟨_, -, hpair⟩ := Option.map_eq_some_iff.1 h
        cases hpair
    split at h
    · next hword =>
      rw [h] at hword
      exact readWord_ne_obj hword
    · split at h
      · exact readNumber_ne_obj h
      · exact readNumber_ne_obj h

theorem read?_eq_some_iff : read? text = some value ↔
    ∃ rest, readValue (text.length + 1) (skipGaps text) = some (value, rest) ∧
      (skipGaps rest).isEmpty = true := by
  rw [read?]
  cases readValue (text.length + 1) (skipGaps text) with
  | none => simp
  | some result =>
    obtain ⟨value', rest⟩ := result
    cases hrest : (skipGaps rest).isEmpty <;> simp_all

theorem members?_eq_some_iff : members? text = some members ↔
    ∃ cs rest, skipGaps text = '{' :: cs ∧ readBody text.length cs = some (members, rest) ∧
      (skipGaps rest).isEmpty = true := by
  rw [members?]
  split
  · next cs hcs =>
    simp [hcs, Option.bind_eq_some_iff]
  · next hnot => exact iff_of_false nofun fun ⟨cs, _, hcs, _⟩ => hnot cs hcs

/-- A text holds an object exactly if it has members, and its fields are made of them. -/
theorem read?_eq_obj_iff :
    read? text = some (.obj fields) ↔ ∃ members, members? text = some members ∧
      fields = Fields.ofPairs members := by
  rw [read?_eq_some_iff]
  constructor
  · rintro ⟨rest, hread, hrest⟩
    cases hcs : skipGaps text with
    | nil =>
      rw [hcs, readValue] at hread
      cases hread
    | cons c cs =>
      rw [hcs, readValue_eq_obj_iff] at hread
      obtain ⟨rfl, members, hbody, rfl⟩ := hread
      exact ⟨members, members?_eq_some_iff.2 ⟨cs, rest, hcs, hbody, hrest⟩, rfl⟩
  · rintro ⟨members, hmembers, rfl⟩
    obtain ⟨cs, rest, hcs, hbody, hrest⟩ := members?_eq_some_iff.1 hmembers
    exact ⟨rest, hcs ▸ readValue_eq_obj_iff.2 ⟨rfl, members, hbody, rfl⟩, hrest⟩

end RegionScope.Json
