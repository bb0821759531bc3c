import RegionScope.Proofs.Json.Members
import RegionScope.Proofs.Tables
import RegionScope.Settings

/-!
# Settings files

A settings file holds an object. It is refused if a key of the object is no setting, or is a setting
that holds a list while its last value is none, and then the failure names the first such key in
document order. Any other object replaces the default of each setting that it has a key of, and
leaves the others as they are (`load_settingsFile`).
-/

namespace RegionScope.Settings

open RegionScope.Text

variable {key path : String} {value : Json} {fields members : Json.Fields}
  {settings next : Settings}

/-! ## Settings by their keys -/

/-- What a setting holds. -/
inductive Value where
  | text (text : String)
  | list (items : List String)
deriving DecidableEq, Repr

/-- The settings with their keys. -/
def entries (settings : Settings) : List (String × Value) :=
  [("extensions", .text settings.extensions), ("only", .list settings.only),
   ("enable", .list settings.enable), ("disable", .list settings.disable),
   ("plugin_paths", .list settings.pluginPaths)]

/-- The keys of the settings. -/
def keys : List String := default.entries.map (·.1)

/-- The keys of the settings that hold lists. -/
def listKeys : List String := ["only", "enable", "disable", "plugin_paths"]

/-- What the setting of a key holds after it has taken a value: of a list the text of each item, of
any other value its text. -/
def Value.ofJson (key : String) (value : Json) : Value :=
  match value with
  | .arr items => if key ∈ listKeys then .list (items.map Json.display) else .text value.display
  | _ => .text value.display

/-- Whether a value cannot be taken for a key: no setting has the key, or one that holds a list. -/
def Refused (key : String) (value : Json) : Prop :=
  key ∉ keys ∨ key ∈ listKeys ∧ ∀ items, value ≠ .arr items

/-- The failure that a key is refused with. -/
def refusal (key : String) : Failure :=
  if key ∈ keys then .settingNotList key else .unknownSetting key

/-- The entries with one of them replaced. -/
def replaced (key : String) (value : Json) (entry : String × Value) : String × Value :=
  (entry.1, if entry.1 = key then .ofJson key value else entry.2)

/-- The key that names a list setting. -/
def ListSetting.name : ListSetting → String
  | .only => "only"
  | .enable => "enable"
  | .disable => "disable"
  | .pluginPaths => "plugin_paths"

theorem ListSetting.ofKey?_eq_some_iff {setting : ListSetting} :
    ofKey? key = some setting ↔ key = setting.name := by
  constructor
  · intro h
    exact beq_iff_eq.1 (of_lookup_eq_some (p := fun entry => entry.1 == entry.2.name) (by decide) h)
  · rintro rfl
    cases setting <;> rfl

theorem ListSetting.ofKey?_eq_none_iff : ofKey? key = none ↔ key ∉ listKeys := by
  rw [ofKey?, List.lookup_eq_none_iff]
  simp [listKeys]

theorem ListSetting.name_mem (setting : ListSetting) : setting.name ∈ listKeys := by
  cases setting <;> decide

theorem keys_eq : keys = "extensions" :: listKeys := rfl

theorem entries_setList (settings : Settings) (setting : ListSetting) (items : List Json) :
    (settings.setList setting (items.map Json.display)).entries =
      settings.entries.map (replaced setting.name (.arr items)) := by
  have hreplaced : replaced setting.name (.arr items) = fun entry =>
      (entry.1, if entry.1 = setting.name then .list (items.map Json.display) else entry.2) := by
    funext entry
    rw [replaced, Value.ofJson, if_pos setting.name_mem]
  rw [hreplaced]
  cases setting <;> simp [entries, setList, ListSetting.name]

/-- A value is taken for a key, or refused, whatever the settings are before. -/
theorem set_eq (settings : Settings) (key : String) (value : Json) :
    (Refused key value → settings.set key value = .error (refusal key)) ∧
      (¬ Refused key value → ∃ next, settings.set key value = .ok next ∧
        next.entries = settings.entries.map (replaced key value)) := by
  rw [set.eq_def]
  by_cases hext : key = "extensions"
  · subst hext
    have hlist : "extensions" ∉ listKeys := by decide
    have htaken : ¬ Refused "extensions" value := by
      rw [Refused, not_or]
      exact ⟨not_not_intro List.mem_cons_self, fun h => hlist h.1⟩
    have hvalue : Value.ofJson "extensions" value = .text value.display := by
      cases value with
      | arr items => rw [Value.ofJson, if_neg hlist]
      | _ => rfl
    refine ⟨fun h => absurd h htaken, fun _ => ⟨_, if_pos rfl, ?_⟩⟩
    simp [entries, replaced, hvalue]
  rw [if_neg hext]
  cases hsetting : ListSetting.ofKey? key with
  | none =>
    have hkeys : key ∉ keys := by
      rw [keys_eq, List.mem_cons, not_or]
      exact ⟨hext, ListSetting.ofKey?_eq_none_iff.1 hsetting⟩
    refine ⟨fun _ => ?_, fun h => absurd (.inl hkeys) h⟩
    rw [refusal, if_neg hkeys]
  | some setting =>
    obtain rfl := ListSetting.ofKey?_eq_some_iff.1 hsetting
    have hlist := setting.name_mem
    have hkeys : setting.name ∈ keys := List.mem_cons_of_mem _ hlist
    have hrefusal : refusal setting.name = .settingNotList setting.name := if_pos hkeys
    cases value with
    | arr items =>
      have htaken : ¬ Refused setting.name (.arr items) := by
        rintro (h | ⟨-, h⟩)
        · exact h hkeys
        · exact h items rfl
      exact ⟨fun h => absurd h htaken, fun _ => ⟨_, rfl, entries_setList settings setting items⟩⟩
    | _ =>
      rw [hrefusal]
      exact ⟨fun _ => rfl, fun h => absurd (.inr ⟨hlist, nofun⟩) h⟩

/-! ## Fields in order -/

/-- What the setting of an entry holds after all fields are taken. -/
def merged (value? : String → Option Json) (entry : String × Value) : String × Value :=
  (entry.1, ((value? entry.1).map (Value.ofJson entry.1)).getD entry.2)

/-- Fields none of which is refused are taken one by one. -/
theorem foldlM_set_ok (hnodup : fields.keys.Nodup)
    (hfields : ∀ field ∈ fields, ¬ Refused field.1 field.2) (settings : Settings) : ∃ next,
      fields.foldlM (fun settings field => settings.set field.1 field.2) settings = .ok next ∧
        next.entries = settings.entries.map (merged fields.get?) := by
  induction fields generalizing settings with
  | nil => exact ⟨settings, rfl, (List.map_id _).symm⟩
  | cons field rest ih =>
    obtain ⟨hfield, hrest⟩ := List.forall_mem_cons.1 hfields
    obtain ⟨hnew, hnodup⟩ : field.1 ∉ Json.Fields.keys rest ∧ (Json.Fields.keys rest).Nodup :=
      List.nodup_cons.1 hnodup
    obtain ⟨next, hset, hentries⟩ := (set_eq settings field.1 field.2).2 hfield
    obtain ⟨last, hfold, hlast⟩ := ih hnodup hrest next
    refine ⟨last, ?_, ?_⟩
    · rw [List.foldlM_cons, hset]
      exact hfold
    · rw [hlast, hentries, List.map_map]
      apply List.map_congr_left
      intro entry _
      rw [Function.comp_apply, merged, merged, replaced, Json.Fields.get?_cons]
      -- the keys behind a field are others
      by_cases hkey : entry.1 = field.1
      · rw [hkey, Json.Fields.get?_eq_none_iff.2 hnew]
        simp
      · simp [hkey]

/-- The first field that is refused decides the failure. -/
theorem foldlM_set_error {front back : Json.Fields} {field : String × Json}
    (hfront : ∀ field ∈ front, ¬ Refused field.1 field.2) (hfield : Refused field.1 field.2)
    (settings : Settings) :
    (front ++ field :: back).foldlM (fun settings field => settings.set field.1 field.2) settings =
      .error (refusal field.1) := by
  induction front generalizing settings with
  | nil =>
    rw [List.nil_append, List.foldlM_cons, (set_eq settings field.1 field.2).1 hfield]
    rfl
  | cons first front ih =>
    obtain ⟨hfirst, hfront⟩ := List.forall_mem_cons.1 hfront
    obtain ⟨next, hset, -⟩ := (set_eq settings first.1 first.2).2 hfirst
    rw [List.cons_append, List.foldlM_cons, hset]
    exact ih hfront next

/-! ## Members in document order -/

/-- Whether the last value of a key of an object is refused. -/
def Offends (members : Json.Fields) (key : String) : Prop :=
  ∃ value, members.reverse.lookup key = some value ∧ Refused key value

/-- What comes of a settings object with these members, which may repeat keys. -/
structure Outcome (members : Json.Fields) (result : Except Failure Settings) : Prop where
  fails_iff : (∃ failure, result = .error failure) ↔ ∃ key, Offends members key
  first : ∀ front key value back, members = front ++ (key, value) :: back →
    (∀ member ∈ front, ¬ Offends members member.1) → Offends members key →
      ∃ failure, result = .error failure ∧ failure.message =
        if key ∈ keys then "Config key " ++ key ++ " must be a list"
        else "Unknown config key: " ++ key
  merges : ∀ settings, result = .ok settings →
    settings.entries = default.entries.map (merged (members.reverse.lookup ·))

/-- A field of the object is refused exactly if its key offends. -/
theorem offends_iff_refused {field : String × Json} (h : field ∈ Json.Fields.ofPairs members) :
    Offends members field.1 ↔ Refused field.1 field.2 := by
  have hlast := Json.Fields.get?_of_mem (Json.Fields.nodup_keys_ofPairs members) h
  rw [Json.Fields.get?_ofPairs] at hlast
  constructor
  · rintro ⟨value, hvalue, hrefused⟩
    obtain rfl : field.2 = value := Option.some.inj (hlast.symm.trans hvalue)
    exact hrefused
  · exact fun hrefused => ⟨field.2, hlast, hrefused⟩

theorem mem_keys_of_offends (h : Offends members key) : key ∈ members.keys := by
  obtain ⟨value, hvalue, -⟩ := h
  by_contra hnone
  rw [Json.Fields.lookup_reverse_eq_none_iff.2 hnone] at hvalue
  cases hvalue

/-- The first member whose key offends decides the failure. -/
theorem ofFields_eq_error {p : String → Bool} (hp : ∀ key, p key = true ↔ Offends members key)
    (h : members.keys.find? p = some key) : ofFields (.ofPairs members) = .error (refusal key) := by
  rw [← Json.Fields.find?_keys_ofPairs, List.find?_eq_some_iff_append] at h
  obtain ⟨hkey, before, after, hkeys, hbefore⟩ := h
  obtain ⟨front, back, hfields, rfl, hback⟩ := List.map_eq_append_iff.1 hkeys
  obtain ⟨field, back, rfl, rfl, rfl⟩ := List.map_eq_cons_iff.1 hback
  have hmem : ∀ other ∈ front ++ field :: back, other ∈ Json.Fields.ofPairs members := by
    rw [hfields]
    exact fun other hother => hother
  have hfront : ∀ other ∈ front, ¬ Refused other.1 other.2 := by
    intro other hother
    rw [← offends_iff_refused (hmem other (List.mem_append_left _ hother)), ← hp]
    simpa using hbefore other.1 (List.mem_map_of_mem hother)
  have hfield : Refused field.1 field.2 := by
    rw [← offends_iff_refused (hmem field (List.mem_append_right _ List.mem_cons_self)), ← hp]
    exact hkey
  rw [ofFields, hfields]
  exact foldlM_set_error hfront hfield default

/-- Without an offending key the value of every key is taken. -/
theorem ofFields_eq_ok (h : ∀ key, ¬ Offends members key) : ∃ settings,
    ofFields (.ofPairs members) = .ok settings ∧
      settings.entries = default.entries.map (merged (members.reverse.lookup ·)) := by
  have hfields : ∀ field ∈ Json.Fields.ofPairs members, ¬ Refused field.1 field.2 :=
    fun field hfield hrefused => h _ ((offends_iff_refused hfield).2 hrefused)
  have hlast : (Json.Fields.ofPairs members).get? = (members.reverse.lookup ·) :=
    funext (Json.Fields.get?_ofPairs members)
  have hfold := foldlM_set_ok (Json.Fields.nodup_keys_ofPairs members) hfields default
  rwa [hlast] at hfold

theorem outcome_ofFields (members : Json.Fields) :
    Outcome members (ofFields (.ofPairs members)) := by
  classical
  let p (key : String) : Bool := decide (Offends members key)
  have hp : ∀ key, p key = true ↔ Offends members key := fun key => decide_eq_true_iff
  have hfails : ∀ key, Offends members key → ∃ failure,
      ofFields (.ofPairs members) = .error failure := by
    intro key hkey
    have hsome : (members.keys.find? p).isSome = true :=
      List.find?_isSome.2 ⟨key, mem_keys_of_offends hkey, (hp key).2 hkey⟩
    obtain ⟨first, hfirst⟩ := Option.isSome_iff_exists.1 hsome
    exact ⟨_, ofFields_eq_error hp hfirst⟩
  constructor
  case fails_iff =>
    constructor
    · rintro ⟨failure, hfailure⟩
      by_contra hnone
      obtain ⟨settings, hsettings, -⟩ := ofFields_eq_ok (not_exists.1 hnone)
      rw [hfailure] at hsettings
      cases hsettings
    · rintro ⟨key, hkey⟩
      exact hfails key hkey
  case first =>
    intro front key value back hmembers hfront hkey
    have hnone : (front.map (·.1)).find? p = none := by
      rw [List.find?_eq_none, List.forall_mem_map]
      exact fun member hmember => (hp member.1).not.2 (hfront member hmember)
    have hfind : members.keys.find? p = some key := by
      rw [Json.Fields.keys, hmembers, List.map_append, List.find?_append, hnone, List.map_cons,
        List.find?_cons_of_pos ((hp key).2 hkey)]
      rfl
    refine ⟨_, ofFields_eq_error hp hfind, ?_⟩
    rw [refusal]
    split <;> rfl
  case merges =>
    intro settings hsettings
    have hnone : ∀ key, ¬ Offends members key := by
      intro key hkey
      obtain ⟨failure, hfailure⟩ := hfails key hkey
      rw [hfailure] at hsettings
      cases hsettings
    obtain ⟨settings', hsettings', hentries⟩ := ofFields_eq_ok hnone
    rw [hsettings'] at hsettings
    rwa [Except.ok.inj hsettings] at hentries

/-! ## Files -/

theorem load_eq_ofJson {files : FileTree} {bytes : ByteArray} {text : List Char}
    (hread : files.read path = .ok bytes) (htext : decode? bytes = some text)
    (hvalue : Json.read? text = some value) : load files (some path) = ofJson path value := by
  rw [load, hread]
  dsimp only [bind, Except.bind]
  rw [htext]
  dsimp only
  rw [hvalue]

/-- A settings file that holds no object is refused. One that holds an object is refused exactly if
the last value of some key is, with a failure that names the first such key in document order, and
otherwise gives the settings in which each key of the object has what its last value comes to, and
each other one its default. -/
theorem load_settingsFile {files : FileTree} {bytes : ByteArray} {text : List Char}
    (hread : files.read path = .ok bytes) (htext : decode? bytes = some text)
    (hvalue : Json.read? text = some value) :
    ((∀ fields, value ≠ .obj fields) →
      load files (some path) = .error (.settingsNotObject path)) ∧
      ∀ fields, value = .obj fields → ∃ members, Json.members? text = some members ∧
        fields = Json.Fields.ofPairs members ∧ Outcome members (load files (some path)) := by
  rw [load_eq_ofJson hread htext hvalue]
  constructor
  · intro hobj
    cases value with
    | obj fields => exact absurd rfl (hobj fields)
    | _ => rfl
  · rintro fields rfl
    obtain ⟨members, hmembers, rfl⟩ := Json.read?_eq_obj_iff.1 hvalue
    exact ⟨members, hmembers, rfl, outcome_ofFields members⟩

/-- Of several keys that offend the first one is named, here one that is there twice. -/
theorem load_settingsFile_unknown :
    let source := "\x7b\"typo\": true, \"only\": \"a\", \"typo\": [\"b\"]\x7d"
    let files : FileTree := ⟨[("c.json", .file source.toUTF8)], []⟩
    files.read "c.json" = .ok source.toUTF8 ∧ decode? source.toUTF8 = some source.toList ∧
      ∃ members, Json.read? source.toList = some (.obj (Json.Fields.ofPairs members)) ∧
        Json.members? source.toList = some members ∧
        Json.Fields.keys members = ["typo", "only", "typo"] ∧
        Outcome members (load files (some "c.json")) ∧
        ∃ failure, load files (some "c.json") = .error failure ∧
          failure.message = "Unknown config key: typo" := by
  intro source files
  have hread : files.read "c.json" = .ok source.toUTF8 := rfl
  have htext : decode? source.toUTF8 = some source.toList := by decide +kernel
  have hsource : (Json.members? source.toList).map Json.Fields.keys =
      some ["typo", "only", "typo"] := by decide +kernel
  obtain ⟨members, hmembers, hkeys⟩ := Option.map_eq_some_iff.1 hsource
  have hvalue : Json.read? source.toList = some (.obj (Json.Fields.ofPairs members)) :=
    Json.read?_eq_obj_iff.2 ⟨members, hmembers, rfl⟩
  obtain ⟨members', hmembers', -, houtcome⟩ := (load_settingsFile hread htext hvalue).2 _ rfl
  obtain rfl := Option.some.inj (hmembers.symm.trans hmembers')
  refine ⟨hread, htext, members, hvalue, hmembers, hkeys, houtcome, ?_⟩
  obtain ⟨member, back, rfl, hmember, -⟩ := List.map_eq_cons_iff.1 hkeys
  obtain ⟨key, value⟩ := member
  obtain rfl : key = "typo" := hmember
  have hoffends : Offends (("typo", value) :: back) "typo" := by
    have hsome : (("typo", value) :: back).reverse.lookup "typo" ≠ none := by
      rw [Ne, Json.Fields.lookup_reverse_eq_none_iff]
      exact not_not_intro List.mem_cons_self
    obtain ⟨last, hlast⟩ := Option.ne_none_iff_exists'.1 hsome
    exact ⟨last, hlast, .inl (by decide)⟩
  exact houtcome.first [] _ _ _ rfl nofun hoffends

end RegionScope.Settings
