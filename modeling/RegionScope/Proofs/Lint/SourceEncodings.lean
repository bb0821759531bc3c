import RegionScope.Proofs.Lint.RuleInputs

/-!
# Encodings of a source file

A source file holds its text in UTF-8, with or without a byte order mark in front, and with its
newlines written in one of three ways. Reading undoes all of this: every text without carriage
returns that does not itself begin with a mark is read back from each of its six encodings
(`decodeSource?_encodeSource`), so that the issues of the file are those of the text
(`lintFile_encodeSource`).
-/

namespace RegionScope

namespace Text

/-! ## Line endings -/

/-- The ways to write a newline in a file. -/
inductive LineEnding where
  | newline
  | returnNewline
  | carriageReturn

namespace LineEnding

/-- The characters of a line ending. -/
def chars : LineEnding → List Char
  | newline => ['\n']
  | returnNewline => ['\r', '\n']
  | carriageReturn => ['\r']

/-- The text with every newline written as the line ending. -/
def write (ending : LineEnding) (text : List Char) : List Char :=
  text.flatMap fun c => if c = '\n' then ending.chars else [c]

variable (ending : LineEnding) {text : List Char}

@[simp] theorem write_nil : ending.write [] = [] := rfl

theorem write_newline_cons : ending.write ('\n' :: text) = ending.chars ++ ending.write text := rfl

theorem write_cons {c : Char} (hc : c ≠ '\n') :
    ending.write (c :: text) = c :: ending.write text := by
  simp [write, hc]

/-- A text written with carriage returns has no newline, so none stands behind a carriage return. -/
theorem not_mem_write_carriageReturn : '\n' ∉ carriageReturn.write text := by
  simp only [write, chars, List.mem_flatMap, not_exists, not_and]
  intro c _ hc
  split at hc
  · simp at hc
  · next hne => exact hne (List.mem_singleton.1 hc).symm

/-- A written text begins with a mark only if the text does. -/
theorem head?_write_ne {c : Char} (hnewline : c ≠ '\n') (hreturn : c ≠ '\r')
    (h : text.head? ≠ some c) : (ending.write text).head? ≠ some c := by
  cases text with
  | nil => simp
  | cons d text =>
    by_cases hd : d = '\n'
    · subst hd
      cases ending <;> simp [write_newline_cons, chars, hnewline.symm, hreturn.symm]
    · rw [write_cons ending hd]
      exact h

end LineEnding

/-! ## Reading line endings -/

variable {cs : List Char}

theorem unifyNewlines_cons {c : Char} (hc : c ≠ '\r') :
    unifyNewlines (c :: cs) = c :: unifyNewlines cs := by
  rw [unifyNewlines, if_neg hc]
  exact fun _ h _ => hc h

theorem unifyNewlines_return_newline :
    unifyNewlines ('\r' :: '\n' :: cs) = '\n' :: unifyNewlines cs := rfl

theorem unifyNewlines_return (h : '\n' ∉ cs) :
    unifyNewlines ('\r' :: cs) = '\n' :: unifyNewlines cs := by
  cases cs with
  | nil => rfl
  | cons c cs =>
    rw [unifyNewlines, if_pos rfl]
    rintro _ - hc
    exact h (by simp [(List.cons.inj hc).1])

/-- Reading undoes the choice of a line ending. -/
theorem unifyNewlines_write (ending : LineEnding) {text : List Char} (h : '\r' ∉ text) :
    unifyNewlines (ending.write text) = text := by
  induction text with
  | nil => rfl
  | cons c text ih =>
    rw [List.mem_cons, not_or] at h
    by_cases hc : c = '\n'
    · subst hc
      rw [LineEnding.write_newline_cons]
      cases ending with
      | newline =>
        exact (unifyNewlines_cons (by decide)).trans (congrArg _ (ih h.2))
      | returnNewline =>
        exact unifyNewlines_return_newline.trans (congrArg _ (ih h.2))
      | carriageReturn =>
        exact (unifyNewlines_return LineEnding.not_mem_write_carriageReturn).trans
          (congrArg _ (ih h.2))
    · rw [LineEnding.write_cons ending hc, unifyNewlines_cons (Ne.symm h.1), ih h.2]

/-! ## Reading bytes -/

/-- The bytes of a byte order mark. -/
def markBytes : ByteArray := ⟨#[0xEF, 0xBB, 0xBF]⟩

theorem markBytes_eq : markBytes = (String.singleton byteOrderMark).toUTF8 := by decide

theorem dropByteOrderMark_of_head? (h : cs.head? ≠ some byteOrderMark) :
    dropByteOrderMark cs = cs := by
  cases cs with
  | nil => rfl
  | cons c cs =>
    have hc : c ≠ byteOrderMark := fun hc => h (congrArg some hc)
    rw [dropByteOrderMark, if_neg hc]

theorem fromUTF8?_toUTF8 (s : String) : String.fromUTF8? s.toUTF8 = some s := by
  rw [String.fromUTF8?, String.toUTF8_eq_toByteArray, dif_pos s.isValidUTF8]
  rfl

/-- Bytes in UTF-8 break off inside a mark only if there are none: the first byte of a mark alone,
or the first two, are no UTF-8. -/
theorem eq_empty_of_isBrokenMark {bytes : ByteArray} (hbroken : isBrokenMark bytes = true)
    (hvalid : bytes.IsValidUTF8) : bytes = .empty := by
  rw [isBrokenMark, Bool.and_eq_true, decide_eq_true_eq, List.isPrefixOf_iff_prefix,
    List.prefix_iff_eq_take, Array.length_toList] at hbroken
  obtain ⟨hsize, hprefix⟩ := hbroken
  have htake : ∀ n < 3,
      (ByteArray.mk (List.take n [0xEF, 0xBB, 0xBF]).toArray).IsValidUTF8 → n = 0 := by decide
  have hdata : bytes = ⟨(List.take bytes.size [0xEF, 0xBB, 0xBF]).toArray⟩ :=
    ByteArray.ext (Array.toList_inj.1 hprefix)
  rw [hdata] at hvalid
  exact ByteArray.size_eq_zero_iff.1 (htake bytes.size hsize hvalid)

/-- The bytes of a string are read as that string, without a mark and with unified newlines. -/
theorem decodeSource?_toUTF8 (s : String) :
    decodeSource? s.toUTF8 = some (unifyNewlines (dropByteOrderMark s.toList)) := by
  rw [decodeSource?, fromUTF8?_toUTF8]
  split
  · next hbroken =>
    have hempty : s = "" :=
      String.toByteArray_eq_empty_iff.1 (eq_empty_of_isBrokenMark hbroken s.isValidUTF8)
    rw [hempty]
    rfl
  · rfl

/-! ## Encodings -/

/-- The bytes of a text in a file. -/
def encodeSource (marked : Bool) (ending : LineEnding) (text : List Char) : ByteArray :=
  (if marked then markBytes else .empty) ++ (String.ofList (ending.write text)).toUTF8

example : encodeSource true .returnNewline ['é', '\n'] =
    ⟨#[0xEF, 0xBB, 0xBF, 0xC3, 0xA9, 0x0D, 0x0A]⟩ := by decide

/-- A text is read back from every encoding. -/
theorem decodeSource?_encodeSource (marked : Bool) (ending : LineEnding) {text : List Char}
    (hreturn : '\r' ∉ text) (hmark : text.head? ≠ some byteOrderMark) :
    decodeSource? (encodeSource marked ending text) = some text := by
  cases marked with
  | true =>
    have hbytes : encodeSource true ending text =
        (String.singleton byteOrderMark ++ String.ofList (ending.write text)).toUTF8 :=
      (congrArg (· ++ _) markBytes_eq).trans String.toByteArray_append.symm
    rw [hbytes, decodeSource?_toUTF8, String.toList_append, String.toList_singleton,
      String.toList_ofList, List.singleton_append, dropByteOrderMark, if_pos rfl,
      unifyNewlines_write ending hreturn]
  | false =>
    have hbytes : encodeSource false ending text = (String.ofList (ending.write text)).toUTF8 :=
      ByteArray.empty_append
    have hhead := ending.head?_write_ne (by decide) (by decide) hmark
    rw [hbytes, decodeSource?_toUTF8, String.toList_ofList, dropByteOrderMark_of_head? hhead,
      unifyNewlines_write ending hreturn]

end Text

open RegionScope.Text

/-- Rules that do not read the path have the same issues for a text wherever it stands. -/
theorem lintText_path {rules : List Rule} (h : ∀ rule ∈ rules, rule.IgnoresPath)
    (path path' : Option String) (text : List Char) :
    lintText rules path text = lintText rules path' text :=
  runRules_congr fun rule hrule => h rule hrule (.ofText path' text) path

/-- The issues of a file are those of its text, however the file encodes it, for rules that do not
read the path; what a text is at fault for is a fault of the file too. -/
theorem lintFile_encodeSource (calls : Nat) (rules : List Rule)
    (hrules : ∀ rule ∈ rules, rule.IgnoresPath) (files : FileTree) (path : String)
    (path' : Option String) (marked : Bool) (ending : LineEnding) {text : List Char}
    (hreturn : '\r' ∉ text) (hmark : text.head? ≠ some byteOrderMark)
    (hread : files.read path = .ok (encodeSource marked ending text)) :
    lintFile calls rules files path = lintTextWithin calls rules path' text ∧
      (Source.callDepth text ≤ calls →
        lintFile calls rules files path = .ok (lintText rules path' text)) := by
  have htext := decodeSource?_encodeSource marked ending hreturn hmark
  have hlint : lintFile calls rules files path = lintTextWithin calls rules path' text := by
    calc
      lintFile calls rules files path =
          lintBytes calls rules path (encodeSource marked ending text) := by
        rw [lintFile, hread]
        rfl
      _ = lintTextWithin calls rules path text := by rw [lintBytes, htext]
      _ = lintTextWithin calls rules path' text := by
        rw [lintTextWithin, lintText_path hrules path path', lintTextWithin]
  refine ⟨hlint, fun hdepth => ?_⟩
  rw [hlint, lintTextWithin, if_pos hdepth]

theorem lintFile_marked_returns :
    let text := "#region A\n\n#endregion B\n".toList
    let files : FileTree := ⟨[("a.cs", .file (encodeSource true .returnNewline text))], []⟩
    (∀ rule ∈ Registry.builtin.rules, rule.IgnoresPath) ∧
      files.read "a.cs" = .ok (encodeSource true .returnNewline text) ∧
      lintFile 0 Registry.builtin.rules files "a.cs" =
        .ok (lintText Registry.builtin.rules none text) := by
  intro text files
  have hrules : ∀ rule ∈ Registry.builtin.rules, rule.IgnoresPath :=
    fun rule hrule => (readsOutline_of_mem_builtin hrule).ignoresPath
  have hread : files.read "a.cs" = .ok (encodeSource true .returnNewline text) := rfl
  have hdepth : Source.callDepth text ≤ 0 := by decide +kernel
  exact ⟨hrules, hread, (lintFile_encodeSource 0 _ hrules files "a.cs" none true .returnNewline
    (by decide) (by decide) hread).2 hdepth⟩

end RegionScope
