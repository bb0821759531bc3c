import RegionScope.Directive.Line
import RegionScope.Proofs.Tables
import RegionScope.Proofs.Text.Trimmed

/-!
# Names of directives

The name that is read off a directive line is trimmed and holds no comment, whatever the line holds
(`trimmed_read`, `not_hasComment_read`). A line that is written with a keyword of the table, a name
and perhaps a comment (`WrittenDirective`) is read back as the kind of the keyword and the name
(`WrittenDirective.read_hash`).
-/

namespace RegionScope.Directive

open RegionScope.Text

variable {c : Char} {cs front back gap rest : List Char}

/-! ## Comments -/

/-- Two slashes in a row begin a comment. -/
def HasComment (cs : List Char) : Prop := ['/', '/'] <:+: cs

instance (cs : List Char) : Decidable (HasComment cs) :=
  inferInstanceAs (Decidable (_ <:+: cs))

theorem hasComment_cons_iff :
    HasComment (c :: cs) ↔ (c = '/' ∧ cs.head? = some '/') ∨ HasComment cs := by
  rw [HasComment, List.infix_cons_iff, HasComment]
  apply or_congr_left
  cases cs with
  | nil => simp
  | cons d cs => rw [List.cons_prefix_cons, List.cons_prefix_cons]; simp [eq_comm]

theorem HasComment.of_infix (h : HasComment cs) (hcs : cs <:+: back) : HasComment back :=
  List.IsInfix.trans h hcs

theorem not_hasComment_of_not_mem (h : '/' ∉ cs) : ¬ HasComment cs :=
  fun hcomment => h (hcomment.subset List.mem_cons_self)

theorem isPrefix_beforeComment (cs : List Char) : beforeComment cs <+: cs := by
  induction cs with
  | nil => exact List.prefix_refl _
  | cons c cs ih =>
    rw [beforeComment]
    split
    · exact List.nil_prefix
    · exact List.prefix_cons_inj c |>.2 ih

theorem not_hasComment_beforeComment (cs : List Char) : ¬ HasComment (beforeComment cs) := by
  induction cs with
  | nil => decide
  | cons c cs ih =>
    rw [beforeComment]
    split
    · decide
    · next hc =>
      rw [hasComment_cons_iff]
      rintro (⟨rfl, hhead⟩ | hcomment)
      · -- the slash behind this one would be there before the comment is cut off too
        obtain ⟨back, hcs⟩ := isPrefix_beforeComment cs
        rw [← hcs, List.head?_append, hhead] at hc
        exact hc ⟨rfl, rfl⟩
      · exact ih hcomment

theorem beforeComment_of_not_hasComment (h : ¬ HasComment cs) : beforeComment cs = cs := by
  induction cs with
  | nil => rfl
  | cons c cs ih =>
    rw [hasComment_cons_iff, not_or] at h
    rw [beforeComment, if_neg h.1, ih h.2]

/-- A text without a comment is kept in front of every other, unless a slash at its end makes a
comment with what follows. -/
theorem beforeComment_append (h : ¬ HasComment front) (hlast : front.getLast? ≠ some '/')
    (back : List Char) : beforeComment (front ++ back) = front ++ beforeComment back := by
  induction front with
  | nil => rfl
  | cons c front ih =>
    rw [hasComment_cons_iff, not_or] at h
    cases front with
    | nil =>
      have hc : c ≠ '/' := by
        rintro rfl
        exact hlast rfl
      rw [List.singleton_append, beforeComment, if_neg fun hcomment => hc hcomment.1,
        List.singleton_append]
    | cons d front =>
      rw [List.getLast?_cons_cons] at hlast
      have hc : ¬ (c = '/' ∧ (d :: front ++ back).head? = some '/') := h.1
      rw [List.cons_append, beforeComment, if_neg hc, ih h.2 hlast]
      rfl

theorem cutComment_of_not_hasComment (h : ¬ HasComment cs) : cutComment cs = cs := by
  rw [cutComment, if_pos (by rw [beforeComment_of_not_hasComment h])]

theorem cutComment_of_hasComment (h : HasComment cs) :
    cutComment cs = dropTrailingBlanks (beforeComment cs) := by
  refine if_neg fun hlength => ?_
  have hnone := not_hasComment_beforeComment cs
  rw [(isPrefix_beforeComment cs).eq_of_length hlength] at hnone
  exact hnone h

theorem not_hasComment_cutComment (cs : List Char) : ¬ HasComment (cutComment cs) := by
  by_cases h : HasComment cs
  · rw [cutComment_of_hasComment h]
    intro hcut
    obtain ⟨gap, hfront, -⟩ := exists_eq_dropTrailingBlanks_append (beforeComment cs)
    have hprefix : dropTrailingBlanks (beforeComment cs) <+: beforeComment cs := ⟨gap, hfront.symm⟩
    exact not_hasComment_beforeComment cs (hcut.of_infix hprefix.isInfix)
  · rwa [cutComment_of_not_hasComment h]

theorem trimmed_cutComment (h : Trimmed cs) : Trimmed (cutComment cs) := by
  by_cases hcomment : HasComment cs
  · rw [cutComment_of_hasComment hcomment]
    obtain ⟨gap, hfront, -⟩ := exists_eq_dropTrailingBlanks_append (beforeComment cs)
    obtain ⟨back, hcs⟩ := isPrefix_beforeComment cs
    exact ⟨fun c hc => h.head c (by
      rw [← hcs, hfront, List.append_assoc, List.head?_append, hc]
      rfl), isBlank_last_dropTrailingBlanks _⟩
  · rwa [cutComment_of_not_hasComment hcomment]

/-! ## Names that are read -/

/-- Whatever a line holds, its name is a trimmed text without its comment. -/
theorem exists_read_eq (line : List Char) : ∃ cs, (read line).2 = cutComment (trim cs) := by
  rw [read, readAfterHash]
  split
  · exact ⟨_, rfl⟩
  · split
    · exact ⟨_, rfl⟩
    · exact ⟨_, rfl⟩

theorem trimmed_read (line : List Char) : Trimmed (read line).2 := by
  obtain ⟨cs, hcs⟩ := exists_read_eq line
  rw [hcs]
  exact trimmed_cutComment (trimmed_trim cs)

theorem not_hasComment_read (line : List Char) : ¬ HasComment (read line).2 := by
  obtain ⟨cs, hcs⟩ := exists_read_eq line
  rw [hcs]
  exact not_hasComment_cutComment _

/-! ## Lines that are written -/

/-- Whether a text can be written as the name of a directive: it is trimmed and fits on a line, and
no comment begins in it or with its last character. -/
structure IsName (name : List Char) : Prop where
  trimmed : Trimmed name
  nonempty : name ≠ []
  noComment : ¬ HasComment name
  last : name.getLast? ≠ some '/'
  line : ∀ c ∈ name, c ≠ '\r' ∧ c ≠ '\n'

/-- A directive line with a keyword of the table and a name, as it can be written. -/
structure WrittenDirective where
  indent : List Char
  lead : List Char
  keyword : String
  kind : DirectiveKind
  gap : List Char
  name : List Char
  trailing : List Char
  comment : Option (List Char)
  indent_blank : ∀ c ∈ indent, isBlank c = true ∧ c ≠ '\n'
  lead_blank : ∀ c ∈ lead, isBlank c = true ∧ c ≠ '\n'
  ofKeyword : DirectiveKind.ofKeyword? keyword = some kind
  gap_isGap : ∀ c ∈ gap, isGap c = true
  gap_nonempty : gap ≠ []
  isName : IsName name
  trailing_blank : ∀ c ∈ trailing, isBlank c = true ∧ c ≠ '\r' ∧ c ≠ '\n'
  comment_line : ∀ text ∈ comment, '\n' ∉ text

namespace WrittenDirective

/-- The comment with its slashes. -/
def commentText (w : WrittenDirective) : List Char :=
  (w.comment.map fun text => '/' :: '/' :: text).getD []

/-- What is written behind the hash sign. -/
def afterHash (w : WrittenDirective) : List Char :=
  w.lead ++ (w.keyword.toList ++ (w.gap ++ (w.name ++ (w.trailing ++ w.commentText))))

/-- The whole line, from its first blank on. -/
def text (w : WrittenDirective) : List Char := w.indent ++ '#' :: w.afterHash

end WrittenDirective

/-! ## Reading them back -/

/-- A keyword of the table is a word of ASCII letters. -/
theorem isAlpha_of_ofKeyword? {keyword : String} {kind : DirectiveKind}
    (h : DirectiveKind.ofKeyword? keyword = some kind) :
    keyword.toList ≠ [] ∧ ∀ c ∈ keyword.toList, c.isAlpha = true ∧ isBlank c = false := by
  have hword := of_lookup_eq_some (p := fun entry =>
    !entry.1.toList.isEmpty && entry.1.toList.all fun c => c.isAlpha && !isBlank c) (by decide) h
  simpa using hword

theorem of_isGap (h : isGap c = true) : isBlank c = true ∧ c.isAlpha = false := by
  rw [isGap, Bool.or_eq_true, beq_iff_eq, beq_iff_eq] at h
  rcases h with rfl | rfl <;> decide

theorem isGap_eq_false (h : isBlank c = false) : isGap c = false := by
  rw [← Bool.not_eq_true]
  intro hgap
  rw [(of_isGap hgap).1] at h
  cases h

/-- A keyword of the table ends at the blanks behind it, and the name begins behind them. -/
theorem readAfterHash_keyword {lead : List Char} {keyword : String} {kind : DirectiveKind}
    (hlead : ∀ c ∈ lead, isBlank c = true) (hkeyword : DirectiveKind.ofKeyword? keyword = some kind)
    (hgap : ∀ c ∈ gap, isGap c = true) (hnonempty : gap ≠ [])
    (hrest : ∀ c ∈ rest.head?, isGap c = false) :
    readAfterHash (lead ++ (keyword.toList ++ (gap ++ rest))) =
      (kind, cutComment (trim (rest.takeWhile fun c => c != '\r' && c != '\n'))) := by
  obtain ⟨hsome, hword⟩ := isAlpha_of_ofKeyword? hkeyword
  have hletters : ∀ c ∈ keyword.toList, c.isAlpha = true := fun c hc => (hword c hc).1
  have hbody : skipBlanks (lead ++ (keyword.toList ++ (gap ++ rest))) =
      keyword.toList ++ (gap ++ rest) := by
    rw [skipBlanks_append hlead]
    apply skipBlanks_of_head
    intro c hc
    obtain ⟨d, ds, hds⟩ := List.exists_cons_of_ne_nil hsome
    rw [hds] at hc
    obtain rfl : d = c := Option.some.inj hc
    exact (hword d (by rw [hds]; exact List.mem_cons_self)).2
  -- the first blank behind the keyword ends it
  have hend : ∃ g back, gap ++ rest = g :: back ∧ g.isAlpha = false := by
    obtain ⟨g, gap, rfl⟩ := List.exists_cons_of_ne_nil hnonempty
    exact ⟨g, gap ++ rest, rfl, (of_isGap (hgap g List.mem_cons_self)).2⟩
  obtain ⟨g, back, hback, hg⟩ := hend
  have htake : (keyword.toList ++ (gap ++ rest)).takeWhile Char.isAlpha = keyword.toList := by
    rw [hback, List.takeWhile_append_of_pos hletters, List.takeWhile_cons_of_neg (by simp [hg]),
      List.append_nil]
  have hdrop : (keyword.toList ++ (gap ++ rest)).dropWhile Char.isAlpha = gap ++ rest := by
    rw [hback, List.dropWhile_append_of_pos hletters, List.dropWhile_cons_of_neg (by simp [hg])]
  have hname : (gap ++ rest).dropWhile isGap = rest := by
    rw [List.dropWhile_append_of_pos hgap]
    cases rest with
    | nil => rfl
    | cons d rest => exact List.dropWhile_cons_of_neg (by simp [hrest d rfl])
  have hisEmpty : keyword.toList.isEmpty = false := by simpa using hsome
  rw [readAfterHash]
  simp only [hbody, htake, hdrop, hname, hisEmpty, String.ofList_toList, hkeyword]
  rfl

namespace IsName

variable {name : List Char}

theorem isBlank_head (h : IsName name) (back : List Char) :
    ∀ c ∈ (name ++ back).head?, isBlank c = false := by
  obtain ⟨c, cs, rfl⟩ := List.exists_cons_of_ne_nil h.nonempty
  exact h.trimmed.head

/-- Blanks behind a name are trimmed off. -/
theorem cutComment_trim (h : IsName name) (hgap : ∀ c ∈ gap, isBlank c = true) :
    cutComment (trim (name ++ gap)) = name := by
  have hfront : ∀ c ∈ ([] : List Char), isBlank c = true := nofun
  have htrim : trim (name ++ gap) = name := trim_of_trimmed h.trimmed hfront hgap
  rw [htrim, cutComment_of_not_hasComment h.noComment]

/-- A comment behind a name is cut off with the blanks in front of it. -/
theorem cutComment_trim_comment (h : IsName name) (hgap : ∀ c ∈ gap, isBlank c = true)
    (text : List Char) : cutComment (trim (name ++ (gap ++ '/' :: '/' :: text))) = name := by
  have hslash : isBlank '/' = false := by decide
  have hfree : '/' ∉ gap := fun hmem => by simp [hgap '/' hmem] at hslash
  have hgapLast : gap.getLast? ≠ some '/' := fun hlast => hfree (List.mem_of_getLast? hlast)
  have htrim : trim (name ++ (gap ++ '/' :: '/' :: text)) =
      name ++ (gap ++ '/' :: '/' :: dropTrailingBlanks text) := by
    rw [trim, skipBlanks_of_head (h.isBlank_head _), ← List.append_assoc,
      dropTrailingBlanks_append_cons hslash,
      ← List.nil_append ('/' :: text), dropTrailingBlanks_append_cons hslash, List.append_assoc,
      List.nil_append]
  have hcomment : HasComment (name ++ (gap ++ '/' :: '/' :: dropTrailingBlanks text)) :=
    ⟨name ++ gap, dropTrailingBlanks text, by simp⟩
  have hbefore : beforeComment (name ++ (gap ++ '/' :: '/' :: dropTrailingBlanks text)) =
      name ++ gap := by
    rw [beforeComment_append h.noComment h.last,
      beforeComment_append (not_hasComment_of_not_mem hfree) hgapLast, beforeComment,
      if_pos ⟨rfl, rfl⟩, List.append_nil]
  rw [htrim, cutComment_of_hasComment hcomment, hbefore, dropTrailingBlanks_append hgap,
    dropTrailingBlanks_of_last h.trimmed.last]

end IsName

namespace WrittenDirective

/-- Nothing that is written behind the hash sign ends the line. -/
theorem newline_not_mem_afterHash (w : WrittenDirective) : '\n' ∉ w.afterHash := by
  have hgap : isGap '\n' = false := by decide
  have hblank : isBlank '\n' = true := by decide
  have hcomment : '\n' ∉ w.commentText := by
    rw [commentText]
    cases hc : w.comment with
    | none => exact List.not_mem_nil
    | some text =>
      have hslash : '\n' ≠ '/' := by decide
      simpa [hslash] using w.comment_line text hc
  simp only [afterHash, List.mem_append, not_or]
  refine ⟨fun h => (w.lead_blank _ h).2 rfl, fun h => ?_, fun h => ?_,
    fun h => (w.isName.line _ h).2 rfl, fun h => (w.trailing_blank _ h).2.2 rfl, hcomment⟩
  · have := ((isAlpha_of_ofKeyword? w.ofKeyword).2 _ h).2
    rw [hblank] at this
    cases this
  · rw [w.gap_isGap _ h] at hgap
    cases hgap

/-- The line reads back as what was written, also if a carriage return comes behind it. -/
theorem read_hash (w : WrittenDirective) (hrest : ∀ c ∈ rest.head?, c = '\r') :
    read ('#' :: (w.afterHash ++ rest)) = (w.kind, w.name) := by
  have htail : ∀ c ∈ (w.name ++ (w.trailing ++ (w.commentText ++ rest))).head?,
      isGap c = false := fun c hc => isGap_eq_false (w.isName.isBlank_head _ c hc)
  have hread : read ('#' :: (w.afterHash ++ rest)) =
      readAfterHash (w.lead ++ (w.keyword.toList ++
        (w.gap ++ (w.name ++ (w.trailing ++ (w.commentText ++ rest)))))) := by
    simp [read, afterHash]
  rw [hread, readAfterHash_keyword (fun c hc => (w.lead_blank c hc).1) w.ofKeyword w.gap_isGap
    w.gap_nonempty htail]
  congr 1
  -- name and blanks are taken up to the end of the line
  have hname : ∀ c ∈ w.name, (c != '\r' && c != '\n') = true := by
    simpa using w.isName.line
  have htrailing : ∀ c ∈ w.trailing, (c != '\r' && c != '\n') = true := by
    simpa using fun c hc => (w.trailing_blank c hc).2
  have hblank : ∀ c ∈ w.trailing, isBlank c = true := fun c hc => (w.trailing_blank c hc).1
  rw [List.takeWhile_append_of_pos hname, List.takeWhile_append_of_pos htrailing, commentText]
  cases w.comment with
  | none =>
    have hend : rest.takeWhile (fun c => c != '\r' && c != '\n') = [] := by
      cases rest with
      | nil => rfl
      | cons d rest => exact List.takeWhile_cons_of_neg (by simp [hrest d rfl])
    rw [Option.map_none, Option.getD_none, List.nil_append, hend, List.append_nil]
    exact w.isName.cutComment_trim hblank
  | some text => exact w.isName.cutComment_trim_comment hblank _

end WrittenDirective

end RegionScope.Directive
