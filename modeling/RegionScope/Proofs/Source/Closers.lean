import RegionScope.Proofs.Lint.RuleInputs
import RegionScope.Proofs.Source.Edits
import RegionScope.Proofs.Source.TextEnds
import RegionScope.Proofs.Source.Tokens
import RegionScope.Proofs.Text.Lines

/-!
# Closing braces at the end

At the end of a text missing closing braces are not missed, and surplus ones do no harm: a newline
and any number of closing braces behind a text change neither its outline nor what rules report that
read the outline alone (`outline_append_closers`). That is so whatever the text ends in. The braces
that a literal or a comment takes are no tokens, and the others place the directives that wait where
the end of the text places them, and add no node.
-/

namespace RegionScope.Source

open RegionScope.Text RegionScope.Tree

/-! ## Passes over the same tokens with other lines -/

/-- The edit that changes nothing but the index in which lines are looked up. -/
def Edit.relined (lines lines' : LineIndex) : Edit where
  lines := lines
  lines' := lines'
  keep := fun _ => true
  move := id
  keep_of_isDirective := fun _ _ => rfl
  kind_move := kind_id

variable {lines lines' : LineIndex}

/-- Places on the same line. -/
theorem at_relined {pos : Nat} (h : lines'.line pos = lines.line pos) :
    (Edit.relined lines lines').At pos pos := by
  intro kind name
  show (⟨kind, pos, lines.line pos, name⟩ : Label) = ⟨kind, pos, lines'.line pos, name⟩
  rw [h]

namespace Outline

/-- Of the lines a pass depends on those of its tokens only. -/
theorem tree_flush_run_relined {tokens : List Token}
    (h : ∀ token ∈ tokens, lines'.line token.start = lines.line token.start) :
    ((run lines' tokens).flush lines').tree = ((run lines tokens).flush lines).tree := by
  have hmoves : List.Forall₂ (fun token token' : Token => token'.lexeme = token.lexeme ∧
      (Edit.relined lines lines').At token.start token'.start) tokens tokens := by
    apply List.forall₂_same.2
    intro token htoken
    exact ⟨rfl, at_relined (h token htoken)⟩
  obtain ⟨atEnd, hrun⟩ := (Edit.follows_start rfl).run
    (Edit.Tokens.of_forall₂ (fun _ => rfl) hmoves true)
  apply hrun.flush.tree.eq_of_forall_kept
  intro i hi
  obtain ⟨label, hlabel⟩ := exists_label?_of_lt hi
  rw [keeps, hlabel]
  rfl

/-! ## Closing braces -/

/-- A newline or a closing brace leaves the tree as the end of the text would have it. -/
theorem tree_flush_step {token : Token}
    (h : token.lexeme = .newline ∨ token.lexeme = .code '\x7d') (s : Outline) :
    ((s.step lines token).flush lines).tree = (s.flush lines).tree := by
  obtain ⟨pos, lexeme⟩ := token
  obtain rfl | rfl : lexeme = .newline ∨ lexeme = .code '\x7d' := h
  · rfl
  · -- nothing waits any more when the node is closed
    rw [step_close, closeBrace]
    split <;> rfl

theorem tree_flush_foldl {tokens : List Token}
    (h : ∀ token ∈ tokens, token.lexeme = .newline ∨ token.lexeme = .code '\x7d') (s : Outline) :
    ((tokens.foldl (step lines) s).flush lines).tree = (s.flush lines).tree := by
  induction tokens generalizing s with
  | nil => rfl
  | cons token tokens ih =>
    rw [List.foldl_cons, ih fun other hother => h other (List.mem_cons_of_mem _ hother),
      tree_flush_step (h token List.mem_cons_self)]

end Outline

/-- A closing brace is a lexeme of its own. -/
theorem nextLexeme_close (atStart : Bool) (cs : List Char) :
    nextLexeme atStart '\x7d' cs = (.code '\x7d', 0) := by
  have hsigil : isSigil '\x7d' = false := rfl
  have hstring : startsString ('\x7d' :: cs) = false := by
    simp [startsString, afterSigils, hsigil]
  rw [nextLexeme, if_neg (by decide), if_neg (by decide), if_neg (by simp), if_neg (by simp),
    if_neg (by simp), hstring]
  rfl

/-- Newlines and closing braces are tokens of their own. -/
theorem lexeme_of_mem_lexFrom {pos : Nat} {atStart : Bool} {cs : List Char}
    (hcs : ∀ c ∈ cs, c = '\n' ∨ c = '\x7d') {token : Token}
    (h : token ∈ lexFrom pos atStart cs) :
    token.lexeme = .newline ∨ token.lexeme = .code '\x7d' := by
  induction cs generalizing pos atStart with
  | nil =>
    rw [lexFrom_nil] at h
    cases h
  | cons c cs ih =>
    have hrest : ∀ d ∈ cs, d = '\n' ∨ d = '\x7d' :=
      fun d hd => hcs d (List.mem_cons_of_mem c hd)
    have hnext : (nextLexeme atStart c cs = (.newline, 0)) ∨
        nextLexeme atStart c cs = (.code '\x7d', 0) := by
      rcases hcs c List.mem_cons_self with rfl | rfl
      · exact .inl rfl
      · exact .inr (nextLexeme_close atStart cs)
    rw [lexFrom_cons] at h
    rcases hnext with hnext | hnext
    · rw [hnext] at h
      rcases List.mem_cons.1 h with rfl | h
      · exact .inl rfl
      · exact ih hrest h
    · rw [hnext] at h
      rcases List.mem_cons.1 h with rfl | h
      · exact .inr rfl
      · exact ih hrest h

/-! ## Closing braces behind a text -/

/-- Behind a text follow a newline and any number of closing braces, more or fewer than there are
open nodes: the outline is that of the text, and so are the issues of all rules that read the
outline alone, as those of this library do. -/
theorem outline_append_closers (text : List Char) (k : Nat) :
    outline (text ++ '\n' :: List.replicate k '\x7d') = outline text ∧
      (∀ rules path, (∀ rule ∈ rules, rule.ReadsOutline) →
        lintText rules path (text ++ '\n' :: List.replicate k '\x7d') =
          lintText rules path text) ∧
      ∀ path, lintText Registry.builtin.rules path (text ++ '\n' :: List.replicate k '\x7d') =
        lintText Registry.builtin.rules path text := by
  have houtline : outline (text ++ '\n' :: List.replicate k '\x7d') = outline text := by
    obtain ⟨pos, atEnd, rest, hrest, htokens⟩ :=
      lexFrom_append_newline 0 true text (List.replicate k '\x7d')
    have hclosers : ∀ token ∈ lexFrom pos atEnd rest,
        token.lexeme = .newline ∨ token.lexeme = .code '\x7d' := by
      intro token htoken
      refine lexeme_of_mem_lexFrom ?_ htoken
      intro c hc
      rcases List.mem_cons.1 (hrest.subset hc) with rfl | hc
      · exact .inl rfl
      · exact .inr (List.eq_of_mem_replicate hc)
    rw [outline, outlineWith, lex, htokens, Outline.run, List.foldl_append,
      Outline.tree_flush_foldl hclosers]
    exact Outline.tree_flush_run_relined fun token htoken => line_ofText_append htoken _
  have hlint : ∀ rules path, (∀ rule ∈ rules, rule.ReadsOutline) →
      lintText rules path (text ++ '\n' :: List.replicate k '\x7d') = lintText rules path text := by
    intro rules path hrules
    exact runRules_congr fun rule hrule =>
      hrules rule hrule _ _ houtline (congrArg (Tree.directivesBelow · 0) houtline)
  exact ⟨houtline, hlint, fun path => hlint _ path fun rule => readsOutline_of_mem_builtin⟩

end RegionScope.Source
