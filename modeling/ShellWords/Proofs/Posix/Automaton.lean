import ShellWords.Proofs.Lexing.Words
import ShellWords.Proofs.Posix.Grammar

/-!
# The automaton on a POSIX command line

What `Rules.wordsFrom` makes of the next character, by the class that the grammar gives to it. Every
character has one of six roles (`Rules.role`), and each state has one equation for what each role does to
it. The grammar is compared with these equations, not with the tests in the automaton.
-/

namespace ShellWords.Rules

variable {r : Rules} {state : State} {token : String} {quoted : Bool} {c : Char} {cs : List Char}

/-! ## The roles of characters -/

/-- The roles of a character in the grammar. -/
inductive Role (r : Rules) (c : Char) : Prop where
  | space (h : r.classes.isWhitespace c = true)
  | quote (h : c = '\'' ∨ c = '"')
  | escape (h : c = '\\')
  | plain (h : r.Plain c)
  | operator (h : r.Operator c)
  | alone (h : r.Alone c)

/-- Every character has a role. -/
theorem role (r : Rules) (c : Char) : r.Role c := by
  by_cases hspace : r.classes.isWhitespace c = true
  · exact .space hspace
  rw [Bool.not_eq_true] at hspace
  by_cases hquoting : c ∈ quoting
  · simp only [quoting, List.mem_cons, List.not_mem_nil, or_false] at hquoting
    rcases hquoting with h | h | h
    · exact .quote (.inl h)
    · exact .quote (.inr h)
    · exact .escape h
  by_cases hoperator : r.classes.isPunctuation c = true
  · exact .operator ⟨hoperator, hspace⟩
  rw [Bool.not_eq_true] at hoperator
  by_cases hword : r.whitespaceSplit = false → r.classes.isWord c = true
  · exact .plain ⟨hspace, hquoting, hoperator, hword⟩
  · rw [Classical.not_imp, Bool.not_eq_true] at hword
    exact .alone ⟨hword.1, hspace, hquoting, hoperator, hword.2⟩

/-- A word, or another piece of it, can start with this character. -/
def StartsWord (r : Rules) (c : Char) : Prop := (c = '\'' ∨ c = '"') ∨ c = '\\' ∨ r.Plain c

/-- A word can end before this text: it is empty, or begins with a character that no word contains. -/
def EndsWord (r : Rules) (cs : List Char) : Prop :=
  ∀ c ∈ cs.head?, r.classes.isWhitespace c = true ∨ r.Operator c ∨ r.Alone c

/-- A run of operators can end before this text: it does not begin with an operator. -/
def EndsRun (r : Rules) (cs : List Char) : Prop := ∀ c ∈ cs.head?, ¬r.Operator c

/-- An item of this kind can end before this text. -/
def Ends (r : Rules) : Kind → List Char → Prop
  | .word, cs => r.EndsWord cs
  | .run, cs => r.EndsRun cs
  | .alone, _ => True

namespace Posix

variable (hr : r.Posix)
include hr

/-- No character starts a comment. -/
theorem isComment_eq_false (c : Char) : r.classes.isComment c = false := by
  simp [CharClasses.isComment, hr.noComments]

/-- The backslash is the only escape. -/
theorem isEscape_iff : r.classes.isEscape c = true ↔ c = '\\' := by
  simp [CharClasses.isEscape, hr.escape]

/-- There are two kinds of quotes. -/
theorem isQuote_iff : r.classes.isQuote c = true ↔ c = '\'' ∨ c = '"' := by
  simp [CharClasses.isQuote, hr.quotes]

/-- Escapes have a meaning in double quotes only. -/
theorem isEscapedQuote_iff : r.classes.isEscapedQuote c = true ↔ c = '"' := by
  simp [CharClasses.isEscapedQuote, hr.escapedQuotes]

/-- A character that quotes no other is neither a quote nor the escape character. -/
theorem not_isQuote_of_not_mem (h : c ∉ Rules.quoting) :
    r.classes.isQuote c = false ∧ r.classes.isEscape c = false := by
  simp only [Rules.quoting, List.mem_cons, List.not_mem_nil, or_false, not_or] at h
  rw [← Bool.not_eq_true, ← Bool.not_eq_true, hr.isQuote_iff, hr.isEscape_iff]
  exact ⟨not_or.2 ⟨h.1, h.2.1⟩, h.2.2⟩

/-! ## Between items -/

/-- An operator is neither a word character nor does it quote others. -/
theorem not_isWord_of_operator (h : r.Operator c) :
    r.classes.isWord c = false ∧ c ∉ Rules.quoting := by
  constructor
  · rw [← Bool.not_eq_true]
    intro hword
    have hnot := (hr.word c hword).2
    rw [h.operator] at hnot
    cases hnot
  · intro hquoting
    have hnot := (hr.quoting c hquoting).2.2
    rw [h.operator] at hnot
    cases hnot

/-- An operator starts a run. -/
theorem wordsFrom_start_operator (h : r.Operator c) :
    r.wordsFrom .start "" false (c :: cs) =
      r.wordsFrom .punctuation (String.singleton c) false cs := by
  obtain ⟨hnotWord, hnotQuoting⟩ := hr.not_isWord_of_operator h
  have hnotEscape := (hr.not_isQuote_of_not_mem hnotQuoting).2
  refine wordsFrom_of_continues
    (m := { state := .punctuation, token := String.singleton c, quoted := false }) ?_ rfl rfl
  simp [move, moveFromStart, h.notWhitespace, hr.isComment_eq_false, hnotEscape, hnotWord, h.operator]

/-- A character that stands alone is a token. -/
theorem wordsFrom_start_alone (h : r.Alone c) :
    r.wordsFrom .start "" false (c :: cs) =
      (r.wordsFrom .start "" false cs).map (String.singleton c :: ·) := by
  obtain ⟨hnotQuote, hnotEscape⟩ := hr.not_isQuote_of_not_mem h.notQuoting
  refine wordsFrom_of_completes
    (m := { state := .start, token := String.singleton c, quoted := false, complete := true })
    ?_ rfl rfl rfl
  simp [move, moveFromStart, h.notWhitespace, hr.isComment_eq_false, hnotEscape, h.notWord,
    h.notOperator, hnotQuote, h.noSplit]

/-! ## In a word -/

/-- A plain character extends a word, or starts one. -/
theorem wordsFrom_word_plain (h : r.Plain c) :
    r.wordsFrom .word token quoted (c :: cs) = r.wordsFrom .word (token.push c) quoted cs := by
  obtain ⟨hnotQuote, hnotEscape⟩ := hr.not_isQuote_of_not_mem h.notQuoting
  have hextends : r.classes.isWord c = false → r.whitespaceSplit = true := by
    intro hnotWord
    rw [← Bool.not_eq_false]
    intro hsplit
    have hword := h.word hsplit
    rw [hnotWord] at hword
    cases hword
  refine wordsFrom_of_continues (m := { state := .word, token := token.push c, quoted }) ?_ rfl rfl
  simpa [move, moveFromWord, moveAtBoundary, h.notWhitespace, hr.isComment_eq_false, hnotEscape,
    hnotQuote, h.notOperator] using hextends

/-- A backslash escapes the next character. -/
theorem wordsFrom_word_escape :
    r.wordsFrom .word token quoted ('\\' :: cs) = r.wordsFrom (.escape .word) token quoted cs := by
  have hspace := (hr.quoting '\\' (by simp [Rules.quoting])).1
  have hquote : r.classes.isQuote '\\' = false := by simp [CharClasses.isQuote, hr.quotes]
  refine wordsFrom_of_continues (m := { state := .escape .word, token, quoted }) ?_ rfl rfl
  simp [move, moveFromWord, moveAtBoundary, hspace, hr.isComment_eq_false, hquote, hr.posix,
    hr.isEscape_iff]

/-- A quote opens a quotation. -/
theorem wordsFrom_word_quote (h : c = '\'' ∨ c = '"') :
    r.wordsFrom .word token quoted (c :: cs) = r.wordsFrom (.quote c) token quoted cs := by
  have hspace := (hr.quoting c (by rcases h with rfl | rfl <;> simp [Rules.quoting])).1
  have hquote := hr.isQuote_iff.2 h
  refine wordsFrom_of_continues (m := { state := .quote c, token, quoted }) ?_ rfl rfl
  simp [move, moveFromWord, moveAtBoundary, hspace, hr.isComment_eq_false, hquote, hr.posix]

/-- Between items, a character that starts a word is read as in a word that is still empty. -/
theorem wordsFrom_start_eq_word (h : r.StartsWord c) :
    r.wordsFrom .start "" false (c :: cs) = r.wordsFrom .word "" false (c :: cs) := by
  rcases h with hquote | rfl | hplain
  · rw [hr.wordsFrom_word_quote hquote]
    obtain ⟨hspace, hnotWord, hnotOperator⟩ :=
      hr.quoting c (by rcases hquote with rfl | rfl <;> simp [Rules.quoting])
    have hnotEscape : r.classes.isEscape c = false := by
      rw [← Bool.not_eq_true, hr.isEscape_iff]
      rcases hquote with rfl | rfl <;> decide
    refine wordsFrom_of_continues (m := { state := .quote c, token := "", quoted := false }) ?_ rfl rfl
    simp [move, moveFromStart, hspace, hr.isComment_eq_false, hnotEscape, hnotWord, hnotOperator,
      hr.isQuote_iff.2 hquote, hr.posix]
  · rw [hr.wordsFrom_word_escape]
    have hspace := (hr.quoting '\\' (by simp [Rules.quoting])).1
    refine wordsFrom_of_continues (m := { state := .escape .word, token := "", quoted := false })
      ?_ rfl rfl
    simp [move, moveFromStart, hspace, hr.isComment_eq_false, hr.isEscape_iff.2, hr.posix]
  · rw [hr.wordsFrom_word_plain hplain]
    obtain ⟨hnotQuote, hnotEscape⟩ := hr.not_isQuote_of_not_mem hplain.notQuoting
    refine wordsFrom_of_continues
      (m := { state := .word, token := String.singleton c, quoted := false }) ?_ rfl rfl
    by_cases hword : r.classes.isWord c = true
    · simp [move, moveFromStart, hplain.notWhitespace, hr.isComment_eq_false, hnotEscape, hword]
    · have hsplit : r.whitespaceSplit = true := by
        rw [← Bool.not_eq_false]
        intro hsplit
        exact hword (hplain.word hsplit)
      simp [move, moveFromStart, hplain.notWhitespace, hr.isComment_eq_false, hnotEscape, hword,
        hplain.notOperator, hnotQuote, hsplit]

/-- A word ends at the end of the text and before white space, an operator, or a character that stands
alone. -/
theorem wordsFrom_word_ends (htoken : r.isToken token quoted = true) (h : r.EndsWord cs) :
    r.wordsFrom .word token quoted cs = (r.wordsFrom .start "" false cs).map (token :: ·) := by
  cases cs with
  | nil => exact wordsFrom_nil_of_isToken rfl htoken
  | cons c cs =>
    rcases h c rfl with hspace | hoperator | halone
    · rw [wordsFrom_start_space hspace]
      exact wordsFrom_word_space hspace htoken
    · obtain ⟨hnotWord, hnotQuoting⟩ := hr.not_isWord_of_operator hoperator
      obtain ⟨hnotQuote, hnotEscape⟩ := hr.not_isQuote_of_not_mem hnotQuoting
      have hactive := r.punctuationActive_of_isPunctuation hoperator.operator
      refine wordsFrom_of_char
        (m := { state := .start, token, quoted, held := .char, complete := true }) ?_ rfl rfl
      simp [move, moveFromWord, moveAtBoundary, hoperator.notWhitespace, hr.isComment_eq_false,
        hnotQuote, hnotEscape, hnotWord, hoperator.operator, hactive, htoken]
    · obtain ⟨hnotQuote, hnotEscape⟩ := hr.not_isQuote_of_not_mem halone.notQuoting
      -- Without operators the character is put back as a token, with them it is read again.
      by_cases hactive : r.classes.punctuationActive = true
      · refine wordsFrom_of_char
          (m := { state := .start, token, quoted, held := .char, complete := true }) ?_ rfl rfl
        simp [move, moveFromWord, moveAtBoundary, halone.notWhitespace, hr.isComment_eq_false,
          hnotQuote, hnotEscape, halone.notWord, halone.noSplit, hactive, htoken]
      · rw [hr.wordsFrom_start_alone halone]
        refine wordsFrom_of_token
          (m := { state := .start, token, quoted, held := .token, complete := true }) ?_ rfl rfl
        simp [move, moveFromWord, moveAtBoundary, halone.notWhitespace, hr.isComment_eq_false,
          hnotQuote, hnotEscape, halone.notWord, halone.noSplit, hactive, htoken]

/-! ## In a run of operators -/

/-- An operator extends a run. -/
theorem wordsFrom_run_operator (h : r.Operator c) :
    r.wordsFrom .punctuation token quoted (c :: cs) =
      r.wordsFrom .punctuation (token.push c) quoted cs := by
  refine wordsFrom_of_continues (m := { state := .punctuation, token := token.push c, quoted })
    ?_ rfl rfl
  simp [move, moveFromPunctuation, moveAtBoundary, h.notWhitespace, hr.isComment_eq_false, h.operator]

/-- A run ends at the end of the text and before everything but an operator. -/
theorem wordsFrom_run_ends (htoken : r.isToken token quoted = true) (h : r.EndsRun cs) :
    r.wordsFrom .punctuation token quoted cs =
      (r.wordsFrom .start "" false cs).map (token :: ·) := by
  cases cs with
  | nil => exact wordsFrom_nil_of_isToken rfl htoken
  | cons c cs =>
    by_cases hspace : r.classes.isWhitespace c = true
    · rw [wordsFrom_start_space hspace]
      refine wordsFrom_of_completes (m := { state := .start, token, quoted, complete := true })
        ?_ rfl rfl rfl
      simp [move, moveFromPunctuation, moveAtBoundary, hspace, htoken]
    · rw [Bool.not_eq_true] at hspace
      have hnot : r.classes.isPunctuation c = false := by
        rw [← Bool.not_eq_true]
        intro hoperator
        exact h c rfl ⟨hoperator, hspace⟩
      refine wordsFrom_of_char
        (m := { state := .start, token, quoted, held := .char, complete := true }) ?_ rfl rfl
      simp [move, moveFromPunctuation, moveAtBoundary, hspace, hr.isComment_eq_false, hnot]

/-! ## In a quotation -/

/-- The quote closes the quotation, and the word goes on. -/
theorem wordsFrom_quote_close (q : Char) :
    r.wordsFrom (.quote q) token quoted (q :: cs) = r.wordsFrom .word token true cs := by
  refine wordsFrom_of_continues (m := { state := .word, token, quoted := true }) ?_ rfl rfl
  simp [move, moveFromQuote, hr.posix]

/-- Any other character belongs to the word, unless it escapes the next. -/
theorem wordsFrom_quote_char {q : Char} (hquote : c ≠ q) (hescape : q = '"' → c ≠ '\\') :
    r.wordsFrom (.quote q) token quoted (c :: cs) =
      r.wordsFrom (.quote q) (token.push c) true cs := by
  have hactive : (r.classes.isEscape c && r.classes.isEscapedQuote q) = false := by
    rw [← Bool.not_eq_true, Bool.and_eq_true, hr.isEscape_iff, hr.isEscapedQuote_iff]
    intro h
    exact hescape h.2 h.1
  refine wordsFrom_of_continues (m := { state := .quote q, token := token.push c, quoted := true })
    ?_ rfl rfl
  simp only [move, moveFromQuote, if_neg hquote, Bool.and_assoc, hactive, Bool.and_false]
  rfl

/-- In a double quotation a backslash may escape the next character. -/
theorem wordsFrom_double_escape :
    r.wordsFrom (.quote '"') token quoted ('\\' :: cs) =
      r.wordsFrom (.escape (.quote '"')) token true cs := by
  refine wordsFrom_of_continues
    (m := { state := .escape (.quote '"'), token, quoted := true }) ?_ rfl rfl
  simp [move, moveFromQuote, hr.posix, hr.isEscape_iff, hr.isEscapedQuote_iff]

/-- It is dropped before a double quote and before a backslash. -/
theorem wordsFrom_double_escaped (h : c = '"' ∨ c = '\\') :
    r.wordsFrom (.escape (.quote '"')) token quoted (c :: cs) =
      r.wordsFrom (.quote '"') (token.push c) quoted cs := by
  refine wordsFrom_of_continues (m := { state := .quote '"', token := token.push c, quoted })
    ?_ rfl rfl
  have hescape : r.classes.isEscape '\\' = true := hr.isEscape_iff.2 rfl
  rcases h with rfl | rfl
  · simp [move, moveFromEscape]
  · simp [move, moveFromEscape, hescape]

/-- It stays before any other character. -/
theorem wordsFrom_double_kept (hquote : c ≠ '"') (hescape : c ≠ '\\') :
    r.wordsFrom (.escape (.quote '"')) token quoted (c :: cs) =
      r.wordsFrom (.quote '"') ((token.push '\\').push c) quoted cs := by
  have hnot : r.classes.isEscape c = false := by
    rw [← Bool.not_eq_true, hr.isEscape_iff]
    exact hescape
  refine wordsFrom_of_continues
    (m := { state := .quote '"', token := (token.push '\\').push c, quoted }) ?_ rfl rfl
  simp [move, moveFromEscape, hquote, hnot, hr.escape]

end Posix
end ShellWords.Rules
