import ShellWords.Proofs.Lexing.Words
import ShellWords.Proofs.Posix.Grammar
import ShellWords.Quoting

/-!
# A joined command line is split into its words

A word is written in one of three forms: two quotes, the word itself, or the word between quotes with each
quote inside written through double quotes. In all of them the automaton is in a word when it has passed over
the form, and the token is what the word is read back as (`wordsFrom_quoteChars`). The blank between two forms
completes it, so `splitWith_join` follows by induction on the words.

`Rules.Unquotes` collects what this needs of the character classes. It holds of all options for POSIX and
words up to white space, whatever else is chosen, whose operators are neither the single quote nor safe
characters (`unquotes_ofConfig`).
-/

namespace ShellWords

/-- What a word is read back as when it was written by `quote`: a blank word as the empty one, and any other as
itself. -/
def unquoted (word : String) : String := if Text.isBlank word then "" else word

namespace Rules

/-- Under these rules a quoted word is read back. -/
structure Unquotes (r : Rules) : Prop where
  posix : r.posix = true
  split : r.whitespaceSplit = true
  quotes : r.classes.quotes = ['\'', '"']
  escape : r.classes.escape = '\\'
  escapedQuotes : r.classes.escapedQuotes = ['"']
  /-- A blank stands between words. -/
  blank : r.classes.isWhitespace ' ' = true
  /-- Quotes do not stand between words. -/
  notBlank : ∀ c ∈ r.classes.quotes, r.classes.isWhitespace c = false ∧ r.classes.isComment c = false
  /-- A single quote starts a quotation and nothing else. -/
  single : r.classes.isWord '\'' = false ∧ r.classes.isPunctuation '\'' = false
  /-- A safe character has no meaning. -/
  safe : ∀ c, isSafe c = true → r.classes.isWhitespace c = false ∧ r.classes.isComment c = false ∧
    r.classes.isEscape c = false ∧ r.classes.isQuote c = false ∧ r.classes.isPunctuation c = false

/-- Options for POSIX and words up to white space give such rules, unless the single quote or a safe character is
an operator. -/
theorem unquotes_ofConfig {config : Config} (hposix : config.posix = true)
    (hsplit : config.whitespaceSplit = true)
    (hoperators : ∀ c ∈ config.punctuation.chars, c ≠ '\'' ∧ isSafe c = false) :
    (ofConfig config).Unquotes where
  posix := hposix
  split := hsplit
  quotes := rfl
  escape := rfl
  escapedQuotes := rfl
  blank := rfl
  notBlank := by
    intro c hc
    rw [show (ofConfig config).classes.quotes = ['\'', '"'] from rfl] at hc
    simp only [List.mem_cons, List.not_mem_nil, or_false] at hc
    rcases hc with rfl | rfl
    · exact ⟨rfl, isComment_of_ne config (by decide)⟩
    · exact ⟨rfl, isComment_of_ne config (by decide)⟩
  single := by
    constructor
    · exact isWord_of_mem_marks config (by decide)
    · exact isPunctuation_of_notMem fun h => (hoperators _ h).1 rfl
  safe := by
    intro c hc
    have hoperator : c ∉ config.punctuation.chars := by
      intro h
      exact Bool.false_ne_true ((hoperators c h).2.symm.trans hc)
    have hmarks : c ∉ marks := by
      intro h
      have hnone : marks.all (fun d => !isSafe d) = true := by decide +kernel
      have hunsafe := List.all_eq_true.1 hnone c h
      simp [hc] at hunsafe
    have hplain := unmarked_of_notMem config hmarks
    exact ⟨hplain.space, hplain.comment, hplain.escape, hplain.quote, isPunctuation_of_notMem hoperator⟩

namespace Unquotes

variable {r : Rules} (hr : r.Unquotes) {token : String} {quoted : Bool} {c : Char} {cs : List Char}
include hr

/-! ## Safe characters -/

/-- A safe character extends a word. -/
theorem wordsFrom_word_safe (h : isSafe c = true) :
    r.wordsFrom .word token quoted (c :: cs) = r.wordsFrom .word (token.push c) quoted cs := by
  obtain ⟨hspace, hcomment, hescape, hquote, hoperator⟩ := hr.safe c h
  refine wordsFrom_of_continues (m := { state := .word, token := token.push c, quoted }) ?_ rfl rfl
  simp [move, moveFromWord, moveAtBoundary, hspace, hcomment, hescape, hquote, hoperator, hr.split]

/-- Between words, it starts one. -/
theorem wordsFrom_start_safe (h : isSafe c = true) :
    r.wordsFrom .start "" false (c :: cs) = r.wordsFrom .word ("".push c) false cs := by
  obtain ⟨hspace, hcomment, hescape, hquote, hoperator⟩ := hr.safe c h
  refine wordsFrom_of_continues (m := { state := .word, token := String.singleton c, quoted := false })
    ?_ rfl rfl
  simp [move, moveFromStart, hspace, hcomment, hescape, hquote, hoperator, hr.split]

/-- Safe characters extend a word. -/
theorem wordsFrom_word_safes {word : List Char} (h : ∀ c ∈ word, isSafe c = true) (token : String) :
    r.wordsFrom .word token quoted (word ++ cs) =
      r.wordsFrom .word (token ++ String.ofList word) quoted cs := by
  induction word generalizing token with
  | nil => simp
  | cons c word ih =>
    rw [List.forall_mem_cons] at h
    rw [List.cons_append, hr.wordsFrom_word_safe h.1, ih h.2, push_append_ofList]

/-! ## Quotations -/

/-- In a word, a quote opens a quotation. -/
theorem wordsFrom_word_quotes (h : c ∈ r.classes.quotes) :
    r.wordsFrom .word token quoted (c :: cs) = r.wordsFrom (.quote c) token quoted cs := by
  obtain ⟨hspace, hcomment⟩ := hr.notBlank c h
  have hquote : r.classes.isQuote c = true := by simpa [CharClasses.isQuote] using h
  refine wordsFrom_of_continues (m := { state := .quote c, token, quoted }) ?_ rfl rfl
  simp [move, moveFromWord, moveAtBoundary, hspace, hcomment, hquote, hr.posix]

/-- Between words, a single quote does so too. -/
theorem wordsFrom_start_single_quote :
    r.wordsFrom .start "" false ('\'' :: cs) = r.wordsFrom (.quote '\'') "" false cs := by
  have hmem : '\'' ∈ r.classes.quotes := by simp [hr.quotes]
  obtain ⟨hspace, hcomment⟩ := hr.notBlank '\'' hmem
  have hquote : r.classes.isQuote '\'' = true := by simpa [CharClasses.isQuote] using hmem
  have hescape : r.classes.isEscape '\'' = false := by simp [CharClasses.isEscape, hr.escape]
  refine wordsFrom_of_continues (m := { state := .quote '\'', token := "", quoted := false }) ?_ rfl rfl
  simp [move, moveFromStart, hspace, hcomment, hescape, hquote, hr.single, hr.posix]

/-- The quote closes its quotation. -/
theorem wordsFrom_closing_quote (q : Char) :
    r.wordsFrom (.quote q) token quoted (q :: cs) = r.wordsFrom .word token true cs := by
  refine wordsFrom_of_continues (m := { state := .word, token, quoted := true }) ?_ rfl rfl
  simp [move, moveFromQuote, hr.posix]

/-- Between single quotes every other character stands for itself. -/
theorem wordsFrom_single_char (h : c ≠ '\'') :
    r.wordsFrom (.quote '\'') token quoted (c :: cs) =
      r.wordsFrom (.quote '\'') (token.push c) true cs := by
  have hinactive : r.classes.isEscapedQuote '\'' = false := by
    simp [CharClasses.isEscapedQuote, hr.escapedQuotes]
  refine wordsFrom_of_continues (m := { state := .quote '\'', token := token.push c, quoted := true })
    ?_ rfl rfl
  simp [move, moveFromQuote, h, hinactive]

/-- Between double quotes a single quote stands for itself. -/
theorem wordsFrom_double_single :
    r.wordsFrom (.quote '"') token quoted ('\'' :: cs) =
      r.wordsFrom (.quote '"') (token.push '\'') true cs := by
  have hescape : r.classes.isEscape '\'' = false := by simp [CharClasses.isEscape, hr.escape]
  refine wordsFrom_of_continues
    (m := { state := .quote '"', token := token.push '\'', quoted := true }) ?_ rfl rfl
  simp [move, moveFromQuote, hescape]

/-- Inside a quotation, what `quotedChar` writes adds its character to the word. -/
theorem wordsFrom_quotedChar (c : Char) (cs : List Char) :
    r.wordsFrom (.quote '\'') token quoted (quotedChar c ++ cs) =
      r.wordsFrom (.quote '\'') (token.push c) true cs := by
  unfold quotedChar
  split_ifs with hc
  · -- The quotation is closed, a double one holds the quote, and the quotation is opened again.
    subst hc
    have hsingle : '\'' ∈ r.classes.quotes := by simp [hr.quotes]
    have hdouble : '"' ∈ r.classes.quotes := by simp [hr.quotes]
    show r.wordsFrom (.quote '\'') token quoted ('\'' :: '"' :: '\'' :: '"' :: '\'' :: cs) = _
    rw [hr.wordsFrom_closing_quote, hr.wordsFrom_word_quotes hdouble, hr.wordsFrom_double_single,
      hr.wordsFrom_closing_quote, hr.wordsFrom_word_quotes hsingle]
  · exact hr.wordsFrom_single_char hc

/-- A quotation that was written character by character adds its characters to the word. -/
theorem wordsFrom_quotedChars (word : List Char) (token : String) (quoted : Bool) (cs : List Char) :
    r.wordsFrom (.quote '\'') token quoted (word.flatMap quotedChar ++ '\'' :: cs) =
      r.wordsFrom .word (token ++ String.ofList word) true cs := by
  induction word generalizing token quoted with
  | nil => simpa using hr.wordsFrom_closing_quote '\''
  | cons c word ih =>
    rw [List.flatMap_cons, List.append_assoc, hr.wordsFrom_quotedChar, ih, push_append_ofList]

/-! ## Words -/

/-- Behind a quoted word the automaton is in a word, and the token is what the word is read back as. -/
theorem wordsFrom_quoteChars (word : List Char) (cs : List Char) :
    ∃ quoted, r.isToken (unquoted (String.ofList word)) quoted = true ∧
      r.wordsFrom .start "" false (quoteChars word ++ cs) =
        r.wordsFrom .word (unquoted (String.ofList word)) quoted cs := by
  unfold quoteChars unquoted Text.isBlank
  rw [String.toList_ofList]
  split_ifs with hblank hsafe
  · refine ⟨true, by simp [isToken, hr.posix], ?_⟩
    rw [List.cons_append, hr.wordsFrom_start_single_quote]
    exact hr.wordsFrom_closing_quote '\''
  · -- A word that is not blank has a first character.
    obtain ⟨c, word, rfl⟩ := List.exists_cons_of_ne_nil (l := word) (by rintro rfl; exact hblank rfl)
    rw [List.all_eq_true, List.forall_mem_cons] at hsafe
    refine ⟨false, by simp [isToken], ?_⟩
    rw [List.cons_append, hr.wordsFrom_start_safe hsafe.1, hr.wordsFrom_word_safes hsafe.2,
      push_append_ofList, String.empty_append]
  · refine ⟨true, by simp [isToken, hr.posix], ?_⟩
    rw [List.cons_append, hr.wordsFrom_start_single_quote, List.append_assoc, List.singleton_append,
      hr.wordsFrom_quotedChars, String.empty_append]

/-- Behind a joined command line the automaton is in the last word, and the others have been read. -/
theorem wordsFrom_join_append (words : List String) (word : String) (cs : List Char) :
    ∃ quoted, r.isToken (unquoted word) quoted = true ∧
      r.wordsFrom .start "" false ((join (words ++ [word])).toList ++ cs) =
        (r.wordsFrom .word (unquoted word) quoted cs).map (words.map unquoted ++ ·) := by
  have hquote (word : String) : (quote word).toList = quoteChars word.toList := by simp [quote]
  induction words with
  | nil =>
    obtain ⟨quoted, htoken, hword⟩ := hr.wordsFrom_quoteChars word.toList cs
    rw [String.ofList_toList] at htoken hword
    refine ⟨quoted, htoken, ?_⟩
    simp [join, hquote, hword]
  | cons first words ih =>
    obtain ⟨quoted, htoken, hrest⟩ := ih
    obtain ⟨quotedFirst, hfirst, hword⟩ :=
      hr.wordsFrom_quoteChars first.toList (' ' :: ((join (words ++ [word])).toList ++ cs))
    rw [String.ofList_toList] at hfirst hword
    have hjoin : (join (first :: words ++ [word])).toList ++ cs =
        quoteChars first.toList ++ ' ' :: ((join (words ++ [word])).toList ++ cs) := by
      cases words <;> simp [join, hquote]
    refine ⟨quoted, htoken, ?_⟩
    rw [hjoin, hword, wordsFrom_word_space hr.blank hfirst, hrest, Option.map_map]
    rfl

/-- The words of a joined command line are those that were joined, as they are read back. -/
theorem wordsFrom_join (words : List String) :
    r.wordsFrom .start "" false (join words).toList = some (words.map unquoted) := by
  obtain rfl | ⟨words, word, rfl⟩ := words.eq_nil_or_concat
  · simpa [join] using wordsFrom_start_nil
  · obtain ⟨quoted, htoken, hjoin⟩ := hr.wordsFrom_join_append words word []
    rw [List.append_nil, wordsFrom_nil_of_isToken rfl htoken, wordsFrom_start_nil] at hjoin
    simpa using hjoin

/-- So are those of one with white space behind it, which are followed by what comes after that. -/
theorem wordsFrom_join_space (words : List String) (hspace : r.classes.isWhitespace c = true) :
    r.wordsFrom .start "" false ((join words).toList ++ c :: cs) =
      (r.wordsFrom .start "" false cs).map (words.map unquoted ++ ·) := by
  obtain rfl | ⟨words, word, rfl⟩ := words.eq_nil_or_concat
  · simpa [join] using wordsFrom_start_space hspace
  · obtain ⟨quoted, htoken, hjoin⟩ := hr.wordsFrom_join_append words word (c :: cs)
    rw [List.concat_eq_append, hjoin, wordsFrom_word_space hspace htoken, Option.map_map, List.map_append]
    simp only [Function.comp_def, List.append_assoc]
    rfl

end Unquotes
end Rules

/-- A word that is empty or not blank is read back as itself. -/
theorem unquoted_of_not_blank {word : String} (h : word ≠ "" → Text.isBlank word = false) :
    unquoted word = word := by
  unfold unquoted
  split_ifs with hblank
  · cases hword : decide (word = "") with
    | true => exact (of_decide_eq_true hword).symm
    | false => simp [h (of_decide_eq_false hword)] at hblank
  · rfl

/-- Under POSIX rules, with words up to white space, a joined command line is split into the words that were
joined, but for blank words, which come back empty. It does not matter whether there are comments, which other
characters are operators, and which word includes files, unless it is one of these. By the rules of POSIX alone
the words come back as they were when none of them is blank without being empty. -/
theorem splitWith_join {config : Config} {words : List String} (hposix : config.posix = true)
    (hsplit : config.whitespaceSplit = true)
    (hoperators : ∀ c ∈ config.punctuation.chars, c ≠ '\'' ∧ isSafe c = false)
    (hkeyword : ∀ word ∈ words.map unquoted, config.sourceKeyword ≠ some word) (resolver : Resolver) :
    splitWith config resolver (join words) = .ok (words.map unquoted) ∧
      ((∀ word ∈ words, word ≠ "" → Text.isBlank word = false) → split (join words) = .ok words) := by
  constructor
  · have hr := Rules.unquotes_ofConfig hposix hsplit hoperators
    exact Lexer.words_ofText_of_absent (hr.wordsFrom_join words) hkeyword resolver
  · intro hblank
    have hr : (Rules.ofConfig {}).Unquotes :=
      Rules.unquotes_ofConfig rfl rfl (by simp [Punctuation.chars, Punctuation.text])
    have hsame : words.map unquoted = words :=
      (List.map_congr_left fun word hword => unquoted_of_not_blank (hblank word hword)).trans
        (List.map_id words)
    have hwords := hr.wordsFrom_join words
    rw [hsame] at hwords
    exact Lexer.words_ofText_of_absent hwords (by simp) Resolver.refusing

/-- A quote, a comment sign, operators, a newline and a blank word survive the way through a command line, with
a backslash among the operators. -/
theorem splitWith_join_marks :
    splitWith { comments := true, punctuation := .custom "|\\#", sourceKeyword := some "source" }
        Resolver.refusing (join ["it's", "#", "a|b\\", "\n", "x"]) =
      .ok ["it's", "#", "a|b\\", "", "x"] := by
  have hoperators : ∀ c ∈ (Punctuation.custom "|\\#").chars, c ≠ '\'' ∧ isSafe c = false := by
    have hall : (Punctuation.custom "|\\#").chars.all (fun c => c ≠ '\'' && !isSafe c) = true := by
      decide +kernel
    intro c hc
    simpa using List.all_eq_true.1 hall c hc
  have hwords : ["it's", "#", "a|b\\", "\n", "x"].map unquoted = ["it's", "#", "a|b\\", "", "x"] := by
    decide
  have hkeyword : ∀ word ∈ ["it's", "#", "a|b\\", "\n", "x"].map unquoted,
      some "source" ≠ some word := by decide
  rw [(splitWith_join rfl rfl hoperators hkeyword Resolver.refusing).1, hwords]

end ShellWords
