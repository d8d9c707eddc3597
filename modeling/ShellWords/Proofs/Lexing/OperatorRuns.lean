import ShellWords.Proofs.Lexing.Classes
import ShellWords.Proofs.Loose.Munch

/-!
# Words and operators side by side

Operators need no white space around them: a word and a run of operators are two words, whichever comes first. That
holds of all characters that are nothing but operators. A custom set of operators may contain quotes and the
backslash, and then it depends on where these stand. In a run everything in the set is an operator. Between tokens
the backslash comes first under POSIX rules, but the quotes do not, and in a word both come first.
`splitWith_word_operators` says exactly which runs can stand beside a word.

That a text is not split in this way is seen from its length. The words of a text are together no longer than the
text (`Rules.length_words_le`), so a quote or a backslash that has been used up is missing in the end.
-/

namespace ShellWords
namespace Rules

variable {r : Rules} {state : State} {token : String} {quoted : Bool} {c : Char} {cs : List Char}

/-! ## The length of the words -/

/-- A backslash in a quotation has been read, and may still become part of the token. -/
def owed : State → Nat
  | .escape (.quote _) => 1
  | _ => 0

/-- Between tokens nothing is owed. -/
theorem owed_start : owed .start = 0 := rfl

/-- A move adds no more to the token than its character and what was owed. -/
theorem length_move_le (r : Rules) (state : State) (token : String) (quoted : Bool) (c : Char) :
    (r.move state token quoted c).token.length + owed (r.move state token quoted c).state ≤
      token.length + owed state + 1 := by
  cases state with
  | start =>
    simp only [move, moveFromStart]
    split_ifs <;> simp [owed]
  | word =>
    simp only [move, moveFromWord, moveAtBoundary]
    split_ifs <;> simp [owed]
  | punctuation =>
    simp only [move, moveFromPunctuation, moveAtBoundary]
    split_ifs <;> simp [owed]
  | quote q =>
    simp only [move, moveFromQuote]
    split_ifs <;> simp [owed]
  | escape resume =>
    cases resume with
    | word => simp [move, moveFromEscape, owed]
    | quote q =>
      simp only [move, moveFromEscape]
      split_ifs <;> simp [owed]
  | done => simp [move, owed]

/-- A character that is held back adds nothing. -/
theorem token_of_held (h : (r.move state token quoted c).held ≠ .nothing) :
    (r.move state token quoted c).token = token := by
  cases state with
  | start => simp only [move, moveFromStart] at h; grind
  | word => simp only [move, moveFromWord, moveAtBoundary] at h ⊢; grind
  | punctuation => simp only [move, moveFromPunctuation, moveAtBoundary] at h ⊢; grind
  | quote q => simp only [move, moveFromQuote] at h; grind
  | escape resume => cases resume <;> simp [move, moveFromEscape] at h
  | done => simp [move] at h

/-- The words of a text are together no longer than the text, with the token in progress and what is owed to it. -/
theorem length_words_le {ws : List String} (hprogress : r.InProgress state token quoted)
    (h : r.wordsFrom state token quoted cs = some ws) :
    (String.join ws).length ≤ token.length + owed state + cs.length := by
  induction state, token, quoted, cs, hprogress using r.inProgress_induction generalizing ws with
  | nil state token quoted hprogress =>
    rw [wordsFrom] at h
    split_ifs at h
    all_goals
      obtain rfl := Option.some.inj h
      simp
  | ends state token quoted c cs m hprogress hm hcomplete hheld ih =>
    rw [wordsFrom_of_ends hm hcomplete hheld, Option.map_eq_some_iff] at h
    obtain ⟨ws, hws, rfl⟩ := h
    have htoken := hm ▸ r.length_move_le state token quoted c
    have hrest := m.length_rest_le cs
    have hwords := ih hws
    simp only [String.length_empty, owed_start, String.join_cons, String.length_append,
      List.length_cons] at hwords ⊢
    omega
  | char state token quoted c cs m hprogress hm hcomplete hheld ih =>
    rw [wordsFrom_of_char hm hcomplete hheld, Option.map_eq_some_iff] at h
    obtain ⟨ws, hws, rfl⟩ := h
    have htoken : m.token = token := hm ▸ token_of_held (by rw [hm, hheld]; simp)
    have hwords := ih hws
    simp only [String.length_empty, owed_start, String.join_cons, String.length_append, htoken] at hwords ⊢
    omega
  | token state token quoted c cs m hprogress hm hcomplete hheld ih =>
    rw [wordsFrom_of_token hm hcomplete hheld, Option.map_eq_some_iff] at h
    obtain ⟨tail, htail, rfl⟩ := h
    obtain ⟨ws, hws, rfl⟩ := Option.map_eq_some_iff.1 htail
    have htoken : m.token = token := hm ▸ token_of_held (by rw [hm, hheld]; simp)
    have hwords := ih hws
    simp only [String.length_empty, String.length_singleton, owed_start, String.join_cons, String.length_append,
      List.length_cons, htoken] at hwords ⊢
    omega
  | goesOn state token quoted c cs m hprogress hm hcomplete hheld hprogress' ih =>
    rw [wordsFrom_of_goesOn hm hcomplete] at h
    have htoken := hm ▸ r.length_move_le state token quoted c
    have hrest := m.length_rest_le cs
    have hwords := ih h
    rw [List.length_cons]
    omega

/-- So two words are not those of a text that is too short for them. -/
theorem wordsFrom_ne_of_short {w p : String} (hprogress : r.InProgress state token quoted)
    (hshort : token.length + owed state + cs.length < w.length + p.length) :
    r.wordsFrom state token quoted cs ≠ some [w, p] := by
  intro h
  have hle := length_words_le hprogress h
  simp only [String.join_cons, String.join_nil, String.length_append, String.length_empty] at hle
  omega

/-! ## Words and runs -/

/-- There are no comments, a word character is nothing else, and no operator is white space. -/
structure Separates (r : Rules) : Prop where
  noComments : ∀ c, r.classes.isComment c = false
  word : ∀ c, r.classes.isWord c = true → r.Unmarked c ∧ r.classes.isPunctuation c = false
  operators : ∀ c, r.classes.isPunctuation c = true →
    r.classes.isWhitespace c = false ∧ r.classes.isWord c = false

/-- Whether a character takes the special meaning from the next one: it is the escape character, and that is active. -/
def Escapes (r : Rules) (c : Char) : Prop := r.posix = true ∧ r.classes.isEscape c = true

namespace Separates

variable (hr : r.Separates) {w p : List Char} (hword : ∀ c ∈ w, r.classes.isWord c = true)
  (hoperators : ∀ c ∈ p, r.classes.isPunctuation c = true)
include hr

/-- A word character belongs to nothing else. -/
theorem onlyWord {c : Char} (hc : r.classes.isWord c = true) : r.OnlyWord c :=
  ⟨hc, (hr.word c hc).1, (hr.word c hc).2⟩

include hword in
/-- Word characters make a word, whatever follows. -/
theorem wordsFrom_start_word (hne : w ≠ []) (cs : List Char) :
    r.wordsFrom .start "" false (w ++ cs) = r.wordsFrom .word (String.ofList w) false cs := by
  obtain ⟨c, w, rfl⟩ := List.exists_cons_of_ne_nil hne
  have hfirst := (hr.onlyWord (hword c List.mem_cons_self)).move_start "" false
  have htakes (token : String) : ∀ c ∈ w,
      r.move .word token false c = { state := .word, token := token.push c, quoted := false } := by
    intro c hc
    exact (hr.onlyWord (hword c (List.mem_cons_of_mem _ hc))).move_word token false
  have htext : String.singleton c ++ String.ofList w = String.ofList (c :: w) := by
    rw [← String.toList_inj]
    simp
  rw [List.cons_append, wordsFrom_of_continues hfirst rfl rfl, wordsFrom_append_of_takes htakes, htext]

include hoperators in
/-- Operators make a run, unless the first of them escapes the next character. -/
theorem wordsFrom_start_run (hne : p ≠ []) (hfirst : ∀ c ∈ p.head?, ¬r.Escapes c) (cs : List Char) :
    r.wordsFrom .start "" false (p ++ cs) = r.wordsFrom .punctuation (String.ofList p) false cs := by
  obtain ⟨c, p, rfl⟩ := List.exists_cons_of_ne_nil hne
  have hc := hoperators c List.mem_cons_self
  obtain ⟨hspace, hnotWord⟩ := hr.operators c hc
  have hescape : (r.posix && r.classes.isEscape c) = false := by
    simpa [Escapes] using hfirst c rfl
  have hfirst : r.move .start "" false c =
      { state := .punctuation, token := String.singleton c, quoted := false } := by
    simp [move, moveFromStart, hspace, hr.noComments, hescape, hnotWord, hc]
  have htakes (token : String) : ∀ c ∈ p,
      r.move .punctuation token false c =
        { state := .punctuation, token := token.push c, quoted := false } := by
    intro c hc
    have hc := hoperators c (List.mem_cons_of_mem _ hc)
    exact munches_run.takes token false c (hr.operators c hc).1 (hr.noComments c) hc
  have htext : String.singleton c ++ String.ofList p = String.ofList (c :: p) := by
    rw [← String.toList_inj]
    simp
  rw [List.cons_append, wordsFrom_of_continues hfirst rfl rfl, wordsFrom_append_of_takes htakes, htext]

include hword in
/-- Word characters alone are a word. -/
theorem wordsFrom_word (hne : w ≠ []) : r.wordsFrom .start "" false w = some [String.ofList w] := by
  have htoken : r.isToken (String.ofList w) false = true := r.isToken_of_ne_empty (by simpa using hne) false
  have hstart := hr.wordsFrom_start_word hword hne []
  rw [List.append_nil] at hstart
  rw [hstart, wordsFrom_nil_of_isToken rfl htoken, wordsFrom_start_nil]
  rfl

include hoperators in
/-- Operators alone are a run. -/
theorem wordsFrom_run (hne : p ≠ []) (hfirst : ∀ c ∈ p.head?, ¬r.Escapes c) :
    r.wordsFrom .start "" false p = some [String.ofList p] := by
  have htoken : r.isToken (String.ofList p) false = true := r.isToken_of_ne_empty (by simpa using hne) false
  have hstart := hr.wordsFrom_start_run hoperators hne hfirst []
  rw [List.append_nil] at hstart
  rw [hstart, wordsFrom_nil_of_isToken rfl htoken, wordsFrom_start_nil]
  rfl

/-! ## A run behind a word -/

include hword hoperators in
/-- A run stands behind a word if its first character is neither a quote nor an escape character. -/
theorem wordsFrom_word_run (hnew : w ≠ []) (hnep : p ≠ [])
    (hfirst : ∀ c ∈ p.head?, r.classes.isQuote c = false ∧ ¬r.Escapes c) :
    r.wordsFrom .start "" false (w ++ p) = some [String.ofList w, String.ofList p] := by
  have htoken : r.isToken (String.ofList w) false = true := r.isToken_of_ne_empty (by simpa using hnew) false
  have hrun := hr.wordsFrom_run hoperators hnep (fun c hc => (hfirst c hc).2)
  obtain ⟨c, p, rfl⟩ := List.exists_cons_of_ne_nil hnep
  obtain ⟨hquote, hescape⟩ := hfirst c rfl
  have hc := hoperators c List.mem_cons_self
  obtain ⟨hspace, hnotWord⟩ := hr.operators c hc
  have hactive := r.punctuationActive_of_isPunctuation hc
  have hescape : (r.posix && r.classes.isEscape c) = false := by simpa [Escapes] using hescape
  have hmove : r.move .word (String.ofList w) false c =
      { state := .start, token := String.ofList w, quoted := false, held := .char, complete := true } := by
    simp [move, moveFromWord, moveAtBoundary, hspace, hr.noComments, hquote, hescape, hnotWord, hc, hactive, htoken]
  rw [hr.wordsFrom_start_word hword hnew, wordsFrom_of_char hmove rfl rfl, hrun]
  rfl

/-- Under POSIX rules a quote and the escape character are used up in a word. -/
theorem wordsFrom_word_ne_of_posix (hposix : r.posix = true) (hc : r.classes.isPunctuation c = true)
    (hquoting : r.classes.isQuote c = true ∨ r.classes.isEscape c = true) (cs : List Char) :
    r.wordsFrom .word token quoted (c :: cs) ≠ some [token, String.ofList (c :: cs)] := by
  have hspace := (hr.operators c hc).1
  have hshort : token.length + owed .start + cs.length < token.length + (String.ofList (c :: cs)).length := by
    simp [owed_start]
  by_cases hquote : r.classes.isQuote c = true
  · have hmove : r.move .word token quoted c = { state := .quote c, token, quoted } := by
      simp [move, moveFromWord, moveAtBoundary, hspace, hr.noComments, hposix, hquote]
    rw [wordsFrom_of_continues hmove rfl rfl]
    exact wordsFrom_ne_of_short (.inl hposix) hshort
  · have hescape := hquoting.resolve_left hquote
    have hmove : r.move .word token quoted c = { state := .escape .word, token, quoted } := by
      simp [move, moveFromWord, moveAtBoundary, hspace, hr.noComments, hposix, hquote, hescape]
    rw [wordsFrom_of_continues hmove rfl rfl]
    exact wordsFrom_ne_of_short hposix hshort

/-- Without POSIX rules a quote belongs to the word. -/
theorem wordsFrom_word_ne_of_loose (hposix : r.posix = false) (hc : r.classes.isPunctuation c = true)
    (hquote : r.classes.isQuote c = true) (cs : List Char) :
    r.wordsFrom .word token quoted (c :: cs) ≠ some [token, String.ofList (c :: cs)] := by
  have hmove : r.move .word token quoted c = { state := .word, token := token.push c, quoted } :=
    (munches_word hposix).takes token quoted c (hr.operators c hc).1 (hr.noComments c) (by simp [extendsWord, hquote])
  rw [wordsFrom_of_continues hmove rfl rfl,
    (munches_word hposix).wordsFrom_eq hposix _ (r.isToken_push token c quoted)]
  intro h
  obtain ⟨ws, -, hws⟩ := Option.map_eq_some_iff.1 h
  have hlength := congrArg String.length (List.cons.inj hws).1
  rw [String.length_append, String.length_push] at hlength
  omega

include hword hoperators in
/-- A run stands behind a word exactly if its first character is neither a quote nor an escape character. -/
theorem wordsFrom_word_run_iff (hnew : w ≠ []) (hnep : p ≠ []) :
    r.wordsFrom .start "" false (w ++ p) = some [String.ofList w, String.ofList p] ↔
      ∀ c ∈ p.head?, r.classes.isQuote c = false ∧ ¬r.Escapes c := by
  refine ⟨?_, hr.wordsFrom_word_run hword hoperators hnew hnep⟩
  intro h c hfirst
  obtain ⟨p, rfl⟩ := List.head?_eq_some_iff.1 hfirst
  have hc := hoperators c List.mem_cons_self
  rw [hr.wordsFrom_start_word hword hnew] at h
  rw [← Bool.not_eq_true]
  cases hposix : r.posix with
  | false =>
    exact ⟨fun hquote => hr.wordsFrom_word_ne_of_loose hposix hc hquote p h,
      fun hescape => Bool.false_ne_true (hposix.symm.trans hescape.1)⟩
  | true =>
    exact ⟨fun hquote => hr.wordsFrom_word_ne_of_posix hposix hc (.inl hquote) p h,
      fun hescape => hr.wordsFrom_word_ne_of_posix hposix hc (.inr hescape.2) p h⟩

/-! ## A word behind a run -/

include hword hoperators in
/-- A word stands behind a run exactly if the first character of the run escapes nothing. -/
theorem wordsFrom_run_word_iff (hnew : w ≠ []) (hnep : p ≠ []) :
    r.wordsFrom .start "" false (p ++ w) = some [String.ofList p, String.ofList w] ↔
      ∀ c ∈ p.head?, ¬r.Escapes c := by
  constructor
  · intro h c hfirst hescape
    obtain ⟨p, rfl⟩ := List.head?_eq_some_iff.1 hfirst
    have hspace := (hr.operators c (hoperators c List.mem_cons_self)).1
    have hmove : r.move .start "" false c = { state := .escape .word, token := "", quoted := false } := by
      simp [move, moveFromStart, hspace, hr.noComments, hescape.1, hescape.2]
    rw [List.cons_append, wordsFrom_of_continues hmove rfl rfl] at h
    have hprogress : r.InProgress (.escape .word) "" false := hescape.1
    refine wordsFrom_ne_of_short hprogress ?_ h
    simp [owed]
  · intro hfirst
    have htoken : r.isToken (String.ofList p) false = true := r.isToken_of_ne_empty (by simpa using hnep) false
    have halone := hr.wordsFrom_word hword hnew
    rw [hr.wordsFrom_start_run hoperators hnep hfirst]
    obtain ⟨c, w, rfl⟩ := List.exists_cons_of_ne_nil hnew
    obtain ⟨hplain, hnot⟩ := hr.word c (hword c List.mem_cons_self)
    rw [munches_run.ends _ _ c w htoken hplain.space hplain.comment hnot, halone]
    rfl

end Separates

/-- Options without comments give such rules, unless white space is an operator. -/
theorem separates_ofConfig {config : Config} (hcomments : config.comments = false)
    (hspace : ∀ c ∈ config.punctuation.chars, c ∉ (CharClasses.ofConfig config).whitespace) :
    (ofConfig config).Separates where
  noComments := by
    intro c
    simp [CharClasses.isComment, ofConfig, CharClasses.ofConfig, hcomments]
  word := by
    intro c hc
    have honly := onlyWord_ofConfig hc
    exact ⟨honly.unmarked, honly.notOperator⟩
  operators := by
    intro c hc
    have hoperator : c ∈ config.punctuation.chars := isPunctuation_ofConfig_iff.1 hc
    constructor
    · simpa [CharClasses.isWhitespace, ofConfig] using hspace c hoperator
    · rw [← Bool.not_eq_true, isWord_ofConfig_iff]
      exact fun h => h.2 hoperator

end Rules

/-- A word and a run of operators beside it are two words, whichever comes first. The run may contain quotes and
backslashes, if they are operators. But its first character is none of them behind a word, and no backslash before
one; without POSIX rules the backslash is an operator everywhere. -/
theorem splitWith_word_operators {config : Config} (hkeyword : config.sourceKeyword = none)
    (hcomments : config.comments = false)
    (hspace : ∀ c ∈ config.punctuation.chars, c ∉ (CharClasses.ofConfig config).whitespace)
    (resolver : Resolver) {w p : String} (hnew : w ≠ "")
    (hword : ∀ c ∈ w.toList, (Rules.ofConfig config).classes.isWord c = true) (hnep : p ≠ "")
    (hoperators : ∀ c ∈ p.toList, c ∈ config.punctuation.chars) :
    (splitWith config resolver (w ++ p) = .ok [w, p] ↔
      ∀ c ∈ p.toList.head?, c ≠ '\'' ∧ c ≠ '"' ∧ (config.posix = true → c ≠ '\\')) ∧
    (splitWith config resolver (p ++ w) = .ok [p, w] ↔
      ∀ c ∈ p.toList.head?, config.posix = true → c ≠ '\\') := by
  have hr := Rules.separates_ofConfig hcomments hspace
  have hpunctuation : ∀ c ∈ p.toList, (Rules.ofConfig config).classes.isPunctuation c = true := by
    simpa [CharClasses.isPunctuation, Rules.ofConfig, CharClasses.ofConfig] using hoperators
  have hnew : w.toList ≠ [] := by simpa using hnew
  have hnep : p.toList ≠ [] := by simpa using hnep
  have hescapes (c : Char) : (Rules.ofConfig config).Escapes c ↔ config.posix = true ∧ c = '\\' := by
    simp [Rules.Escapes, CharClasses.isEscape, Rules.ofConfig, CharClasses.ofConfig]
  have hquotes (c : Char) : (Rules.ofConfig config).classes.isQuote c = false ↔ c ≠ '\'' ∧ c ≠ '"' := by
    simp [CharClasses.isQuote, Rules.ofConfig, CharClasses.ofConfig]
  have hbehind := hr.wordsFrom_word_run_iff hword hpunctuation hnew hnep
  have hbefore := hr.wordsFrom_run_word_iff hword hpunctuation hnew hnep
  simp only [String.ofList_toList, hquotes, hescapes, not_and, and_assoc] at hbehind hbefore
  rw [splitWith_eq_ok_iff hkeyword, splitWith_eq_ok_iff hkeyword, String.toList_append, String.toList_append]
  exact ⟨hbehind, hbefore⟩

/-- In a run, quotes and the backslash are operators like any other. -/
theorem splitWith_word_operators_quotes :
    splitWith { punctuation := .custom "|'\\" } Resolver.refusing "a|'\\" = .ok ["a", "|'\\"] ∧
    splitWith { punctuation := .custom "|'\\" } Resolver.refusing "|'\\a" = .ok ["|'\\", "a"] := by
  have hspace : ∀ c ∈ (Punctuation.custom "|'\\").chars, c ∉ [' ', '\t', '\r', '\n'] := by
    simp [Punctuation.chars, Punctuation.text]
  have hword : ∀ c ∈ "a".toList, (Rules.ofConfig { punctuation := .custom "|'\\" }).classes.isWord c = true := by
    intro c hc
    obtain rfl : c = 'a' := by simpa using hc
    decide
  have hoperators : ∀ c ∈ "|'\\".toList, c ∈ (Punctuation.custom "|'\\").chars := fun c hc => hc
  obtain ⟨hbehind, hbefore⟩ := @splitWith_word_operators { punctuation := .custom "|'\\" } rfl rfl hspace
    Resolver.refusing "a" "|'\\" (by decide) hword (by decide) hoperators
  exact ⟨hbehind.2 (by simp), hbefore.2 (by simp)⟩

/-- A quote that is an operator makes a run before a word, and behind the word it opens a quotation. -/
theorem splitWith_quote_operator :
    (Rules.ofConfig { punctuation := .custom "'" }).classes.isWord 'a' = true ∧
    '\'' ∈ ({ punctuation := .custom "'" } : Config).punctuation.chars ∧
    splitWith { punctuation := .custom "'" } Resolver.refusing "'a" = .ok ["'", "a"] ∧
    splitWith { punctuation := .custom "'" } Resolver.refusing "a'" = .error (.unterminatedQuotation none 1) := by
  have hbefore : (Rules.ofConfig { punctuation := .custom "'" }).wordsFrom .start "" false "'a".toList =
      some ["'", "a"] := Rules.wordsFrom_of_wordsWithin 5 (by decide +kernel)
  have hbehind : (Rules.ofConfig { punctuation := .custom "'" }).wordsFrom .start "" false "a'".toList = none :=
    Rules.wordsFrom_of_wordsWithin 5 (by decide +kernel)
  exact ⟨by decide, by decide, splitWith_of_wordsFrom rfl Resolver.refusing hbefore,
    splitWith_of_wordsFrom rfl Resolver.refusing hbehind⟩

end ShellWords
