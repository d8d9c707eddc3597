import ShellWords.Proofs.Posix.Automaton

/-!
# Comments as white space

Under POSIX rules a comment could as well not be there. `withoutComments` takes the comments out of a text: every
number sign that is not quoted, with the rest of its line, but not the newline. It reads the text once from left to
right and keeps track of nothing but the quoting (`Quoting.next`), so it knows no words, operators or options.

The automaton that passes over comments and the one that has none are at the same place all along, and `Quoting.At`
says where that is in terms of the quoting. They make the same moves (`Rules.commented_move`) until a comment
begins. There the one ends its token and goes on behind the line, and the other has only the newline left, at which
it does the same (`Rules.wordsFrom_uncommented_line`).
-/

namespace ShellWords

/-! ## Texts without their comments -/

/-- How the quoting that has been read so far affects the next character. -/
inductive Quoting where
  /-- Not at all. -/
  | unquoted
  /-- The character stands behind a backslash. -/
  | escaped
  /-- It stands in a single quotation. -/
  | single
  /-- It stands in a double quotation. -/
  | double
  /-- It stands behind a backslash in a double quotation. -/
  | doubleEscaped
  deriving DecidableEq, Repr

/-- How the character behind this one is affected. -/
def Quoting.next : Quoting → Char → Quoting
  | unquoted, c =>
    if c = '\\' then escaped else if c = '\'' then single else if c = '"' then double else unquoted
  | escaped, _ => unquoted
  | single, c => if c = '\'' then unquoted else single
  | double, c => if c = '"' then unquoted else if c = '\\' then doubleEscaped else double
  | doubleEscaped, _ => double

/-- What is left of a text without its comments. A comment begins with a number sign that is not quoted, and ends
before the newline. -/
def uncommented (q : Quoting) : List Char → List Char
  | [] => []
  | c :: cs =>
    if q = .unquoted ∧ c = '#' then uncommented .unquoted (cs.dropWhile (· != '\n'))
    else c :: uncommented (q.next c) cs
termination_by cs => cs.length
decreasing_by
  · exact Nat.lt_succ_of_le (List.dropWhile_suffix _).length_le
  · exact Nat.lt_succ_self _

/-- A text without its comments. -/
def withoutComments (text : String) : String := String.ofList (uncommented .unquoted text.toList)

section
variable {q : Quoting} {c : Char} {cs : List Char}

/-- Of nothing, nothing is left. -/
theorem uncommented_nil (q : Quoting) : uncommented q [] = [] := by rw [uncommented]

/-- A comment is dropped up to the end of its line. -/
theorem uncommented_comment (cs : List Char) :
    uncommented .unquoted ('#' :: cs) = uncommented .unquoted (cs.dropWhile (· != '\n')) := by
  rw [uncommented, if_pos ⟨rfl, rfl⟩]

/-- Any other character is left. -/
theorem uncommented_cons (h : ¬(q = .unquoted ∧ c = '#')) :
    uncommented q (c :: cs) = c :: uncommented (q.next c) cs := by
  rw [uncommented, if_neg h]

/-- From a comment on, what is left is empty or begins with the newline that ends the comment. -/
theorem uncommented_line (cs : List Char) :
    uncommented .unquoted (cs.dropWhile (· != '\n')) = [] ∧ Source.afterLine cs = [] ∨
      uncommented .unquoted (cs.dropWhile (· != '\n')) = '\n' :: uncommented .unquoted (Source.afterLine cs) := by
  induction cs with
  | nil => exact .inl ⟨uncommented_nil _, rfl⟩
  | cons c cs ih =>
    by_cases hc : c = '\n'
    · subst hc
      rw [List.dropWhile_cons_of_neg (by simp), Source.afterLine_newline]
      exact .inr (uncommented_cons (by simp))
    · rw [List.dropWhile_cons_of_pos (by simpa using hc), Source.afterLine_cons hc]
      exact ih

/-- Up to a newline there is none. -/
theorem count_newline_dropWhile (cs : List Char) : (cs.dropWhile (· != '\n')).count '\n' = cs.count '\n' := by
  induction cs with
  | nil => rfl
  | cons c cs ih =>
    by_cases hc : c = '\n'
    · rw [List.dropWhile_cons_of_neg (by simpa using hc)]
    · rw [List.dropWhile_cons_of_pos (by simpa using hc), ih, List.count_cons_of_ne hc]

/-- No line gets lost with a comment. -/
theorem count_newline_uncommented (q : Quoting) (cs : List Char) :
    (uncommented q cs).count '\n' = cs.count '\n' := by
  fun_induction uncommented q cs with
  | case1 => rfl
  | case2 q c cs hcomment ih =>
    rw [ih, count_newline_dropWhile, hcomment.2, List.count_cons_of_ne (by decide)]
  | case3 q c cs hnot ih => rw [List.count_cons, List.count_cons, ih]

end

/-! ## Where the automaton is -/

/-- The states that the automaton may be in while the quoting is this. -/
inductive Quoting.At : Quoting → State → Prop where
  | start : At unquoted .start
  | word : At unquoted .word
  | punctuation : At unquoted .punctuation
  | escaped : At escaped (.escape .word)
  | single : At single (.quote '\'')
  | double : At double (.quote '"')
  | doubleEscaped : At doubleEscaped (.escape (.quote '"'))

/-- No quotation is open where nothing is quoted. -/
theorem Quoting.At.closed {state : State} (h : Quoting.At .unquoted state) : state.isOpen = false := by
  cases h <;> rfl

namespace Rules

/-- These rules, with comments. -/
def commented (r : Rules) : Rules := { r with classes := { r.classes with commenters := ['#'] } }

/-- Rules of POSIX for lines: a newline stands between items, and a number sign does not. -/
structure PosixLines (r : Rules) : Prop extends r.Posix where
  newline : r.classes.isWhitespace '\n' = true
  numberSign : r.classes.isWhitespace '#' = false

variable {r : Rules} {q : Quoting} {state : State} {token : String} {quoted : Bool} {c : Char}
  {cs : List Char} {m : Move}

/-- A move takes the automaton to where the quoting of the next character says. If the character is to be read
again, nothing is quoted. -/
theorem Posix.at_move (hr : r.Posix) (hat : q.At state) (hm : r.move state token quoted c = m) :
    (m.held ≠ .char → (q.next c).At m.state) ∧ (m.held = .char → q = .unquoted) := by
  subst hm
  have hquoting := hr.quoting c
  have hescape := hr.isEscape_iff (c := c)
  have hquote := hr.isQuote_iff (c := c)
  have hposix := hr.posix
  cases hat with
  | start =>
    refine ⟨fun _ => ?_, fun _ => rfl⟩
    simp only [move, moveFromStart, Quoting.next, hr.isComment_eq_false, Rules.quoting] at *
    grind [Quoting.At]
  | word =>
    refine ⟨fun _ => ?_, fun _ => rfl⟩
    simp only [move, moveFromWord, moveAtBoundary, Quoting.next, hr.isComment_eq_false, Rules.quoting] at *
    grind [Quoting.At]
  | punctuation =>
    refine ⟨fun _ => ?_, fun _ => rfl⟩
    simp only [move, moveFromPunctuation, moveAtBoundary, Quoting.next, hr.isComment_eq_false,
      Rules.quoting] at *
    grind [Quoting.At]
  | escaped => exact ⟨fun _ => .word, by simp [move, moveFromEscape]⟩
  | single =>
    have hactive := hr.isEscapedQuote_iff (c := '\'')
    simp only [move, moveFromQuote, Quoting.next] at *
    grind [Quoting.At]
  | double =>
    have hactive := hr.isEscapedQuote_iff (c := '"')
    simp only [move, moveFromQuote, Quoting.next] at *
    grind [Quoting.At]
  | doubleEscaped => exact ⟨fun _ => .double, by simp [move, moveFromEscape]⟩

/-- Without comments no line is skipped. -/
theorem Posix.skipsLine_eq_false (hr : r.Posix) (hm : r.move state token quoted c = m) : m.skipsLine = false := by
  have hcomment := hr.isComment_eq_false c
  subst hm
  cases state with
  | start => simp only [move, moveFromStart]; grind
  | word => simp only [move, moveFromWord, moveAtBoundary]; grind
  | punctuation => simp only [move, moveFromPunctuation, moveAtBoundary]; grind
  | quote q => simp only [move, moveFromQuote]; grind
  | escape resume => cases resume <;> rfl
  | done => rfl

/-- Unless a comment begins, it makes no difference to a move whether there are comments. -/
theorem commented_move (hr : r.Posix) (hat : q.At state) (hnot : ¬(q = .unquoted ∧ c = '#')) :
    r.commented.move state token quoted c = r.move state token quoted c := by
  have hplain (h : c ≠ '#') : r.commented.classes.isComment c = r.classes.isComment c := by
    rw [hr.isComment_eq_false]
    simpa [commented, CharClasses.isComment] using h
  cases hat with
  | start =>
    have hcomment := hplain (fun h => hnot ⟨rfl, h⟩)
    simp only [move, moveFromStart, hcomment]
    rfl
  | word =>
    have hcomment := hplain (fun h => hnot ⟨rfl, h⟩)
    simp only [move, moveFromWord, moveAtBoundary, hcomment]
    rfl
  | punctuation =>
    have hcomment := hplain (fun h => hnot ⟨rfl, h⟩)
    simp only [move, moveFromPunctuation, moveAtBoundary, hcomment]
    rfl
  | escaped => rfl
  | single => rfl
  | double => rfl
  | doubleEscaped => rfl

/-- A comment ends a word and a run of operators. -/
theorem PosixLines.move_comment (hr : r.PosixLines) (hstate : state = .word ∨ state = .punctuation)
    (htoken : r.isToken token quoted = true) :
    r.commented.move state token quoted '#' =
      { state := .start, token, quoted, skipsLine := true, complete := true } := by
  have hspace : r.commented.classes.isWhitespace '#' = false := hr.numberSign
  have hcomment : r.commented.classes.isComment '#' = true := rfl
  have hposix : r.commented.posix = true := hr.posix
  have hsame : r.commented.isToken token quoted = true := htoken
  rcases hstate with rfl | rfl
  · simp [move, moveFromWord, moveAtBoundary, hspace, hcomment, hposix, hsame]
  · simp [move, moveFromPunctuation, moveAtBoundary, hspace, hcomment, hposix, hsame]

/-- Where a comment begins, the token in progress ends, if it is one, and the text goes on behind the line. -/
theorem PosixLines.wordsFrom_comment (hr : r.PosixLines) (hprogress : r.InProgress state token quoted)
    (hopen : state.isOpen = false) :
    r.commented.wordsFrom state token quoted ('#' :: cs) =
      (r.commented.wordsFrom .start "" false (Source.afterLine cs)).map
        ((if r.isToken token quoted then [token] else []) ++ ·) := by
  cases state with
  | start =>
    obtain ⟨rfl, rfl⟩ := hprogress
    have hempty : r.isToken "" false = false := by simp [isToken]
    rw [wordsFrom_start_comment (r := r.commented) hr.numberSign rfl, hempty]
    simp
  | word =>
    have htoken : r.isToken token quoted = true := hprogress
    rw [wordsFrom_of_ends (hr.move_comment (.inl rfl) htoken) rfl rfl, if_pos htoken]
    rfl
  | punctuation =>
    have htoken := r.isToken_of_ne_empty hprogress.1 quoted
    rw [wordsFrom_of_ends (hr.move_comment (.inr rfl) htoken) rfl rfl, if_pos htoken]
    rfl
  | quote q => cases hopen
  | escape resume => cases hopen
  | done => exact hprogress.elim

/-- Where the comment has been taken out, the newline that is left or the end of the text does the same. -/
theorem PosixLines.wordsFrom_uncommented_line (hr : r.PosixLines) (hprogress : r.InProgress state token quoted)
    (hopen : state.isOpen = false) :
    r.wordsFrom state token quoted (uncommented .unquoted (cs.dropWhile (· != '\n'))) =
      (r.wordsFrom .start "" false (uncommented .unquoted (Source.afterLine cs))).map
        ((if r.isToken token quoted then [token] else []) ++ ·) := by
  rcases uncommented_line cs with ⟨hnil, hafter⟩ | hline
  · rw [hnil, hafter, uncommented_nil, wordsFrom_start_nil, wordsFrom, hopen]
    simp
  · rw [hline]
    exact wordsFrom_space_of_closed hprogress hopen hr.newline

/-- The words of a text with comments are those that the automaton without comments finds when they are taken
out. -/
theorem PosixLines.wordsFrom_commented (hr : r.PosixLines) {q : Quoting} {state : State} {token : String}
    {quoted : Bool} (hat : q.At state) (hprogress : r.InProgress state token quoted) (cs : List Char) :
    r.commented.wordsFrom state token quoted cs = r.wordsFrom state token quoted (uncommented q cs) := by
  match cs with
  | [] =>
    rw [uncommented_nil, wordsFrom, wordsFrom]
    rfl
  | c :: cs =>
    by_cases hcomment : q = .unquoted ∧ c = '#'
    · obtain ⟨rfl, rfl⟩ := hcomment
      have hafter := Source.length_afterLine_le cs
      rw [uncommented_comment, hr.wordsFrom_uncommented_line hprogress hat.closed,
        hr.wordsFrom_comment hprogress hat.closed,
        wordsFrom_commented hr .start r.inProgress_start (Source.afterLine cs)]
    · obtain ⟨m, hm⟩ : ∃ m, r.move state token quoted c = m := ⟨_, rfl⟩
      have hcommented := (commented_move hr.toPosix hat hcomment).trans hm
      obtain ⟨hnext, hagain⟩ := hr.at_move hat hm
      have hstays := hr.skipsLine_eq_false hm
      rw [uncommented_cons hcomment]
      rcases hm ▸ r.move_progress hprogress c with ⟨hcomplete, hstart, -, -, -⟩ | ⟨hcomplete, hheld, hgoes⟩
      · rw [hstart] at hnext
        cases hheld : m.held with
        | nothing =>
          have hat' := hnext (by simp [hheld])
          rw [wordsFrom_of_completes hcommented hcomplete hstays hheld,
            wordsFrom_of_completes hm hcomplete hstays hheld, wordsFrom_commented hr hat' r.inProgress_start cs]
        | char =>
          obtain rfl := hagain hheld
          have hrank : state.rank = 2 := (r.move_held state token quoted c (by simp [hm, hheld])).1
          rw [wordsFrom_of_char hcommented hcomplete hheld, wordsFrom_of_char hm hcomplete hheld,
            wordsFrom_commented hr .start r.inProgress_start (c :: cs), uncommented_cons hcomment]
        | token =>
          have hat' := hnext (by simp [hheld])
          rw [wordsFrom_of_token hcommented hcomplete hheld, wordsFrom_of_token hm hcomplete hheld,
            wordsFrom_commented hr hat' r.inProgress_start cs]
      · have hat' := hnext (by simp [hheld])
        rw [wordsFrom_of_continues hcommented hcomplete hstays, wordsFrom_of_continues hm hcomplete hstays,
          wordsFrom_commented hr hat' hgoes cs]
termination_by (cs.length, state.rank)
decreasing_by
  · exact .left _ _ (Nat.lt_succ_of_le hafter)
  · exact .left _ _ (Nat.lt_succ_self _)
  -- The character has ended a token in progress, and now starts one.
  · rw [hrank]
    exact .right _ (by decide)
  · exact .left _ _ (Nat.lt_succ_self _)
  · exact .left _ _ (Nat.lt_succ_self _)

/-- Options for POSIX without comments give such rules, unless a quoting character is an operator. -/
theorem posixLines_ofConfig {config : Config} (hposix : config.posix = true) (hcomments : config.comments = false)
    (hoperators : ∀ c ∈ quoting, c ∉ config.punctuation.chars) : (ofConfig config).PosixLines where
  toPosix := posix_ofConfig hposix hcomments hoperators
  newline := rfl
  numberSign := rfl

end Rules

/-- Under POSIX rules and without files, a text with comments is split as the text without them is by a lexer that
knows no comments. A quotation that is left open is reported at the same line. -/
theorem splitWith_comments {config : Config} (hposix : config.posix = true)
    (hkeyword : config.sourceKeyword = none)
    (hoperators : ∀ c ∈ Rules.quoting, c ∉ config.punctuation.chars) (resolver : Resolver) (text : String) :
    splitWith { config with comments := true } resolver text =
      splitWith { config with comments := false } resolver (withoutComments text) := by
  have hrules : Rules.ofConfig { config with comments := true } =
      (Rules.ofConfig { config with comments := false }).commented := rfl
  have hposixLines : (Rules.ofConfig { config with comments := false }).PosixLines :=
    Rules.posixLines_ofConfig hposix rfl hoperators
  have hwords := hposixLines.wordsFrom_commented .start (Rules.inProgress_start _) text.toList
  have hwith := @splitWith_of_wordsFrom { config with comments := true } hkeyword resolver text _ rfl
  have hwithout :=
    @splitWith_of_wordsFrom { config with comments := false } hkeyword resolver (withoutComments text) _ rfl
  rw [hwith, hwithout, hrules, hwords, withoutComments, String.toList_ofList, count_newline_uncommented]

/-- Number signs stay in quotations and behind a backslash, and a comment may end a word, a run or nothing. -/
theorem splitWith_comments_quoted :
    withoutComments "a'#'\\##b\n\"\\\"#\"|#'\n#" = "a'#'\\#\n\"\\\"#\"|\n" ∧
    splitWith { comments := true, punctuation := .custom "|#" } Resolver.refusing
      "a'#'\\##b\n\"\\\"#\"|#'\n#" = .ok ["a##", "\"#", "|"] := by
  have hwithout : withoutComments "a'#'\\##b\n\"\\\"#\"|#'\n#" = "a'#'\\#\n\"\\\"#\"|\n" := by
    decide +kernel
  have hwords : (Rules.ofConfig { comments := false, punctuation := .custom "|#" }).wordsFrom .start "" false
      "a'#'\\#\n\"\\\"#\"|\n".toList = some ["a##", "\"#", "|"] :=
    Rules.wordsFrom_of_wordsWithin 20 (by decide +kernel)
  have hoperators : ∀ c ∈ Rules.quoting, c ∉ (Punctuation.custom "|#").chars := by
    simp [Rules.quoting, Punctuation.chars, Punctuation.text]
  refine ⟨hwithout, ?_⟩
  have hsplit := @splitWith_comments { punctuation := .custom "|#" } rfl rfl hoperators Resolver.refusing
  exact (hsplit _).trans (hwithout ▸ splitWith_of_wordsFrom rfl Resolver.refusing hwords)

end ShellWords
