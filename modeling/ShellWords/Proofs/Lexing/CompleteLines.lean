import ShellWords.Proofs.Lexing.Words

/-!
# Complete lines

A text whose words are all complete can be followed by another on a new line, and neither changes the words of
the other. The newline ends the token in progress, whatever it is, as the end of the text would
(`Rules.wordsFrom_space_of_closed`), and a comment that the text ends in ends with its line
(`Rules.wordsFrom_afterLine_append`). `Rules.wordsFrom_append_newline` carries that through the text, move by
move, and `splitWith_append_newline` says it of whole texts, with the line at which an unclosed quotation is
reported.

Without POSIX rules a comment does not end the word before it, so there the word would go on in the next line.
-/

namespace ShellWords

namespace Rules

variable {r : Rules} {state : State} {token : String} {quoted : Bool} {c : Char} {cs : List Char}
  {ws : List String}

/-! ## Comments at the end of a text -/

/-- A comment that a text ends in ends with the line, so what follows on a new line is read all the same. -/
theorem wordsFrom_afterLine_append (hspace : r.classes.isWhitespace '\n' = true) (cs ds : List Char) :
    r.wordsFrom .start "" false (Source.afterLine (cs ++ '\n' :: ds)) =
      r.wordsFrom .start "" false (Source.afterLine cs ++ '\n' :: ds) := by
  induction cs with
  | nil =>
    rw [List.nil_append, Source.afterLine_newline, Source.afterLine_nil, List.nil_append,
      wordsFrom_start_space hspace]
  | cons c cs ih =>
    rw [List.cons_append]
    by_cases hc : c = '\n'
    · subst hc
      rw [Source.afterLine_newline, Source.afterLine_newline]
    · rw [Source.afterLine_cons hc, Source.afterLine_cons hc]
      exact ih

/-- Between tokens, what a move leaves of the text is followed by the next line. -/
theorem wordsFrom_rest_append (hspace : r.classes.isWhitespace '\n' = true) (m : Move) (cs ds : List Char) :
    r.wordsFrom .start "" false (m.rest (cs ++ '\n' :: ds)) =
      r.wordsFrom .start "" false (m.rest cs ++ '\n' :: ds) := by
  cases hskips : m.skipsLine with
  | true =>
    rw [m.rest_of_skips hskips, m.rest_of_skips hskips]
    exact wordsFrom_afterLine_append hspace cs ds
  | false => rw [m.rest_of_stays hskips, m.rest_of_stays hskips]

/-- Comments stand between tokens only: they end the token before them, or there are none. -/
def CommentsBetween (r : Rules) : Prop := r.posix = true ∨ ∀ c, r.classes.isComment c = false

/-- So if a line is skipped without a token being complete, there was none in progress. -/
theorem CommentsBetween.state_of_skips {m : Move} (h : r.CommentsBetween)
    (hprogress : r.InProgress state token quoted) (hm : r.move state token quoted c = m)
    (hcomplete : m.complete = false) (hskips : m.skipsLine = true) :
    m.state = .start ∧ m.token = "" ∧ m.quoted = false := by
  subst hm
  cases state with
  | start =>
    obtain ⟨rfl, rfl⟩ := hprogress
    simp only [move, moveFromStart] at *
    grind
  | word =>
    have htoken : r.isToken token quoted = true := hprogress
    simp only [move, moveFromWord, moveAtBoundary, CommentsBetween] at *
    grind
  | punctuation =>
    have htoken := r.isToken_of_ne_empty hprogress.1 quoted
    simp only [move, moveFromPunctuation, moveAtBoundary, CommentsBetween] at *
    grind
  | quote q =>
    simp only [move, moveFromQuote] at hskips
    grind
  | escape resume => cases resume <;> simp [move, moveFromEscape] at hskips
  | done => exact hprogress.elim

/-! ## The next line -/

/-- The words of a text that comes to its end with all tokens complete are followed by those of the next line. -/
theorem wordsFrom_append_newline (hspace : r.classes.isWhitespace '\n' = true) (hcomments : r.CommentsBetween)
    (hprogress : r.InProgress state token quoted) (h : r.wordsFrom state token quoted cs = some ws)
    (ds : List Char) :
    r.wordsFrom state token quoted (cs ++ '\n' :: ds) = (r.wordsFrom .start "" false ds).map (ws ++ ·) := by
  induction state, token, quoted, cs, hprogress using r.inProgress_induction generalizing ws with
  | nil state token quoted hprogress =>
    cases hopen : state.isOpen with
    | true => simp [wordsFrom, hopen] at h
    | false =>
      rw [wordsFrom, hopen] at h
      obtain rfl := Option.some.inj h
      exact wordsFrom_space_of_closed hprogress hopen hspace
  | ends state token quoted c cs m hprogress hm hcomplete hheld ih =>
    rw [wordsFrom_of_ends hm hcomplete hheld, Option.map_eq_some_iff] at h
    obtain ⟨ws, hws, rfl⟩ := h
    rw [List.cons_append, wordsFrom_of_ends hm hcomplete hheld, wordsFrom_rest_append hspace, ih hws]
    simp [Function.comp_def]
  | char state token quoted c cs m hprogress hm hcomplete hheld ih =>
    rw [wordsFrom_of_char hm hcomplete hheld, Option.map_eq_some_iff] at h
    obtain ⟨ws, hws, rfl⟩ := h
    rw [List.cons_append, wordsFrom_of_char hm hcomplete hheld, ← List.cons_append, ih hws]
    simp [Function.comp_def]
  | token state token quoted c cs m hprogress hm hcomplete hheld ih =>
    rw [wordsFrom_of_token hm hcomplete hheld, Option.map_eq_some_iff] at h
    obtain ⟨tail, htail, rfl⟩ := h
    obtain ⟨ws, hws, rfl⟩ := Option.map_eq_some_iff.1 htail
    rw [List.cons_append, wordsFrom_of_token hm hcomplete hheld, ih hws]
    simp [Function.comp_def]
  | goesOn state token quoted c cs m hprogress hm hcomplete hheld hprogress' ih =>
    rw [wordsFrom_of_goesOn hm hcomplete] at h
    have hrest := ih h
    rw [List.cons_append, wordsFrom_of_goesOn hm hcomplete, ← hrest]
    cases hskips : m.skipsLine with
    | true =>
      -- A comment between tokens, whose line may be the last one.
      obtain ⟨hstate, htoken, hquoted⟩ := hcomments.state_of_skips hprogress hm hcomplete hskips
      rw [hstate, htoken, hquoted]
      exact wordsFrom_rest_append hspace m cs ds
    | false => rw [m.rest_of_stays hskips, m.rest_of_stays hskips]

/-- Comments are between tokens under POSIX rules, and where there are none. -/
theorem commentsBetween_ofConfig {config : Config} (h : config.posix = true ∨ config.comments = false) :
    (ofConfig config).CommentsBetween := by
  refine h.imp id ?_
  intro hcomments c
  simp [CharClasses.isComment, ofConfig, CharClasses.ofConfig, hcomments]

end Rules

/-- If the words of a text are all complete, those of a text on a new line follow them. If the text on the new line
ends inside a quotation, the report names the line that this text alone would name, counted from there. -/
theorem splitWith_append_newline {config : Config} (hkeyword : config.sourceKeyword = none)
    (hcomments : config.posix = true ∨ config.comments = false) (resolver : Resolver) {a : String}
    {ws : List String} (ha : splitWith config resolver a = .ok ws) (b : String) :
    (∀ ws', splitWith config resolver b = .ok ws' →
      splitWith config resolver (a ++ "\n" ++ b) = .ok (ws ++ ws')) ∧
    (∀ e, splitWith config resolver b = .error e → ∃ line, e = .unterminatedQuotation none line ∧
      splitWith config resolver (a ++ "\n" ++ b) =
        .error (.unterminatedQuotation none (a.toList.count '\n' + 1 + line))) := by
  have hsplit (text : String) : splitWith config resolver text = _ :=
    Lexer.words_ofText hkeyword resolver text
  have htext : (a ++ "\n" ++ b).toList = a.toList ++ '\n' :: b.toList := by simp
  have hspace : (Rules.ofConfig config).classes.isWhitespace '\n' = true := rfl
  have hwords := (splitWith_eq_ok_iff hkeyword resolver).1 ha
  have happend := Rules.wordsFrom_append_newline hspace (Rules.commentsBetween_ofConfig hcomments)
    (Rules.inProgress_start _) hwords b.toList
  rw [hsplit, hsplit, htext, happend]
  cases (Rules.ofConfig config).wordsFrom .start "" false b.toList with
  | none =>
    refine ⟨by simp [Lexer.outcome], ?_⟩
    intro e he
    obtain rfl := Except.error.inj he
    refine ⟨_, rfl, ?_⟩
    rw [List.count_append, List.count_cons_self]
    simp only [Lexer.outcome, Option.map_none, Except.error.injEq, LexError.unterminatedQuotation.injEq,
      true_and]
    omega
  | some ws' => simp [Lexer.outcome]

/-- An operator run ends before a comment, and the comment with its line. A quotation that is opened on the next
line is reported there. -/
theorem splitWith_append_newline_comment :
    ({ comments := true, punctuation := .shell } : Config).sourceKeyword = none ∧
    splitWith { comments := true, punctuation := .shell } Resolver.refusing "x ''|#y" = .ok ["x", "", "|"] ∧
    splitWith { comments := true, punctuation := .shell } Resolver.refusing "x ''|#y\nz" =
      .ok ["x", "", "|", "z"] ∧
    splitWith { comments := true, punctuation := .shell } Resolver.refusing "x ''|#y\n'z" =
      .error (.unterminatedQuotation none 2) := by
  have hfirst : (Rules.ofConfig { comments := true, punctuation := .shell }).wordsFrom .start "" false
      "x ''|#y".toList = some ["x", "", "|"] := Rules.wordsFrom_of_wordsWithin 10 (by decide +kernel)
  have hlast : (Rules.ofConfig { comments := true, punctuation := .shell }).wordsFrom .start "" false
      "z".toList = some ["z"] := Rules.wordsFrom_of_wordsWithin 5 (by decide +kernel)
  have hopen : (Rules.ofConfig { comments := true, punctuation := .shell }).wordsFrom .start "" false
      "'z".toList = none := Rules.wordsFrom_of_wordsWithin 5 (by decide +kernel)
  have hsplit := splitWith_of_wordsFrom rfl Resolver.refusing hfirst
  obtain ⟨hcomplete, -⟩ := splitWith_append_newline rfl (.inl rfl) Resolver.refusing hsplit "z"
  obtain ⟨-, hfails⟩ := splitWith_append_newline rfl (.inl rfl) Resolver.refusing hsplit "'z"
  obtain ⟨line, hline, hreport⟩ := hfails _ (splitWith_of_wordsFrom rfl _ hopen)
  obtain ⟨-, rfl⟩ := LexError.unterminatedQuotation.inj hline
  exact ⟨rfl, hsplit, hcomplete _ (splitWith_of_wordsFrom rfl _ hlast), hreport⟩

end ShellWords
