import ShellWords.Proofs.Lexing.Alike
import ShellWords.Proofs.Lexing.Text

/-!
# Words and moves

`Rules.wordsFrom` by what a move does: it completes no token and the text goes on, or it completes one and
the character is used up, read again, or a token of its own. A proof about the words of a text names the move
and cites the lemma for its kind, and one about all texts goes by `Rules.inProgress_induction`, which has a case
for each kind. The words of a given text are what `Rules.wordsWithin` finds.

A lexer with a keyword returns the same words, unless the keyword is one of them
(`Lexer.words_ofText_of_absent`).
-/

namespace ShellWords

/-- A character added to a token is the first of those added to it. -/
theorem push_append_ofList (token : String) (c : Char) (cs : List Char) :
    token.push c ++ String.ofList cs = token ++ String.ofList (c :: cs) := by
  rw [← String.toList_inj]
  simp

/-- What a move leaves of the text behind its character. -/
def Move.rest (m : Move) (cs : List Char) : List Char := if m.skipsLine then Source.afterLine cs else cs

/-- A move that stays on the line leaves the text. -/
theorem Move.rest_of_stays {m : Move} (h : m.skipsLine = false) (cs : List Char) : m.rest cs = cs := by
  rw [rest, h]
  rfl

/-- A move that skips the line leaves what is behind it. -/
theorem Move.rest_of_skips {m : Move} (h : m.skipsLine = true) (cs : List Char) :
    m.rest cs = Source.afterLine cs := by
  rw [rest, if_pos h]

/-- What a move leaves is no longer than the text. -/
theorem Move.length_rest_le (m : Move) (cs : List Char) : (m.rest cs).length ≤ cs.length := by
  unfold rest
  split
  · exact Source.length_afterLine_le cs
  · exact Nat.le_refl _

namespace Rules

variable {r : Rules} {state : State} {token : String} {quoted : Bool} {c : Char} {cs : List Char}

/-- The words of a text that begins with a character are those behind a move on it. -/
theorem wordsFrom_cons (r : Rules) (state : State) (token : String) (quoted : Bool) (c : Char)
    (cs : List Char) :
    r.wordsFrom state token quoted (c :: cs) =
      let m := r.move state token quoted c
      let rest := if m.skipsLine then Source.afterLine cs else cs
      if m.complete then
        (match m.held with
          | .nothing => r.wordsFrom .start "" false rest
          | .char => r.wordsFrom .start "" false (c :: cs)
          | .token => (r.wordsFrom .start "" false cs).map (String.singleton c :: ·)).map (m.token :: ·)
      else r.wordsFrom m.state m.token m.quoted rest := by
  rw [wordsFrom]
  dsimp only
  congr 2
  split <;> rename_i hheld <;> rw [hheld]

/-- A move that completes no token is followed by the rest of the text. -/
theorem wordsFrom_of_continues {m : Move} (hm : r.move state token quoted c = m)
    (hcomplete : m.complete = false) (hskips : m.skipsLine = false) :
    r.wordsFrom state token quoted (c :: cs) = r.wordsFrom m.state m.token m.quoted cs := by
  rw [wordsFrom_cons, hm]
  dsimp only
  rw [hcomplete, hskips]
  rfl

/-- A move that completes no token and skips a line is followed by what comes after the line. -/
theorem wordsFrom_of_skips {m : Move} (hm : r.move state token quoted c = m)
    (hcomplete : m.complete = false) (hskips : m.skipsLine = true) :
    r.wordsFrom state token quoted (c :: cs) =
      r.wordsFrom m.state m.token m.quoted (Source.afterLine cs) := by
  rw [wordsFrom_cons, hm]
  dsimp only
  rw [hcomplete, hskips]
  rfl

/-- A move that completes a token and uses the character up. -/
theorem wordsFrom_of_completes {m : Move} (hm : r.move state token quoted c = m)
    (hcomplete : m.complete = true) (hskips : m.skipsLine = false) (hheld : m.held = .nothing) :
    r.wordsFrom state token quoted (c :: cs) =
      (r.wordsFrom .start "" false cs).map (m.token :: ·) := by
  rw [wordsFrom_cons, hm]
  dsimp only
  rw [hcomplete, hskips, hheld]
  rfl

/-- A move that completes a token and leaves the character to be read again. -/
theorem wordsFrom_of_char {m : Move} (hm : r.move state token quoted c = m)
    (hcomplete : m.complete = true) (hheld : m.held = .char) :
    r.wordsFrom state token quoted (c :: cs) =
      (r.wordsFrom .start "" false (c :: cs)).map (m.token :: ·) := by
  rw [wordsFrom_cons, hm]
  dsimp only
  rw [hcomplete, hheld]
  rfl

/-- A move that completes a token and makes a token of the character. -/
theorem wordsFrom_of_token {m : Move} (hm : r.move state token quoted c = m)
    (hcomplete : m.complete = true) (hheld : m.held = .token) :
    r.wordsFrom state token quoted (c :: cs) =
      ((r.wordsFrom .start "" false cs).map (String.singleton c :: ·)).map (m.token :: ·) := by
  rw [wordsFrom_cons, hm]
  dsimp only
  rw [hcomplete, hheld]
  rfl

/-- A move that completes a token and uses its character up, and perhaps the rest of the line. -/
theorem wordsFrom_of_ends {m : Move} (hm : r.move state token quoted c = m) (hcomplete : m.complete = true)
    (hheld : m.held = .nothing) :
    r.wordsFrom state token quoted (c :: cs) =
      (r.wordsFrom .start "" false (m.rest cs)).map (m.token :: ·) := by
  rw [wordsFrom_cons, hm]
  dsimp only
  rw [hcomplete, hheld]
  rfl

/-- A move that completes no token is followed by what it leaves of the text. -/
theorem wordsFrom_of_goesOn {m : Move} (hm : r.move state token quoted c = m) (hcomplete : m.complete = false) :
    r.wordsFrom state token quoted (c :: cs) = r.wordsFrom m.state m.token m.quoted (m.rest cs) := by
  rw [wordsFrom_cons, hm]
  dsimp only
  rw [hcomplete]
  rfl

/-- Characters that extend the token in this state are taken one by one. -/
theorem wordsFrom_append_of_takes {text : List Char}
    (htakes : ∀ token, ∀ c ∈ text, r.move state token quoted c = { state, token := token.push c, quoted })
    (cs : List Char) :
    r.wordsFrom state token quoted (text ++ cs) = r.wordsFrom state (token ++ String.ofList text) quoted cs := by
  induction text generalizing token with
  | nil => rw [List.nil_append, String.ofList_nil, String.append_empty]
  | cons c text ih =>
    have hfirst := htakes token c List.mem_cons_self
    have hrest (token : String) : ∀ c ∈ text, _ := fun c hc => htakes token c (List.mem_cons_of_mem _ hc)
    rw [List.cons_append, wordsFrom_of_continues hfirst rfl rfl, ih hrest, push_append_ofList]

/-- A token ends with the text, unless something is left open. -/
theorem wordsFrom_nil_of_isToken (hopen : state.isOpen = false)
    (htoken : r.isToken token quoted = true) :
    r.wordsFrom state token quoted [] = (r.wordsFrom .start "" false []).map (token :: ·) := by
  have hempty : r.isToken "" false = false := by simp [isToken]
  rw [wordsFrom, wordsFrom, hopen, htoken, hempty]
  rfl

/-- White space between items is passed over. -/
theorem wordsFrom_start_space (h : r.classes.isWhitespace c = true) :
    r.wordsFrom .start "" false (c :: cs) = r.wordsFrom .start "" false cs := by
  refine wordsFrom_of_continues (m := { state := .start, token := "", quoted := false }) ?_ rfl rfl
  simp [move, moveFromStart, h, isToken]

/-- Behind a word it completes the word. -/
theorem wordsFrom_word_space (hspace : r.classes.isWhitespace c = true) (htoken : r.isToken token quoted = true) :
    r.wordsFrom .word token quoted (c :: cs) = (r.wordsFrom .start "" false cs).map (token :: ·) := by
  refine wordsFrom_of_completes (m := { state := .start, token, quoted, complete := true }) ?_ rfl rfl rfl
  simp [move, moveFromWord, moveAtBoundary, hspace, htoken]

/-- Wherever no quotation is open, white space ends the token in progress, if it is one. -/
theorem wordsFrom_space_of_closed (hprogress : r.InProgress state token quoted) (hopen : state.isOpen = false)
    (hspace : r.classes.isWhitespace c = true) :
    r.wordsFrom state token quoted (c :: cs) =
      (r.wordsFrom .start "" false cs).map ((if r.isToken token quoted then [token] else []) ++ ·) := by
  cases state with
  | start =>
    obtain ⟨rfl, rfl⟩ := hprogress
    have hempty : r.isToken "" false = false := by simp [isToken]
    rw [wordsFrom_start_space hspace, hempty]
    simp
  | word =>
    have htoken : r.isToken token quoted = true := hprogress
    rw [wordsFrom_word_space hspace htoken, if_pos htoken]
    rfl
  | punctuation =>
    have htoken := r.isToken_of_ne_empty hprogress.1 quoted
    have hmove : r.move .punctuation token quoted c = _ := r.move_break (.inr rfl) hspace
    rw [wordsFrom_of_completes hmove htoken rfl rfl, if_pos htoken]
    rfl
  | quote q => cases hopen
  | escape resume => cases hopen
  | done => exact hprogress.elim

/-- A comment between items is passed over with its line. -/
theorem wordsFrom_start_comment (hspace : r.classes.isWhitespace c = false)
    (h : r.classes.isComment c = true) :
    r.wordsFrom .start "" false (c :: cs) = r.wordsFrom .start "" false (Source.afterLine cs) := by
  refine wordsFrom_of_skips
    (m := { state := .start, token := "", quoted := false, skipsLine := true }) ?_ rfl rfl
  simp [move, moveFromStart, hspace, h]

/-- A text without items has no words. -/
theorem wordsFrom_start_nil : r.wordsFrom .start "" false [] = some [] := by
  simp [wordsFrom, State.isOpen, isToken]

/-- An escaped character belongs to the word. -/
theorem wordsFrom_escape_word :
    r.wordsFrom (.escape .word) token quoted (c :: cs) =
      r.wordsFrom .word (token.push c) quoted cs :=
  wordsFrom_of_continues (m := { state := .word, token := token.push c, quoted }) rfl rfl rfl

/-- What is said of a text with a token in progress, or with none between tokens, can be proved by the kinds of
moves on its first character, given that it holds of what the move leaves. -/
theorem inProgress_induction (r : Rules)
    {motive : (state : State) → (token : String) → (quoted : Bool) → List Char →
      r.InProgress state token quoted → Prop}
    (nil : ∀ state token quoted h, motive state token quoted [] h)
    (ends : ∀ state token quoted c cs m h, r.move state token quoted c = m → m.complete = true →
      m.held = .nothing → motive .start "" false (m.rest cs) r.inProgress_start →
        motive state token quoted (c :: cs) h)
    (char : ∀ state token quoted c cs m h, r.move state token quoted c = m → m.complete = true →
      m.held = .char → motive .start "" false (c :: cs) r.inProgress_start →
        motive state token quoted (c :: cs) h)
    (token : ∀ state token quoted c cs m h, r.move state token quoted c = m → m.complete = true →
      m.held = .token → motive .start "" false cs r.inProgress_start →
        motive state token quoted (c :: cs) h)
    (goesOn : ∀ state token quoted c cs m h, r.move state token quoted c = m → m.complete = false →
      m.held = .nothing → (hprogress : r.InProgress m.state m.token m.quoted) →
        motive m.state m.token m.quoted (m.rest cs) hprogress → motive state token quoted (c :: cs) h)
    (state : State) (word : String) (quoted : Bool) (cs : List Char) (h : r.InProgress state word quoted) :
    motive state word quoted cs h := by
  match cs with
  | [] => exact nil state word quoted h
  | c :: cs =>
    have hrest := (r.move state word quoted c).length_rest_le cs
    rcases r.move_progress h c with ⟨hcomplete, -, -, -, -⟩ | ⟨hcomplete, hheld, hprogress⟩
    · cases hheld : (r.move state word quoted c).held with
      | nothing =>
        exact ends _ _ _ _ _ _ h rfl hcomplete hheld (inProgress_induction r nil ends char token goesOn ..)
      | char =>
        have hrank : state.rank = 2 := (r.move_held state word quoted c (by simp [hheld])).1
        exact char _ _ _ _ _ _ h rfl hcomplete hheld (inProgress_induction r nil ends char token goesOn ..)
      | token =>
        exact token _ _ _ _ _ _ h rfl hcomplete hheld (inProgress_induction r nil ends char token goesOn ..)
    · exact goesOn _ _ _ _ _ _ h rfl hcomplete hheld hprogress
        (inProgress_induction r nil ends char token goesOn ..)
termination_by (cs.length, state.rank)
decreasing_by
  · exact .left _ _ (Nat.lt_succ_of_le hrest)
  -- The character has ended a token in progress, and now starts one.
  · rw [hrank]
    exact .right _ (by decide)
  · exact .left _ _ (Nat.lt_succ_self _)
  · exact .left _ _ (Nat.lt_succ_of_le hrest)

/-- The words that are found within so many moves. -/
def wordsWithin (r : Rules) : Nat → State → String → Bool → List Char → Option (Option (List String))
  | 0, _, _, _, _ => none
  | _ + 1, state, token, quoted, [] =>
    some (if state.isOpen then none else some (if r.isToken token quoted then [token] else []))
  | n + 1, state, token, quoted, c :: cs =>
    let m := r.move state token quoted c
    if m.complete then
      (match m.held with
        | .nothing => r.wordsWithin n .start "" false (m.rest cs)
        | .char => r.wordsWithin n .start "" false (c :: cs)
        | .token => (r.wordsWithin n .start "" false cs).map (Option.map (String.singleton c :: ·))).map
          (Option.map (m.token :: ·))
    else r.wordsWithin n m.state m.token m.quoted (m.rest cs)

/-- What is found within some moves are all words. -/
theorem wordsFrom_of_wordsWithin (n : Nat) {ws : Option (List String)}
    (h : r.wordsWithin n state token quoted cs = some ws) : r.wordsFrom state token quoted cs = ws := by
  induction n generalizing state token quoted cs ws with
  | zero => cases h
  | succ n ih =>
    cases cs with
    | nil =>
      rw [wordsFrom]
      exact Option.some.inj h
    | cons c cs =>
      unfold wordsWithin at h
      dsimp only at h
      cases hcomplete : (r.move state token quoted c).complete with
      | false =>
        rw [hcomplete] at h
        rw [wordsFrom_of_goesOn rfl hcomplete]
        exact ih h
      | true =>
        rw [hcomplete, if_pos rfl] at h
        obtain ⟨ws', hbehind, rfl⟩ := Option.map_eq_some_iff.1 h
        cases hheld : (r.move state token quoted c).held with
        | nothing =>
          rw [hheld] at hbehind
          rw [wordsFrom_of_ends rfl hcomplete hheld, ih hbehind]
        | char =>
          rw [hheld] at hbehind
          rw [wordsFrom_of_char rfl hcomplete hheld, ih hbehind]
        | token =>
          rw [hheld] at hbehind
          obtain ⟨ws'', hbehind', rfl⟩ := Option.map_eq_some_iff.1 hbehind
          rw [wordsFrom_of_token rfl hcomplete hheld, ih hbehind']

end Rules

/-- Without a keyword, a text is split into the words that the automaton finds in it. -/
theorem splitWith_of_wordsFrom {config : Config} (hkeyword : config.sourceKeyword = none) (resolver : Resolver)
    {text : String} {ws : Option (List String)}
    (h : (Rules.ofConfig config).wordsFrom .start "" false text.toList = ws) :
    splitWith config resolver text = Lexer.outcome none (1 + text.toList.count '\n') ws := by
  rw [← h]
  exact Lexer.words_ofText hkeyword resolver text

/-- A text is split into the words that the rules give, and fails where they give none. -/
theorem splitWith_eq_ok_iff {config : Config} (hkeyword : config.sourceKeyword = none) (resolver : Resolver)
    {text : String} {ws : List String} :
    splitWith config resolver text = .ok ws ↔
      (Rules.ofConfig config).wordsFrom .start "" false text.toList = some ws := by
  rw [splitWith_of_wordsFrom hkeyword resolver rfl]
  cases (Rules.ofConfig config).wordsFrom .start "" false text.toList <;> simp [Lexer.outcome]

/-! ## A keyword that is not met -/

namespace Lexer

variable {l m l' : Lexer} {keyword : Option String}

/-- There are no words if the input ends at once. -/
theorem words_eq_nil_iff : l.words = .ok [] ↔ ∃ l', l.nextToken = (.ok none, l') := by
  rw [words_eq]
  rcases l.nextToken with ⟨e | _ | token, l'⟩
  · simp
  · simp
  · cases hrest : l'.words <;> simp [Except.map, hrest]

/-- The first word is the next token, and the others are the words behind it. -/
theorem words_eq_cons_iff {w : String} {ws : List String} :
    l.words = .ok (w :: ws) ↔ ∃ l', l.nextToken = (.ok (some w), l') ∧ l'.words = .ok ws := by
  rw [words_eq]
  rcases l.nextToken with ⟨e | _ | token, l'⟩
  · simp
  · simp
  · cases hrest : l'.words with
    | error e =>
      simp only [Except.map, hrest, reduceCtorEq, false_iff]
      rintro ⟨l'', hnext, hrest'⟩
      obtain ⟨-, rfl⟩ := Prod.mk.inj hnext
      rw [hrest] at hrest'
      cases hrest'
    | ok ws' =>
      simp only [Except.map, hrest, Except.ok.injEq, List.cons.injEq]
      constructor
      · rintro ⟨rfl, rfl⟩
        exact ⟨l', rfl, hrest⟩
      · rintro ⟨l'', hnext, hrest'⟩
        obtain ⟨htoken, rfl⟩ := Prod.mk.inj hnext
        rw [hrest] at hrest'
        exact ⟨by simpa using htoken, Except.ok.inj hrest'⟩

/-- Two lexers stand at the same place of their only source. The first has no keyword, and the second has this
one. -/
structure Keyed (keyword : Option String) (l m : Lexer) : Prop where
  alike : Alike [] [] l m
  suspended : l.suspended = [] ∧ m.suspended = []
  keyword : l.config.sourceKeyword = none ∧ m.config.sourceKeyword = keyword

/-- Whatever they tell, they stand at the same place. -/
theorem Keyed.notify (h : Keyed keyword l m) (e f : Event) : Keyed keyword (l.notify e) (m.notify f) :=
  ⟨h.alike.notify e f, h.suspended, h.keyword⟩

/-- Both read the same raw token. -/
theorem Keyed.readToken (h : Keyed keyword l m) {x : Except LexError (Option String)}
    (hread : l.readToken = (x, l')) : ∃ m', m.readToken = (x, m') ∧ Keyed keyword l' m' := by
  obtain ⟨m', hread', halike⟩ := h.alike.readToken hread
  have hsame := SameStack.of_readToken hread
  have hsame' := SameStack.of_readToken hread'
  refine ⟨m', hread', halike, ?_, ?_⟩
  · rw [hsame.suspended, hsame'.suspended]
    exact h.suspended
  · rw [hsame.config, hsame'.config]
    exact h.keyword

/-- Both return the same, unless it is the keyword. -/
theorem Keyed.nextToken (h : Keyed keyword l m) {x : Except LexError (Option String)}
    (hnext : l.nextToken = (x, l')) (habsent : ∀ token, x = .ok (some token) → keyword ≠ some token) :
    ∃ m', m.nextToken = (x, m') ∧ Keyed keyword l' m' := by
  have hsame : m.waiting = l.waiting := by
    obtain ⟨put, hl, hm⟩ := h.alike.waiting
    rw [hl, hm]
  cases hwaiting : l.waiting with
  | cons token rest =>
    rw [nextToken_of_waiting hwaiting] at hnext
    obtain ⟨rfl, rfl⟩ := Prod.mk.inj hnext
    refine ⟨_, nextToken_of_waiting (hsame.trans hwaiting), Keyed.notify ?_ _ _⟩
    have halike := h.alike
    exact ⟨⟨halike.rules, halike.source, halike.state, halike.token, halike.pending, rest, by simp, by simp⟩,
      h.suspended, h.keyword⟩
  | nil =>
    rw [nextToken_of_no_waiting hwaiting] at hnext
    rw [nextToken_of_no_waiting (hsame.trans hwaiting)]
    rcases hraw : l.readToken with ⟨e | _ | token, read⟩
    · obtain ⟨read', hraw', hread⟩ := h.readToken hraw
      rw [search_of_error hraw] at hnext
      obtain ⟨rfl, rfl⟩ := Prod.mk.inj hnext
      exact ⟨read', search_of_error hraw', hread⟩
    · obtain ⟨read', hraw', hread⟩ := h.readToken hraw
      rw [search_of_ended hraw hread.suspended.1] at hnext
      obtain ⟨rfl, rfl⟩ := Prod.mk.inj hnext
      refine ⟨_, search_of_ended hraw' hread.suspended.2, Keyed.notify ?_ _ _⟩
      exact ⟨hread.alike.setState .done, by simpa using hread.suspended, by simpa using hread.keyword⟩
    · obtain ⟨read', hraw', hread⟩ := h.readToken hraw
      rw [search_of_token hraw (by simp [hread.keyword.1])] at hnext
      obtain ⟨rfl, rfl⟩ := Prod.mk.inj hnext
      have hkey : read'.config.sourceKeyword ≠ some token := by
        rw [hread.keyword.2]
        exact habsent token rfl
      exact ⟨_, search_of_token hraw' hkey, hread.notify _ _⟩

/-- Both have the same words, unless one of these is the keyword. -/
theorem Keyed.words {ws : List String} (h : Keyed keyword l m) (habsent : ∀ w ∈ ws, keyword ≠ some w)
    (hwords : l.words = .ok ws) : m.words = .ok ws := by
  induction ws generalizing l m with
  | nil =>
    obtain ⟨l', hnext⟩ := words_eq_nil_iff.1 hwords
    obtain ⟨m', hnext', -⟩ := h.nextToken hnext (by simp)
    exact words_eq_nil_iff.2 ⟨m', hnext'⟩
  | cons w ws ih =>
    rw [List.forall_mem_cons] at habsent
    obtain ⟨l', hnext, hrest⟩ := words_eq_cons_iff.1 hwords
    obtain ⟨m', hnext', hkeyed⟩ := h.nextToken hnext (by simpa using habsent.1)
    exact words_eq_cons_iff.2 ⟨m', hnext', ih hkeyed habsent.2 hrest⟩

/-- The words of a text are those that the automaton finds in it, whatever word includes files, as long as that
is none of them. -/
theorem words_ofText_of_absent {config : Config} {text : String} {ws : List String}
    (hwords : (Rules.ofConfig config).wordsFrom .start "" false text.toList = some ws)
    (habsent : ∀ w ∈ ws, config.sourceKeyword ≠ some w) (resolver : Resolver) :
    (ofText config resolver text).words = .ok ws := by
  have hkeyed : Keyed config.sourceKeyword (ofText { config with sourceKeyword := none } resolver text)
      (ofText config resolver text) :=
    ⟨⟨rfl, rfl, rfl, rfl, rfl, [], rfl, rfl⟩, ⟨rfl, rfl⟩, rfl, rfl⟩
  refine hkeyed.words habsent ?_
  have hplain : Rules.ofConfig { config with sourceKeyword := none } = Rules.ofConfig config := rfl
  rw [words_ofText rfl, hplain, hwords]
  rfl

end Lexer
end ShellWords
