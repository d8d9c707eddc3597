import Mathlib.Tactic.SplitIfs
import ShellWords.Lexer.Automaton

/-!
# The token in progress

A raw token is read from between tokens, with nothing in progress. What is in progress from then on
depends on the state (`Rules.InProgress`): in a word there is something to return, in a run of operators
there is a character. Every move keeps that or completes a token (`Rules.move_progress`), so a token is
never completed without being one, and no character is held back while the token goes on.

Under all options most characters are words or operators and nothing else (`Rules.unmarked_of_notMem`).
-/

namespace ShellWords.Rules

variable (r : Rules)

/-- What the token in progress may be in each state, in a call that has begun between tokens. -/
def InProgress (state : State) (token : String) (quoted : Bool) : Prop :=
  match state with
  | .start => token = "" ∧ quoted = false
  | .word => r.isToken token quoted = true
  | .punctuation => token ≠ "" ∧ r.classes.punctuationActive = true
  -- Without POSIX rules the opening quote is part of the token.
  | .quote _ => r.posix = true ∨ token ≠ ""
  | .escape _ => r.posix = true
  | .done => False

/-- Between tokens, with nothing read yet, a token is in progress that has no characters. -/
theorem inProgress_start : r.InProgress .start "" false := ⟨rfl, rfl⟩

/-- With a token in progress the source has not ended. -/
theorem ne_done_of_inProgress {state : State} {token : String} {quoted : Bool}
    (h : r.InProgress state token quoted) : state ≠ .done := by
  rintro rfl
  exact h

/-- A token with characters in it is one. -/
theorem isToken_of_ne_empty {token : String} (h : token ≠ "") (quoted : Bool) :
    r.isToken token quoted = true := by
  simp [isToken, h]

/-- With a character added there is a token. -/
theorem isToken_push (token : String) (c : Char) (quoted : Bool) :
    r.isToken (token.push c) quoted = true := by
  simp [isToken]

/-- A single character is a token. -/
theorem isToken_singleton (c : Char) (quoted : Bool) :
    r.isToken (String.singleton c) quoted = true := by
  simp [isToken]

/-- What a move holds back: only with operators a character to be read again, which is never one that
every token ends at, and only without operators, where words end early, a character that is a token. -/
def Holds (c : Char) : Held → Prop
  | .nothing => True
  | .char => r.classes.punctuationActive = true ∧ r.classes.isWhitespace c = false ∧
      r.classes.isComment c = false
  | .token => r.classes.punctuationActive = false ∧ r.whitespaceSplit = false

/-- A move out of a token in progress completes it, or keeps a token in progress. -/
inductive Progress (c : Char) (m : Move) : Prop where
  /-- The token is complete, and the automaton is between tokens. A character is only held back on the
  line that it stands in. -/
  | completes (complete : m.complete = true) (state : m.state = .start)
      (isToken : r.isToken m.token m.quoted = true)
      (skips : m.held ≠ .nothing → m.skipsLine = false) (holds : r.Holds c m.held)
  /-- The token goes on, and the character is used up. -/
  | continues (complete : m.complete = false) (held : m.held = .nothing)
      (inProgress : r.InProgress m.state m.token m.quoted)

/-- Where there is an operator, there are operators. -/
theorem punctuationActive_of_isPunctuation {c : Char} (h : r.classes.isPunctuation c = true) :
    r.classes.punctuationActive = true := by
  have hmem : c ∈ r.classes.punctuation := by simpa [CharClasses.isPunctuation] using h
  simpa [CharClasses.punctuationActive] using List.ne_nil_of_mem hmem

/-- Between tokens, a move starts a token or none, and a character on its own is a token at once. -/
theorem moveFromStart_progress (c : Char) : r.Progress c (r.moveFromStart "" false c) := by
  unfold moveFromStart
  split_ifs with hspace hcomment hescape hword hpunct hquote hposix hsplit
  · exact .continues (by simp [isToken]) rfl r.inProgress_start
  · exact .continues rfl rfl r.inProgress_start
  · rw [Bool.and_eq_true] at hescape
    exact .continues rfl rfl hescape.1
  · exact .continues rfl rfl (r.isToken_singleton ..)
  · exact .continues rfl rfl ⟨by simp, r.punctuationActive_of_isPunctuation hpunct⟩
  · exact .continues rfl rfl (.inl hposix)
  · exact .continues rfl rfl (.inr (by simp))
  · exact .continues rfl rfl (r.isToken_singleton ..)
  · exact .completes rfl rfl (r.isToken_singleton ..) (fun _ => rfl) trivial

/-- In a quotation, a move extends the token; without POSIX rules the closing quote completes it. -/
theorem moveFromQuote_progress (q : Char) (token : String) (c : Char) :
    r.Progress c (r.moveFromQuote q token c) := by
  unfold moveFromQuote
  split_ifs with hclose hposix hescape
  · exact .continues rfl rfl (by simp [InProgress, isToken, hposix])
  · exact .completes rfl rfl (r.isToken_push ..) (fun _ => rfl) trivial
  · rw [Bool.and_eq_true, Bool.and_eq_true] at hescape
    exact .continues rfl rfl hescape.1.1
  · exact .continues rfl rfl (.inr (by simp))

/-- After an escape character, a move extends the token. -/
theorem moveFromEscape_progress {resume : Resume} {token : String} {quoted : Bool} (c : Char)
    (hposix : r.posix = true) : r.Progress c (r.moveFromEscape resume token quoted c) := by
  cases resume with
  | word => exact .continues rfl rfl (r.isToken_push ..)
  | quote q => exact .continues rfl rfl (.inl hposix)

/-- In a word or a run, white space and a comment keep or complete a token, and any other character does
what it is judged to do. -/
theorem moveAtBoundary_progress {state : State} {token : String} {quoted : Bool} {c : Char}
    {inside : Move} (htoken : r.isToken token quoted = true)
    (hstate : r.InProgress state token quoted)
    (hinside : r.classes.isWhitespace c = false → r.classes.isComment c = false →
      r.Progress c inside) :
    r.Progress c (r.moveAtBoundary state token quoted c inside) := by
  unfold moveAtBoundary
  split_ifs with hspace hcomment hposix
  · exact .completes htoken rfl htoken (fun _ => rfl) trivial
  · exact .completes htoken rfl htoken (fun h => (h rfl).elim) trivial
  · exact .continues rfl rfl hstate
  · exact hinside (by simpa using hspace) (by simpa using hcomment)

/-- Every move out of a token in progress completes it, or keeps a token in progress. -/
theorem move_progress {state : State} {token : String} {quoted : Bool}
    (h : r.InProgress state token quoted) (c : Char) :
    r.Progress c (r.move state token quoted c) := by
  cases state with
  | start =>
    obtain ⟨rfl, rfl⟩ := h
    exact r.moveFromStart_progress c
  | word =>
    refine r.moveAtBoundary_progress h h ?_
    intro hspace hcomment
    split_ifs with hquote hescape hextends hactive
    · rw [Bool.and_eq_true] at hquote
      exact .continues rfl rfl (.inl hquote.1)
    · rw [Bool.and_eq_true] at hescape
      exact .continues rfl rfl hescape.1
    · exact .continues rfl rfl (r.isToken_push ..)
    · exact .completes h rfl h (fun _ => rfl) ⟨hactive, hspace, hcomment⟩
    · refine .completes h rfl h (fun _ => rfl) ⟨by simpa using hactive, ?_⟩
      have hnone : r.classes.isPunctuation c = false := by
        rw [← Bool.not_eq_true]
        intro hpunct
        exact hactive (r.punctuationActive_of_isPunctuation hpunct)
      simp only [hnone, Bool.or_eq_true, Bool.and_eq_true, not_or, not_and] at hextends
      simpa using hextends.2
  | punctuation =>
    have htoken := r.isToken_of_ne_empty h.1 quoted
    refine r.moveAtBoundary_progress htoken h ?_
    intro hspace hcomment
    split_ifs with hpunct
    · exact .continues rfl rfl ⟨by simp, h.2⟩
    · exact .completes rfl rfl htoken (fun _ => rfl) ⟨h.2, hspace, hcomment⟩
  | quote q => exact r.moveFromQuote_progress q token c
  | escape resume => exact r.moveFromEscape_progress c h
  | done => exact h.elim

/-- White space ends a word and a run of operators. -/
theorem move_break {state : State} {token : String} {quoted : Bool} {c : Char}
    (hstate : state = .word ∨ state = .punctuation) (hspace : r.classes.isWhitespace c = true) :
    r.move state token quoted c =
      { state := .start, token, quoted, complete := r.isToken token quoted } := by
  rcases hstate with rfl | rfl
  · simp [move, moveFromWord, moveAtBoundary, hspace]
  · simp [move, moveFromPunctuation, moveAtBoundary, hspace]

/-! ## Characters without marks -/

/-- The characters that may have a meaning besides being a word or an operator. -/
def marks : List Char := [' ', '\t', '\r', '\n', '#', '\'', '"', '\\']

/-- A character that is no break, neither quotes nor escapes, and so opens nothing. -/
structure Unmarked (c : Char) : Prop where
  space : r.classes.isWhitespace c = false
  comment : r.classes.isComment c = false
  quote : r.classes.isQuote c = false
  escape : r.classes.isEscape c = false

/-- Only the number sign starts a comment. -/
theorem isComment_of_ne (config : Config) {c : Char} (h : c ≠ '#') :
    (ofConfig config).classes.isComment c = false := by
  show (if config.comments then ['#'] else []).contains c = false
  cases config.comments <;> simp [h]

/-- Whatever the options are, no other characters have marks. -/
theorem unmarked_of_notMem (config : Config) {c : Char} (h : c ∉ marks) : (ofConfig config).Unmarked c := by
  simp only [marks, List.mem_cons, List.not_mem_nil, or_false, not_or] at h
  obtain ⟨hblank, htab, hreturn, hnewline, hnumber, hsingle, hdouble, hbackslash⟩ := h
  refine ⟨?_, isComment_of_ne config hnumber, ?_, ?_⟩
  · simp [CharClasses.isWhitespace, ofConfig, CharClasses.ofConfig, hblank, htab, hreturn, hnewline]
  · simp [CharClasses.isQuote, ofConfig, CharClasses.ofConfig, hsingle, hdouble]
  · simp [CharClasses.isEscape, ofConfig, CharClasses.ofConfig, hbackslash]

end ShellWords.Rules
