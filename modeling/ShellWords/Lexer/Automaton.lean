import ShellWords.CharClasses
import ShellWords.Lexer.State

/-!
# The automaton

What the lexer does with one character. `Rules.move` takes the state, the token in progress and whether
a quotation has been seen in it, and answers with a `Move`: the next state and token, whether the token
is complete, and what becomes of a character that has ended the token without belonging to it. The order
of the tests matters where a character is in two classes, as a custom operator may be.
-/

namespace ShellWords

/-- What becomes of a character that has been read. -/
inductive Held where
  /-- It is used up. -/
  | nothing
  /-- It is to be read again. -/
  | char
  /-- It is a token of its own, to be returned next. -/
  | token
  deriving DecidableEq, Repr

/-- What the automaton does with a character. -/
structure Move where
  /-- The state that it goes to. -/
  state : State
  /-- The token in progress. -/
  token : String
  /-- Whether a quotation has been seen in the token. -/
  quoted : Bool
  /-- Whether the rest of the line is discarded first. -/
  skipsLine : Bool := false
  /-- What becomes of the character. -/
  held : Held := .nothing
  /-- Whether the token is complete. -/
  complete : Bool := false
  deriving DecidableEq, Repr

namespace Rules

variable (r : Rules)

/-- Whether a token is there that may be complete: it has characters, or it is an empty quotation. -/
def isToken (token : String) (quoted : Bool) : Bool := !token.isEmpty || (r.posix && quoted)

/-- Between tokens, a character is skipped, starts a comment, or starts a token of its class. -/
def moveFromStart (token : String) (quoted : Bool) (c : Char) : Move :=
  -- A source may have been left in the middle of a token, so white space may complete one.
  if r.classes.isWhitespace c then
    { state := .start, token, quoted, complete := r.isToken token quoted }
  else if r.classes.isComment c then
    { state := .start, token, quoted, skipsLine := true }
  else if r.posix && r.classes.isEscape c then
    { state := .escape .word, token, quoted }
  else if r.classes.isWord c then
    { state := .word, token := String.singleton c, quoted }
  else if r.classes.isPunctuation c then
    { state := .punctuation, token := String.singleton c, quoted }
  else if r.classes.isQuote c then
    { state := .quote c, token := if r.posix then token else String.singleton c, quoted }
  else if r.whitespaceSplit then
    { state := .word, token := String.singleton c, quoted }
  else
    { state := .start, token := String.singleton c, quoted, complete := true }

/-- In a quotation every character belongs to the token, up to the closing quote. In POSIX mode the
quotes themselves do not, and the escape character is active in some quotations. -/
def moveFromQuote (q : Char) (token : String) (c : Char) : Move :=
  if c = q then
    if r.posix then { state := .word, token, quoted := true }
    else { state := .start, token := token.push c, quoted := true, complete := true }
  else if r.posix && r.classes.isEscape c && r.classes.isEscapedQuote q then
    { state := .escape (.quote q), token, quoted := true }
  else
    { state := .quote q, token := token.push c, quoted := true }

/-- An escaped character belongs to the token. In a quotation only the quote and the escape character
can be escaped; before any other character the escape character belongs to the token too. -/
def moveFromEscape (resume : Resume) (token : String) (quoted : Bool) (c : Char) : Move :=
  match resume with
  | .word => { state := .word, token := token.push c, quoted }
  | .quote q =>
    -- The escape character itself is dropped only where it escapes something.
    let kept := if c != q && !r.classes.isEscape c then token.push r.classes.escape else token
    { state := .quote q, token := kept.push c, quoted }

/-- White space ends a token, and so does a comment in POSIX mode; otherwise a comment is passed over
and the token goes on behind it. Any other character is for the caller to judge. -/
def moveAtBoundary (state : State) (token : String) (quoted : Bool) (c : Char) (inside : Move) : Move :=
  if r.classes.isWhitespace c then
    { state := .start, token, quoted, complete := r.isToken token quoted }
  else if r.classes.isComment c then
    if r.posix then
      { state := .start, token, quoted, skipsLine := true, complete := r.isToken token quoted }
    else { state, token, quoted, skipsLine := true }
  else inside

/-- A word goes on with a quotation, an escaped character, or a character that may extend it. Any other
character ends the word: it is an operator to be read again, or a token of its own. -/
def moveFromWord (token : String) (quoted : Bool) (c : Char) : Move :=
  r.moveAtBoundary .word token quoted c <|
    if r.posix && r.classes.isQuote c then { state := .quote c, token, quoted }
    else if r.posix && r.classes.isEscape c then { state := .escape .word, token, quoted }
    else if r.classes.isWord c || r.classes.isQuote c ||
        (r.whitespaceSplit && !r.classes.isPunctuation c) then
      { state := .word, token := token.push c, quoted }
    else
      -- With operators the character may begin a run of them; without, it can only stand alone.
      { state := .start, token, quoted, complete := r.isToken token quoted,
        held := if r.classes.punctuationActive then .char else .token }

/-- A run of operators goes on with operators. Any other character ends it and is read again. -/
def moveFromPunctuation (token : String) (quoted : Bool) (c : Char) : Move :=
  r.moveAtBoundary .punctuation token quoted c <|
    if r.classes.isPunctuation c then { state := .punctuation, token := token.push c, quoted }
    else { state := .start, token, quoted, held := .char, complete := true }

/-- What the automaton does with a character. At the end of the source nothing is left to do. -/
def move (state : State) (token : String) (quoted : Bool) (c : Char) : Move :=
  match state with
  | .start => r.moveFromStart token quoted c
  | .word => r.moveFromWord token quoted c
  | .punctuation => r.moveFromPunctuation token quoted c
  | .quote q => r.moveFromQuote q token c
  | .escape resume => r.moveFromEscape resume token quoted c
  | .done => { state := .done, token, quoted, complete := true }

/-- A character is held back only when it ends a token in progress, and then the automaton is between
tokens. -/
theorem move_held (state : State) (token : String) (quoted : Bool) (c : Char)
    (h : (r.move state token quoted c).held ≠ .nothing) :
    state.rank = 2 ∧ (r.move state token quoted c).state = .start := by
  cases state with
  | start => simp only [move, moveFromStart] at h; grind
  | word => simp only [move, moveFromWord, moveAtBoundary, State.rank] at h ⊢; grind
  | punctuation => simp only [move, moveFromPunctuation, moveAtBoundary, State.rank] at h ⊢; grind
  | quote q => simp only [move, moveFromQuote] at h; grind
  | escape resume =>
    cases resume <;> simp [move, moveFromEscape] at h
  | done => simp [move] at h

end Rules
end ShellWords
