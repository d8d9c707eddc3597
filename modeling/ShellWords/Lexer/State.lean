import ShellWords.Text.Literal

/-!
# States of the automaton

Where the lexer stands between two characters. Each state has a short name, for reports of state
changes, and a full description, for reports of single characters.
-/

namespace ShellWords

/-- Where the automaton goes back to after an escaped character. -/
inductive Resume where
  /-- Into an unquoted word. -/
  | word
  /-- Into a quotation with this quote. -/
  | quote (q : Char)
  deriving DecidableEq, Repr

/-- Where the automaton stands. -/
inductive State where
  /-- Between two tokens. -/
  | start
  /-- In a word. -/
  | word
  /-- In a run of operator characters. -/
  | punctuation
  /-- In a quotation that this quote has opened. -/
  | quote (q : Char)
  /-- Right after an escape character. -/
  | escape (resume : Resume)
  /-- At the end of the source. -/
  | done
  deriving DecidableEq, Repr, Inhabited

/-- The description of the place to go back to. -/
def Resume.describe : Resume → String
  | .word => "Word"
  | .quote q => "Quote(" ++ Text.charLiteral q ++ ")"

namespace State

/-- The short name of a state. -/
def name : State → String
  | start => "start"
  | word => "word"
  | punctuation => "punctuation"
  | quote _ => "quote"
  | escape _ => "escape"
  | done => "done"

/-- The full description of a state. -/
def describe : State → String
  | start => "Start"
  | word => "InWord"
  | punctuation => "InPunctuation"
  | quote q => "InQuote(" ++ Text.charLiteral q ++ ")"
  | escape resume => "InEscape(" ++ resume.describe ++ ")"
  | done => "Done"

/-- Whether the source may not end in this state. -/
def isOpen : State → Bool
  | quote _ | escape _ => true
  | _ => false

/-- How far a state is from the end of the source when no character is left: a token in progress
comes before the space between tokens, and that before the end. -/
def rank : State → Nat
  | done => 0
  | start => 1
  | _ => 2

/-- No state is worth more than two. -/
theorem rank_le (s : State) : s.rank ≤ 2 := by
  cases s <;> simp [rank]

end State
end ShellWords
