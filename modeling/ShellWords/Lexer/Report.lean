import ShellWords.Lexer.Token

/-!
# Reports about a lexer

The place that an error message begins with, and a description of a lexer for whoever looks for the
cause of one.
-/

namespace ShellWords

/-- A truth value. -/
def Text.flag (b : Bool) : String := if b then "true" else "false"

/-- A description of the operator option. -/
def Punctuation.describe : Punctuation → String
  | .disabled => "Disabled"
  | .shell => "Default"
  | .custom chars => "Custom(" ++ Text.literal chars ++ ")"

/-- A description of the options. -/
def Config.describe (c : Config) : String :=
  "LexerConfig \x7b posix: " ++ Text.flag c.posix ++
    ", whitespace_split: " ++ Text.flag c.whitespaceSplit ++
    ", comments: " ++ Text.flag c.comments ++
    ", punctuation_chars: " ++ c.punctuation.describe ++
    ", source_keyword: " ++ Text.optional Text.literal c.sourceKeyword ++
    ", debug_level: " ++ toString c.debugLevel.toNat ++
    ", tag: " ++ Text.literal c.tag ++ " \x7d"

namespace Lexer

/-- The beginning of an error message: the file, read from the working directory, and the line. What is
not given is taken from the current source; a source without a file leaves the place for it empty. -/
def errorLeader (l : Lexer) (workingDirectory : Path) (origin : Option Path) (line : Option Nat) :
    String :=
  let file := match origin.or l.origin with
    | none => ""
    | some p => (p.absolute workingDirectory).text
  "\"" ++ file ++ "\", line " ++ toString (line.getD l.line) ++ ": "

/-- A description of the lexer. What was put back is listed with the next to be read last. -/
def describe (l : Lexer) : String :=
  "Lexer \x7b config: " ++ l.config.describe ++
    ", state: " ++ l.state.describe ++
    ", source: " ++ l.source.describe ++
    ", depth: " ++ toString l.depth ++
    ", pushback_chars: " ++ Text.listed Text.charLiteral l.pending.reverse ++
    ", pushback_tokens: " ++ Text.listed Text.literal l.waiting.reverse ++ ", .. \x7d"

end Lexer
end ShellWords
