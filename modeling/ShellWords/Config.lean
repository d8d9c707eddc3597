/-!
# Lexing options

`Config` holds the seven options of a lexer: how it quotes, what ends a word, which characters are
operators, which word includes a file, and how much it reports. Every option has a default, so
`({} : Config)` splits a POSIX command line at white space.
-/

namespace ShellWords

/-- The operator characters of the shell. -/
def shellOperators : String := "();<>|&"

/-- Which characters, if any, form operator tokens of their own. -/
inductive Punctuation where
  /-- No character is an operator. -/
  | disabled
  /-- The shell's own operators are. -/
  | shell
  /-- The characters of the given text are. -/
  | custom (chars : String)
  deriving DecidableEq, Repr, Inhabited

/-- The operator characters, as text. -/
def Punctuation.text : Punctuation → String
  | .disabled => ""
  | .shell => shellOperators
  | .custom chars => chars

/-- The operator characters. There are none when operators are disabled. -/
def Punctuation.chars (p : Punctuation) : List Char := p.text.toList

/-- Whether there are operator characters at all. An empty custom set is as inactive as a disabled
one, though the two are different options. -/
def Punctuation.isActive (p : Punctuation) : Bool := !p.chars.isEmpty

/-- The options of a lexer. A lexer keeps the options it was made with. -/
structure Config where
  /-- Quotes are removed from words, `\` escapes, and accented letters belong to words. -/
  posix : Bool := true
  /-- A word ends only at white space, or at an operator when there are operators. -/
  whitespaceSplit : Bool := true
  /-- A `#` starts a comment that runs to the end of its line. -/
  comments : Bool := false
  /-- The characters that form operator tokens. -/
  punctuation : Punctuation := .disabled
  /-- The word that includes the file named by the word after it. -/
  sourceKeyword : Option String := none
  /-- How much the lexer reports about its work. It never changes a token. -/
  debugLevel : UInt8 := 0
  /-- What each line of such a report begins with. -/
  tag : String := "shlex"
  deriving DecidableEq, Repr, Inhabited

end ShellWords
