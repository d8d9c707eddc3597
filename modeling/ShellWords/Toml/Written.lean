import ShellWords.Toml.Text

/-!
# TOML strings as they are written

A string is written in the first of five styles that fits (`Style.of`), plain ones first: the fewer
escapes and quotes a string needs, the plainer it looks. Only the last two styles can write every string.
A style over several lines starts the string on a line of its own if it holds a newline.
-/

namespace ShellWords.Toml

/-- How a string is written. -/
inductive Style where
  /-- Between double quotes. -/
  | basic
  /-- Between single quotes, without escapes. -/
  | plain
  /-- Between three double quotes. -/
  | multilineBasic
  /-- Between three single quotes, without escapes. -/
  | multilinePlain
  deriving DecidableEq, Repr

/-- Whether a character can only be written as an escape: a control character other than tab and
newline. -/
def needsEscape (c : Char) : Bool := isControl c && c != '\t' && c != '\n'

/-- Whether a text holds this character three times in a row. -/
def hasTriple (q : Char) : List Char → Bool
  | a :: b :: c :: rest => (a == q && b == q && c == q) || hasTriple q (b :: c :: rest)
  | _ => false

/-- The style that a string is written in. -/
def Style.of (s : List Char) : Style :=
  let escapes := s.any needsEscape
  let newline := s.contains '\n'
  if !escapes && !s.contains '\\' && !s.contains '"' && !newline then .basic
  else if !escapes && !s.contains '\'' && !newline then .plain
  else if !escapes && !s.contains '\\' && !hasTriple '"' s then .multilineBasic
  else if !escapes && !hasTriple '\'' s then .multilinePlain
  else if newline then .multilineBasic
  else .basic

/-- An upper-case hexadecimal digit. -/
def hexDigit (n : Nat) : Char := if n < 10 then Char.ofNat (48 + n) else Char.ofNat (55 + n)

/-- A character inside double quotes, the quote and the newline excepted. -/
def escapedChar (c : Char) : List Char :=
  if c = '\\' then ['\\', '\\']
  else if c = '\t' then ['\\', 't']
  else if c = '\x08' then ['\\', 'b']
  else if c = '\x0c' then ['\\', 'f']
  else if c = '\r' then ['\\', 'r']
  else if isControl c then ['\\', 'u', '0', '0', hexDigit (c.toNat / 16), hexDigit (c.toNat % 16)]
  else [c]

/-- The characters of a string between double quotes. -/
def basicChars (s : List Char) : List Char :=
  s.flatMap fun c =>
    if c = '"' then ['\\', '"'] else if c = '\n' then ['\\', 'n'] else escapedChar c

/-- The characters of a string between three double quotes, after this many quotes in a row. A third
quote would close the string, so it is escaped. -/
def multilineBasicChars : (quotes : Nat) → List Char → List Char
  | _, [] => []
  | quotes, c :: rest =>
    if c = '"' then
      if quotes = 2 then '\\' :: '"' :: multilineBasicChars 0 rest
      else '"' :: multilineBasicChars (quotes + 1) rest
    else (if c = '\n' then ['\n'] else escapedChar c) ++ multilineBasicChars 0 rest

/-- The newline that a string over several lines starts with, if it holds one. -/
def leadingNewline (s : List Char) : List Char := if s.contains '\n' then ['\n'] else []

/-- A string in a style. -/
def Style.write (s : List Char) : Style → List Char
  | basic => ['"'] ++ basicChars s ++ ['"']
  | plain => ['\''] ++ s ++ ['\'']
  | multilineBasic => ['"', '"', '"'] ++ leadingNewline s ++ multilineBasicChars 0 s ++ ['"', '"', '"']
  | multilinePlain => ['\'', '\'', '\''] ++ leadingNewline s ++ s ++ ['\'', '\'', '\'']

/-- A string as it is written. -/
def written (s : List Char) : List Char := (Style.of s).write s

end ShellWords.Toml
