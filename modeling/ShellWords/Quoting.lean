import ShellWords.Text.WhiteSpace

/-!
# Quoting

`quote` writes a word so that a shell reads it back as that word, and `join` writes a list of words as a
command line. A word of safe characters stands as it is; any other is put between single quotes, where
no character but the single quote means anything. A blank word is written as an empty one.
-/

namespace ShellWords

/-- The characters, besides ASCII letters and digits, that mean nothing to a shell. -/
def safeMarks : List Char := "_@%+=:,./-".toList

/-- Whether a character means nothing to a shell. -/
def isSafe (c : Char) : Bool := c.isAlphanum || safeMarks.contains c

/-- A character between single quotes. A single quote closes the quotation, stands between double quotes
and opens the quotation again. -/
def quotedChar (c : Char) : List Char := if c = '\'' then "'\"'\"'".toList else [c]

/-- The characters of a quoted word. -/
def quoteChars (word : List Char) : List Char :=
  if word.all Text.isWhiteSpace then ['\'', '\'']
  else if word.all isSafe then word
  else '\'' :: (word.flatMap quotedChar ++ ['\''])

/-- A word as it is written in a command line. -/
def quote (word : String) : String := String.ofList (quoteChars word.toList)

/-- A command line of these words. -/
def join (words : List String) : String := " ".intercalate (words.map quote)

end ShellWords
