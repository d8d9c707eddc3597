import ShellWords.Config

/-!
# Character classes

`CharClasses` lists the characters that the lexer tells apart, as they follow from its options, and
`Rules` adds the two options that decide between branches of the automaton. The word class and the
punctuation class never meet: what the options call an operator is taken out of the word class.
-/

namespace ShellWords

/-- The characters that belong to a word under every option. -/
def asciiWordChars : List Char :=
  "abcdefghijklmnopqrstuvwxyzABCDEFGHIJKLMNOPQRSTUVWXYZ0123456789_".toList

/-- The Latin-1 letters, which belong to a word in POSIX mode. -/
def latinWordChars : List Char :=
  "ßàáâãäåæçèéêëìíîïðñòóôõöøùúûüýþÿÀÁÂÃÄÅÆÇÈÉÊËÌÍÎÏÐÑÒÓÔÕÖØÙÚÛÜÝÞ".toList

/-- The characters of file names, options and wildcards, which belong to a word as soon as there
are operators. -/
def pathWordChars : List Char := "~-./*?=".toList

/-- The characters that the lexer tells apart. -/
structure CharClasses where
  /-- The characters between tokens. -/
  whitespace : List Char
  /-- The characters that open and close a quotation. -/
  quotes : List Char
  /-- The character that takes the special meaning from the next one. -/
  escape : Char
  /-- The quotes inside which the escape character is active. -/
  escapedQuotes : List Char
  /-- The characters that start a comment. -/
  commenters : List Char
  /-- The characters that extend a word. -/
  word : List Char
  /-- The characters that form operators. -/
  punctuation : List Char
  deriving DecidableEq, Repr

namespace CharClasses

/-- The candidates for the word class, before the operators are taken out. -/
def wordCandidates (config : Config) : List Char :=
  asciiWordChars ++ (if config.posix then latinWordChars else []) ++
    (if config.punctuation.isActive then pathWordChars else [])

/-- The classes that follow from the options. -/
def ofConfig (config : Config) : CharClasses where
  whitespace := [' ', '\t', '\r', '\n']
  quotes := ['\'', '"']
  escape := '\\'
  escapedQuotes := ['"']
  commenters := if config.comments then ['#'] else []
  word := (wordCandidates config).filter fun c => !config.punctuation.chars.contains c
  punctuation := config.punctuation.chars

variable (k : CharClasses) (c : Char)

/-- Whether a character stands between tokens. -/
def isWhitespace : Bool := k.whitespace.contains c

/-- Whether a character opens or closes a quotation. -/
def isQuote : Bool := k.quotes.contains c

/-- Whether a character is the escape character. -/
def isEscape : Bool := c == k.escape

/-- Whether the escape character is active inside this quote. -/
def isEscapedQuote : Bool := k.escapedQuotes.contains c

/-- Whether a character starts a comment. -/
def isComment : Bool := k.commenters.contains c

/-- Whether a character extends a word. -/
def isWord : Bool := k.word.contains c

/-- Whether a character forms operators. -/
def isPunctuation : Bool := k.punctuation.contains c

/-- Whether there are operators. -/
def punctuationActive : Bool := !k.punctuation.isEmpty

end CharClasses

/-- What the automaton needs to know of the options. -/
structure Rules where
  /-- Quotes are removed and `\` escapes. -/
  posix : Bool
  /-- Every character that is no operator may extend a word. -/
  whitespaceSplit : Bool
  /-- The characters to tell apart. -/
  classes : CharClasses
  deriving DecidableEq, Repr

/-- The rules that follow from the options. The options for reports play no part in them. -/
def Rules.ofConfig (config : Config) : Rules :=
  ⟨config.posix, config.whitespaceSplit, .ofConfig config⟩

end ShellWords
