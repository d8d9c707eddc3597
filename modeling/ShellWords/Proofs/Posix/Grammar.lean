import ShellWords.Proofs.Lexing.Classes

/-!
# The grammar of a POSIX command line

What a text without comments and files means by the rules of POSIX, said without an automaton. A text is
a sequence of items: words, runs of operators, and characters that stand alone (`Lexes`). A word is a
sequence of pieces (`Piece`), and its value is what they stand for, one behind the other. White space may
stand between any two items, and has to between two words or two runs.

`Rules.Posix` collects what the grammar needs to know of the character classes. It holds of all options
whose operators are neither quotes nor the backslash (`posix_ofConfig`).
-/

namespace ShellWords.Rules

/-- The characters that quote others. -/
def quoting : List Char := ['\'', '"', '\\']

/-- The rules are those of POSIX, without comments, and no quoting character has another meaning. -/
structure Posix (r : Rules) : Prop where
  posix : r.posix = true
  quotes : r.classes.quotes = ['\'', '"']
  escape : r.classes.escape = '\\'
  escapedQuotes : r.classes.escapedQuotes = ['"']
  noComments : r.classes.commenters = []
  /-- A quoting character belongs to no other class. -/
  quoting : ∀ c ∈ quoting, r.classes.isWhitespace c = false ∧ r.classes.isWord c = false ∧
    r.classes.isPunctuation c = false
  /-- A word character stands neither between items nor in operators. -/
  word : ∀ c, r.classes.isWord c = true →
    r.classes.isWhitespace c = false ∧ r.classes.isPunctuation c = false

/-- Options for POSIX without comments give such rules, unless a quoting character is an operator. -/
theorem posix_ofConfig {config : Config} (hposix : config.posix = true)
    (hcomments : config.comments = false)
    (hoperators : ∀ c ∈ quoting, c ∉ config.punctuation.chars) : (ofConfig config).Posix where
  posix := hposix
  quotes := rfl
  escape := rfl
  escapedQuotes := rfl
  noComments := by simp [ofConfig, CharClasses.ofConfig, hcomments]
  quoting := by
    intro c hc
    refine ⟨?_, ?_, ?_⟩
    · revert c
      simp [quoting, CharClasses.isWhitespace, ofConfig, CharClasses.ofConfig]
    · have hmarks : marks = [' ', '\t', '\r', '\n', '#'] ++ quoting := rfl
      exact isWord_of_mem_marks config (hmarks ▸ List.mem_append_right _ hc)
    · exact isPunctuation_of_notMem (hoperators c hc)
  word := by
    intro c hc
    have honly := onlyWord_ofConfig hc
    exact ⟨honly.unmarked.space, honly.notOperator⟩

end Rules

/-! ## Words -/

/-- The inside of a double quotation and what it stands for. A backslash is dropped before a double quote
and before a backslash, and stays before any other character. -/
inductive DoubleQuoted : List Char → List Char → Prop where
  | nil : DoubleQuoted [] []
  | char {c : Char} {body value : List Char} (hquote : c ≠ '"') (hescape : c ≠ '\\')
      (h : DoubleQuoted body value) : DoubleQuoted (c :: body) (c :: value)
  | escapedQuote {body value : List Char} (h : DoubleQuoted body value) :
      DoubleQuoted ('\\' :: '"' :: body) ('"' :: value)
  | escapedEscape {body value : List Char} (h : DoubleQuoted body value) :
      DoubleQuoted ('\\' :: '\\' :: body) ('\\' :: value)
  | keptEscape {c : Char} {body value : List Char} (hquote : c ≠ '"') (hescape : c ≠ '\\')
      (h : DoubleQuoted body value) : DoubleQuoted ('\\' :: c :: body) ('\\' :: c :: value)

/-- The quote, the inside of a quotation, and what it stands for. -/
inductive Quotation : Char → List Char → List Char → Prop where
  | single {body : List Char} (h : '\'' ∉ body) : Quotation '\'' body body
  | double {body value : List Char} (h : DoubleQuoted body value) : Quotation '"' body value

namespace Rules

variable (r : Rules)

/-- A character that stands for itself in a word. When words do not run up to white space, it is a word
character. -/
structure Plain (c : Char) : Prop where
  notWhitespace : r.classes.isWhitespace c = false
  notQuoting : c ∉ quoting
  notOperator : r.classes.isPunctuation c = false
  word : r.whitespaceSplit = false → r.classes.isWord c = true

/-- A character that operators are made of. -/
structure Operator (c : Char) : Prop where
  operator : r.classes.isPunctuation c = true
  notWhitespace : r.classes.isWhitespace c = false

/-- A character that stands alone. There are such characters when words do not run up to white space. -/
structure Alone (c : Char) : Prop where
  noSplit : r.whitespaceSplit = false
  notWhitespace : r.classes.isWhitespace c = false
  notQuoting : c ∉ quoting
  notOperator : r.classes.isPunctuation c = false
  notWord : r.classes.isWord c = false

/-- A piece of a word and what it stands for. -/
inductive Piece : List Char → List Char → Prop where
  | plain {c : Char} (h : r.Plain c) : Piece [c] [c]
  | escaped (c : Char) : Piece ['\\', c] [c]
  | quotation {q : Char} {body value : List Char} (h : Quotation q body value) :
      Piece (q :: (body ++ [q])) value

/-- Any number of pieces, and what they stand for together. -/
inductive Pieces : List Char → List Char → Prop where
  | nil : Pieces [] []
  | cons {text value text' value' : List Char} (piece : r.Piece text value)
      (pieces : Pieces text' value') : Pieces (text ++ text') (value ++ value')

/-! ## Texts -/

/-- What an item is. -/
inductive Kind where
  | word
  | run
  | alone
  deriving DecidableEq, Repr

/-- An item of each kind and what it stands for. -/
inductive Item : Kind → List Char → List Char → Prop where
  | word {text value text' value' : List Char} (piece : r.Piece text value)
      (pieces : r.Pieces text' value') : Item .word (text ++ text') (value ++ value')
  | run {text : List Char} (hne : text ≠ []) (h : ∀ c ∈ text, r.Operator c) : Item .run text text
  | alone {c : Char} (h : r.Alone c) : Item .alone [c] [c]

/-- A text and its words, behind an item of some kind or behind white space. Two words cannot meet, and
neither can two runs. -/
inductive Lexes : Option Kind → List Char → List String → Prop where
  | nil {before : Option Kind} : Lexes before [] []
  | space {before : Option Kind} {c : Char} {cs : List Char} {ws : List String}
      (hspace : r.classes.isWhitespace c = true) (h : Lexes none cs ws) : Lexes before (c :: cs) ws
  | item {before : Option Kind} {kind : Kind} {text value cs : List Char} {ws : List String}
      (hmeet : before = some kind → kind = .alone) (item : r.Item kind text value)
      (h : Lexes (some kind) cs ws) : Lexes before (text ++ cs) (String.ofList value :: ws)

end ShellWords.Rules
