import ShellWords.Config
import ShellWords.Toml.Written

/-!
# Options as a document

`Config.toToml` writes the options as a TOML document, one line for each. The word that includes files
has no line if there is none.
-/

namespace ShellWords

/-- A truth value in a document. -/
def Toml.writtenFlag (b : Bool) : List Char := if b then "true".toList else "false".toList

/-- A line that gives a name a value. -/
def Toml.line (name : String) (value : List Char) : List Char :=
  name.toList ++ " = ".toList ++ value ++ ['\n']

/-- The operator option in a document: no operators, the shell's, or a text that holds them. -/
def Punctuation.toToml : Punctuation → List Char
  | .disabled => Toml.writtenFlag false
  | .shell => Toml.writtenFlag true
  | .custom chars => Toml.written chars.toList

/-- The lines of the options. -/
def Config.toTomlChars (c : Config) : List Char :=
  Toml.line "posix" (Toml.writtenFlag c.posix) ++
    Toml.line "whitespace_split" (Toml.writtenFlag c.whitespaceSplit) ++
    Toml.line "comments" (Toml.writtenFlag c.comments) ++
    Toml.line "punctuation_chars" c.punctuation.toToml ++
    (match c.sourceKeyword with
      | none => []
      | some keyword => Toml.line "source_keyword" (Toml.written keyword.toList)) ++
    Toml.line "debug_level" (toString c.debugLevel.toNat).toList ++
    Toml.line "tag" (Toml.written c.tag.toList)

/-- The options as a document. -/
def Config.toToml (c : Config) : String := String.ofList c.toTomlChars

end ShellWords
