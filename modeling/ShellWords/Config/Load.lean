import ShellWords.Config
import ShellWords.Disk
import ShellWords.Text.Utf8
import ShellWords.Toml.Document

/-!
# Options from a document

A document can be read in two ways: as all options, where what is not given has its default
(`Config.ofToml?`), and as changes to options that are already there (`Overlay`). The options of a user are
those of a document that the program comes with (`Config.builtIn`), with the changes that the user's file
makes (`Config.load`). In both ways a value of the wrong type spoils the whole document, and a name that is
no option is passed over.
-/

namespace ShellWords

/-- The value of an option: what is given, read in its own way, or nothing if the option is not given. A
value that cannot be read is an error. -/
def Toml.Table.option? {α : Type} (t : Toml.Table) (name : String)
    (read : Toml.Value → Option α) : Option (Option α) :=
  match t.lookup name with
  | none => some none
  | some v => (read v).map some

/-- A truth value. -/
def Toml.Value.flag? : Toml.Value → Option Bool
  | .boolean b => some b
  | _ => none

/-- A text. -/
def Toml.Value.text? : Toml.Value → Option String
  | .string s => some s
  | _ => none

/-- A number that fits into a byte. -/
def Toml.Value.byte? : Toml.Value → Option UInt8
  | .integer n => if 0 ≤ n ∧ n < 256 then some (UInt8.ofNat n.toNat) else none
  | _ => none

/-- The operators that a text names. An empty text names none. -/
def Punctuation.ofText (chars : String) : Punctuation :=
  if chars.isEmpty then .disabled else .custom chars

/-- The operator option. -/
def Toml.Value.punctuation? : Toml.Value → Option Punctuation
  | .boolean b => some (if b then .shell else .disabled)
  | .string chars => some (.ofText chars)
  | _ => none

/-- The options that a document gives. What it does not give has its default. -/
def Config.ofTable? (t : Toml.Table) : Option Config := do
  let defaults : Config := {}
  let posix ← t.option? "posix" Toml.Value.flag?
  let whitespaceSplit ← t.option? "whitespace_split" Toml.Value.flag?
  let comments ← t.option? "comments" Toml.Value.flag?
  let punctuation ← t.option? "punctuation_chars" Toml.Value.punctuation?
  let sourceKeyword ← t.option? "source_keyword" Toml.Value.text?
  let debugLevel ← t.option? "debug_level" Toml.Value.byte?
  let tag ← t.option? "tag" Toml.Value.text?
  return {
    posix := posix.getD defaults.posix
    whitespaceSplit := whitespaceSplit.getD defaults.whitespaceSplit
    comments := comments.getD defaults.comments
    punctuation := punctuation.getD defaults.punctuation
    sourceKeyword := sourceKeyword
    debugLevel := debugLevel.getD defaults.debugLevel
    tag := tag.getD defaults.tag }

/-- The options that a text gives. -/
def Config.ofToml? (text : String) : Option Config :=
  (Toml.Table.ofText? text).bind Config.ofTable?

/-! ## The options that the program comes with -/

/-- The lines of the document that the program comes with. -/
def Config.builtInLines : List String :=
  ["# Default lexer configuration.",
    "#",
    "# User overrides live in ~/.config/shlexer/config.toml and only need to",
    "# name the keys they change.",
    "",
    "# Strip quotes, honour backslash escapes, treat accented Latin letters as",
    "# word characters.",
    "posix = true",
    "",
    "# Split words on whitespace (and punctuation, when enabled) only.",
    "whitespace_split = true",
    "",
    "# Treat `#` as the start of a comment running to end of line.",
    "comments = false",
    "",
    "# false: disabled. true: the shell operator set `();<>|&`.",
    "# A string: a custom set of operator characters.",
    "punctuation_chars = false",
    "",
    "# Token that includes the file named by the following token.",
    "# source_keyword = \"source\"",
    "",
    "# 0 = silent, 1 = source/token events, 2 = state summaries, 3 = every char.",
    "debug_level = 0",
    "",
    "# Prefix for diagnostic lines.",
    "tag = \"shlex\""]

/-- The document that the program comes with. -/
def Config.builtInDocument : String :=
  String.ofList (builtInLines.flatMap fun line => line.toList ++ ['\n'])

/-- It gives every option its default. -/
theorem Config.ofToml?_builtInDocument : Config.ofToml? builtInDocument = some {} := by
  rw [ofToml?, Toml.Table.ofText?, builtInDocument, String.toList_ofList]
  decide +kernel

/-- The options that the program comes with. -/
def Config.builtIn : Config :=
  (Config.ofToml? builtInDocument).get (by rw [ofToml?_builtInDocument]; rfl)

/-- So the options that the program comes with are the defaults. -/
theorem Config.builtIn_eq : builtIn = {} := by
  simp only [builtIn, ofToml?_builtInDocument, Option.get_some]

/-! ## Changes to options -/

/-- Changes to options: what is not given stays as it is. -/
structure Overlay where
  posix : Option Bool := none
  whitespaceSplit : Option Bool := none
  comments : Option Bool := none
  punctuation : Option Punctuation := none
  sourceKeyword : Option String := none
  debugLevel : Option UInt8 := none
  tag : Option String := none
  deriving DecidableEq, Repr

/-- The changes that a document describes. -/
def Overlay.ofTable? (t : Toml.Table) : Option Overlay := do
  return {
    posix := ← t.option? "posix" Toml.Value.flag?
    whitespaceSplit := ← t.option? "whitespace_split" Toml.Value.flag?
    comments := ← t.option? "comments" Toml.Value.flag?
    punctuation := ← t.option? "punctuation_chars" Toml.Value.punctuation?
    sourceKeyword := ← t.option? "source_keyword" Toml.Value.text?
    debugLevel := ← t.option? "debug_level" Toml.Value.byte?
    tag := ← t.option? "tag" Toml.Value.text? }

/-- The options with the changes made to them. A keyword cannot be taken away. -/
def Overlay.applyTo (o : Overlay) (c : Config) : Config where
  posix := o.posix.getD c.posix
  whitespaceSplit := o.whitespaceSplit.getD c.whitespaceSplit
  comments := o.comments.getD c.comments
  punctuation := o.punctuation.getD c.punctuation
  sourceKeyword := o.sourceKeyword.or c.sourceKeyword
  debugLevel := o.debugLevel.getD c.debugLevel
  tag := o.tag.getD c.tag

/-- Where a user keeps changes to the options. -/
def overlayPath (home : Option String) : Path :=
  ⟨Path.expandHome home "~/.config/shlexer/config.toml"⟩

/-- The text of a stream that can be read to its end and is valid UTF-8. -/
def Stream.text? (s : Stream) : Option String :=
  match s.failure with
  | none => Text.Utf8.decode? s.bytes
  | some _ => none

/-- The options of a user, and whether the user's file was there but no use. -/
structure Loaded where
  config : Config
  isSpoiled : Bool
  deriving DecidableEq, Repr

/-- The options of a user: those that the program comes with, changed as the user's file says. A file that
cannot be read changes nothing, and neither does one that is no document of options, which is reported. -/
def Config.load (files : FileSystem) (home : Option String) : Loaded :=
  match files (overlayPath home) with
  | .error _ => ⟨builtIn, false⟩
  | .ok stream =>
    match stream.text? with
    -- A file that cannot be read is passed over in silence.
    | none => ⟨builtIn, false⟩
    | some text =>
      match (Toml.Table.ofText? text).bind Overlay.ofTable? with
      | none => ⟨builtIn, true⟩
      | some overlay => ⟨overlay.applyTo builtIn, false⟩

/-- Without a file, the options of a user are the defaults. -/
theorem Config.load_of_error {files : FileSystem} {home : Option String} {e : ReadError}
    (h : files (overlayPath home) = .error e) : load files home = ⟨{}, false⟩ := by
  rw [load, h, builtIn_eq]

end ShellWords
