import ShellWords.Toml.Scalar
import ShellWords.Toml.Text

/-!
# TOML documents

A document is a list of statements, one to a line: a pair, a header, or a header in double brackets. A
statement that spans lines ends only where its value does. `statements?` reads them, and `Table.ofText?`
carries them out, one after the other, on an empty table.
-/

namespace ShellWords.Toml

/-- How deeply brackets may be nested, and how many names a dotted key may have. -/
def nestingLimit : Nat := 79

/-! ## Keys -/

/-- Whether a character may stand in a key without quotes. -/
def isKeyChar (c : Char) : Bool := c.isAlphanum || c == '-' || c == '_'

/-- One name of a key. -/
def name? : List Char → Option (List Char × List Char)
  | '"' :: rest => basic? rest
  | '\'' :: rest => plain? rest
  | s => match s.takeWhile isKeyChar with
    | [] => none
    | name => some (name, s.dropWhile isKeyChar)

/-- The names of a dotted key, and what follows the key. At most as many names are read as the first
argument says, which is enough if the text is no longer. -/
def names? : Nat → List Char → Option (List String × List Char)
  | 0, _ => none
  | fuel + 1, s =>
    match name? (skipBlanks s) with
    | none => none
    | some (name, rest) =>
      match skipBlanks rest with
      | '.' :: next => (names? fuel next).map fun r => (String.ofList name :: r.1, r.2)
      | next => some ([String.ofList name], next)

/-- A key, and what follows it and the blanks behind it. -/
def key? (s : List Char) : Option (Key × List Char) :=
  match names? s.length s with
  | none => none
  | some (names, rest) =>
    if nestingLimit < names.length then none
    else names.getLast?.map fun name => (⟨names.dropLast, name⟩, rest)

/-! ## Values -/

/-- The rest of an array. At most as many items are read as the first argument says. -/
def items? (value : List Char → Option (Value × List Char)) :
    Nat → List Char → Option (List Value × List Char)
  | 0, _ => none
  | fuel + 1, s =>
    match skipSpace s with
    -- An array may end right after a comma.
    | ']' :: rest => some ([], rest)
    | s =>
      match value s with
      | none => none
      | some (v, rest) =>
        match skipSpace rest with
        | ',' :: next => (items? value fuel next).map fun r => (v :: r.1, r.2)
        | ']' :: next => some ([v], next)
        | _ => none

/-- A key and its value, and what follows them and the blanks behind them. -/
def pair (value : List Char → Option (Value × List Char)) (s : List Char) :
    Option ((Key × Value) × List Char) :=
  match key? s with
  | some (key, '=' :: rest) =>
    (value (skipBlanks rest)).map fun r => ((key, r.1), skipBlanks r.2)
  | _ => none

/-- The rest of a table between braces, after a brace or a comma. At most as many pairs are read as the
first argument says. -/
def pairs? (value : List Char → Option (Value × List Char)) :
    Nat → List Char → Option (List (Key × Value) × List Char)
  | 0, _ => none
  | fuel + 1, s =>
    match pair value s with
    | none => none
    -- A comma has to be followed by a pair, on the same line.
    | some (p, ',' :: rest) => (pairs? value fuel rest).map fun r => (p :: r.1, r.2)
    | some (p, '\x7d' :: rest) => some ([p], rest)
    | some _ => none

/-- A table between braces, after the opening brace. -/
def inlineTable? (value : List Char → Option (Value × List Char)) (s : List Char) :
    Option (Value × List Char) :=
  match skipBlanks s with
  | '\x7d' :: rest => some (.table .inline [], rest)
  | s =>
    match pairs? value s.length s with
    | none => none
    | some (pairs, rest) => (Table.ofPairs? pairs).map fun t => (.table .inline t, rest)

/-- A value without brackets around it. -/
def flat? (s : List Char) : Option (Value × List Char) :=
  if s.head? == some '"' || s.head? == some '\'' then
    (string? s).map fun r => (.string (String.ofList r.1), r.2)
  else scalar? s

/-- A value in which brackets are nested at most this deeply. -/
def value? : Nat → List Char → Option (Value × List Char)
  | depth + 1, '[' :: rest =>
    (items? (value? depth) (rest.length + 1) rest).map fun r => (.array r.1, r.2)
  | depth + 1, '\x7b' :: rest => inlineTable? (value? depth) rest
  | _, s => flat? s

/-! ## Statements -/

/-- What a line of a document says. -/
inductive Statement where
  | pair (key : Key) (value : Value)
  | header (key : Key)
  | element (key : Key)
  deriving Repr

/-- A statement, and the lines after it. -/
def statement? (s : List Char) : Option (Statement × List Char) :=
  match s with
  | '[' :: '[' :: rest =>
    match key? rest with
    | some (key, ']' :: ']' :: rest) => (lineEnd? rest).map fun r => (.element key, r)
    | _ => none
  | '[' :: rest =>
    match key? rest with
    | some (key, ']' :: rest) => (lineEnd? rest).map fun r => (.header key, r)
    | _ => none
  | s =>
    match pair (value? nestingLimit) s with
    | some ((key, v), rest) => (lineEnd? rest).map fun r => (.pair key v, r)
    | none => none

/-- The statements of a text. Lines that say nothing are passed over. At most as many lines are read as
the first argument says. -/
def statements? : Nat → List Char → Option (List Statement)
  | _, [] => some []
  | 0, _ => none
  | fuel + 1, s =>
    match lineEnd? s with
    | some rest => statements? fuel rest
    | none =>
      match statement? (skipBlanks s) with
      | some (statement, rest) => (statements? fuel rest).map (statement :: ·)
      | none => none

/-! ## Documents -/

/-- A document that is being carried out. -/
structure Progress where
  /-- All that has been defined. -/
  document : Table
  /-- The table that the last header has named. -/
  current : List String
  deriving Repr

/-- Carries out a statement. -/
def Progress.carryOut (p : Progress) : Statement → Option Progress
  | .pair key v =>
    (p.document.update false (fun form t => t.addPair form key v) .header p.current).map
      fun document => { p with document }
  | .header key =>
    (p.document.addHeader key).map fun document => ⟨document, key.path ++ [key.name]⟩
  | .element key =>
    (p.document.addElement key).map fun document => ⟨document, key.path ++ [key.name]⟩

/-- The table that statements define. -/
def Table.ofStatements? (statements : List Statement) : Option Table :=
  (statements.foldlM Progress.carryOut ⟨[], []⟩).map Progress.document

/-- The table that a document defines. A byte order mark may stand before it. -/
def Table.ofText? (text : String) : Option Table :=
  let s := match text.toList with
    | '\ufeff' :: rest => rest
    | s => s
  (statements? s.length s).bind Table.ofStatements?

end ShellWords.Toml
