/-!
# TOML values

A document is a table of values. A table remembers how it came to be (`Form`), because that decides
whether later lines may add to it: a table may be defined by one header only, and what a pair of braces
has closed stays closed. `Table.update` is the one way into nested tables, and `Table.addPair`,
`Table.addHeader` and `Table.addElement` are what a line of a document does.
-/

namespace ShellWords.Toml

/-- How a table came to be. -/
inductive Form where
  /-- Written between braces. -/
  | inline
  /-- Named by a header of its own, or the document itself. -/
  | header
  /-- Passed through by the header of a table inside it. -/
  | implied
  /-- Passed through by the dotted key of a value inside it. -/
  | dotted
  deriving DecidableEq, Repr

/-- A value of a document. Floats and times are kept as they are written. -/
inductive Value where
  | string (text : String)
  | integer (n : Int)
  | boolean (b : Bool)
  | float (text : String)
  | time (text : String)
  | array (items : List Value)
  | table (form : Form) (entries : List (String × Value))
  /-- The tables that headers in double brackets have added, the last one apart. -/
  | tables (last : List (String × Value)) (earlier : List (List (String × Value)))
  deriving Repr

/-- The entries of a table, in the order of their definition. -/
abbrev Table := List (String × Value)

/-- A key: the tables on the way, and the name in the last of them. -/
structure Key where
  path : List String
  name : String
  deriving DecidableEq, Repr

/-- Whether a table may be entered to add to it, by a dotted key or by a header. -/
def Form.admits (dotted : Bool) : Form → Bool
  | inline => false
  | header => !dotted
  | implied | .dotted => true

namespace Table

/-- Gives a name this value, whether it had one before or not. -/
def set (t : Table) (name : String) (v : Value) : Table :=
  if (t.lookup name).isSome then t.map fun e => if e.1 == name then (name, v) else e
  else t ++ [(name, v)]

/-- Changes the table at the end of a path. Tables that are missing on the way are made. Of the tables
that a header in double brackets has added, the last is meant. -/
def update (dotted : Bool) (edit : Form → Table → Option Table) :
    Form → List String → Table → Option Table
  | form, [], t => edit form t
  | _, name :: path, t =>
    match t.lookup name with
    | none =>
      let form : Form := if dotted then .dotted else .implied
      (update dotted edit form path []).map fun inner => t.set name (.table form inner)
    | some (.table form inner) =>
      if form.admits dotted then
        (update dotted edit form path inner).map fun inner => t.set name (.table form inner)
      else none
    -- The last of these tables may be entered in either way.
    | some (.tables last earlier) =>
      (update dotted edit .header path last).map fun last => t.set name (.tables last earlier)
    | some _ => none

/-- Adds a pair to a table of this form. A dotted key may add only to a table that dotted keys have
made, and no name may be defined twice. -/
def addPair (form : Form) (t : Table) (key : Key) (v : Value) : Option Table :=
  t.update true
    (fun form inner =>
      if (form == .dotted) == key.path.isEmpty || (inner.lookup key.name).isSome then none
      else some (inner ++ [(key.name, v)]))
    form key.path

/-- Defines the table that a header names. It may have been passed through before, but not defined. -/
def addHeader (t : Table) (key : Key) : Option Table :=
  t.update false
    (fun _ inner => match inner.lookup key.name with
      | none => some (inner.set key.name (.table .header []))
      | some (.table .implied entries) => some (inner.set key.name (.table .header entries))
      | some _ => none)
    .header key.path

/-- Adds an empty table to those that a header in double brackets names. -/
def addElement (t : Table) (key : Key) : Option Table :=
  t.update false
    (fun _ inner => match inner.lookup key.name with
      | none => some (inner.set key.name (.tables [] []))
      | some (.tables last earlier) => some (inner.set key.name (.tables [] (last :: earlier)))
      | some _ => none)
    .header key.path

/-- The table that pairs between braces make. -/
def ofPairs? (pairs : List (Key × Value)) : Option Table :=
  pairs.foldlM (fun t p => t.addPair .inline p.1 p.2) []

end Table
end ShellWords.Toml
