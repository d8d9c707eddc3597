/-!
# Paths

A path is a text whose names are separated by `/`. A doubled `/`, a `/` at the end and the name `.`
change nothing in what the path means, so the operations here look through them, but they keep the
text of what they do not touch: the parent of `a//b/c` is `a//b`.

The text is the anchor, which is `/`, a leading `.` or nothing, followed by the segments between the
slashes (`anchor`, `segments`). `components` is the meaning: the anchor and the names that count.
-/

namespace ShellWords

/-- A path, as it is written. -/
structure Path where
  text : String
  deriving DecidableEq, Repr, Inhabited

namespace Path

/-- What a path begins with. -/
inductive Anchor where
  /-- A `/`: the path is absolute. -/
  | root
  /-- A `.` of its own: the path is explicitly relative. -/
  | here
  /-- A name, or nothing. -/
  | bare
  deriving DecidableEq, Repr

/-- What the characters of a path begin with. -/
def anchorOf : List Char → Anchor
  | '/' :: _ => .root
  | ['.'] => .here
  | '.' :: '/' :: _ => .here
  | _ => .bare

/-- How an anchor is written. -/
def Anchor.chars : Anchor → List Char
  | .root => ['/']
  | .here => ['.']
  | .bare => []

/-- The texts between the slashes; one more than there are slashes. -/
def segments : List Char → List (List Char)
  | [] => [[]]
  | c :: cs =>
    if c = '/' then [] :: segments cs
    else match segments cs with
      | [] => [[c]]
      | s :: rest => (c :: s) :: rest

/-- The segments, with a slash between any two. -/
def joined (segs : List (List Char)) : List Char := ['/'].intercalate segs

/-- Whether a segment changes nothing: it is empty or `.`. -/
def isIdle (segment : List Char) : Bool := segment == [] || segment == ['.']

/-- The segments without the idle ones at the end. -/
def trimmed (segs : List (List Char)) : List (List Char) := (segs.reverse.dropWhile isIdle).reverse

/-- What the path begins with. -/
def anchor (p : Path) : Anchor := anchorOf p.text.toList

/-- The segments after the anchor. -/
def body (p : Path) : List (List Char) := segments (p.text.toList.drop p.anchor.chars.length)

/-- The path with this anchor and these segments after it. -/
def ofParts (anchor : Anchor) (segs : List (List Char)) : Path :=
  ⟨String.ofList (anchor.chars ++ joined segs)⟩

/-- Whether the path begins with `/`. -/
def isAbsolute (p : Path) : Bool := p.anchor == .root

/-- The names of the path, `..` among them. -/
def names (p : Path) : List String :=
  (p.body.filter fun s => !isIdle s).map String.ofList

/-- A step on the way that a path describes. -/
inductive Component where
  /-- Start at the root. -/
  | root
  /-- Start at the current directory, as a leading `.` says. -/
  | here
  /-- Go up to the parent. -/
  | up
  /-- Go down to the entry of this name. -/
  | name (text : String)
  deriving DecidableEq, Repr

/-- The step that an anchor stands for, if any. -/
def Anchor.components : Anchor → List Component
  | .root => [.root]
  | .here => [.here]
  | .bare => []

/-- The steps of the way that the path describes. -/
def components (p : Path) : List Component :=
  p.anchor.components ++ p.names.map fun s => if s == ".." then .up else .name s

/-- The path without its last step. The root has no parent, and neither has the empty path. -/
def parent (p : Path) : Option Path :=
  match trimmed p.body with
  -- Without a name, only a leading `.` is a step that can be taken back.
  | [] => if p.anchor == .here then some ⟨""⟩ else none
  | segs => some (ofParts p.anchor (trimmed segs.dropLast))

/-- The second path, read from the first: an absolute path stands for itself, and a relative one is
written after the first with one slash between them. -/
def join (p q : Path) : Path :=
  if q.isAbsolute then q
  else if p.text.isEmpty || p.text.toList.getLast? == some '/' then ⟨p.text ++ q.text⟩
  else ⟨p.text ++ "/" ++ q.text⟩

/-- Whether the path begins with exactly two slashes, which systems may give a meaning of their own. -/
def hasDoubleRoot (p : Path) : Bool :=
  match p.text.toList with
  | '/' :: '/' :: '/' :: _ => false
  | '/' :: '/' :: _ => true
  | _ => false

/-- The path read from the working directory, without idle segments. `..` stays, and so do exactly two
slashes at the beginning and one at the end. The empty path names nothing and stays empty. -/
def absolute (p workingDirectory : Path) : Path :=
  if p.text.isEmpty then p
  else
    let base : Path :=
      if p.hasDoubleRoot then ⟨"//"⟩ else if p.isAbsolute then ⟨"/"⟩ else workingDirectory
    -- One name at a time, so that the slash of a root is not doubled.
    let whole := p.names.foldl (fun q s => q.join ⟨s⟩) base
    if p.text.toList.getLast? == some '/' then whole.join ⟨""⟩ else whole

/-- The name with a `~` at its beginning replaced by the home directory, if the `~` stands alone or
before a slash. The rest is kept as it is written. -/
def expandHome (home : Option String) (name : String) : String :=
  match home, name.toList with
  | some home, ['~'] => home
  | some home, '~' :: '/' :: rest => home ++ String.ofList ('/' :: rest)
  | _, _ => name

end Path
end ShellWords
