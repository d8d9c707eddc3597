import ShellWords.Stream

/-!
# Files

To the lexer, files are what opening their paths gives: a stream, or the reason why there is none
(`FileSystem`). `Disk` is a finite tree of files and directories. Its paths are walked name by name:
every step, even one that leads nowhere, has to start from a directory.
-/

namespace ShellWords

/-- What opening a path gives. -/
abbrev FileSystem := Path → Except ReadError Stream

/-- A thing on a disk. -/
inductive Node where
  | file (contents : Stream)
  | directory
  deriving Repr, Inhabited

/-- The stream that opening the thing gives. A directory can be opened, but not read. -/
def Node.stream : Node → Stream
  | file contents => contents
  | directory => ⟨[], some .isDirectory⟩

/-- A tree of files and directories, given by the names that lead to them from the root. The directories
above them need not be given. -/
structure Disk where
  nodes : List (List String × Node)
  deriving Repr, Inhabited

namespace Disk

/-- What stands at the end of these names, if anything does. -/
def node? (d : Disk) (names : List String) : Option Node :=
  match d.nodes.lookup names with
  | some node => some node
  -- What lies above a given name is a directory without being given.
  | none => if names.isEmpty || d.nodes.any fun n => names.isPrefixOf n.1 then some .directory else none

/-- Walks segment by segment from the place with these names. -/
def walk (d : Disk) (names : List String) : List String → Except ReadError Node
  | [] => match d.node? names with
    | some node => .ok node
    | none => .error .notFound
  | segment :: rest =>
    match d.node? names with
    | none => .error .notFound
    -- Even `.` and a slash at the end ask for a directory.
    | some (.file _) => .error .notDirectory
    | some .directory =>
      if segment == "" || segment == "." then d.walk names rest
      else if segment == ".." then d.walk names.dropLast rest
      else d.walk (names ++ [segment]) rest

/-- What opening the paths gives, read from a working directory. -/
def fileSystem (d : Disk) (workingDirectory : Path) : FileSystem := fun p =>
  if p.text.toList.contains '\x00' then .error .nulInPath
  else if p.text.isEmpty then .error .notFound
  else
    let start := if p.isAbsolute then [] else workingDirectory.names
    (d.walk start ((Path.segments p.text.toList).map String.ofList)).map Node.stream

end Disk
end ShellWords
