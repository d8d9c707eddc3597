import ShellWords.Disk
import ShellWords.Inclusion.Basic
import ShellWords.Lexer.Basic

/-!
# Inclusion of files

A name after the source keyword means a file. A relative name is read from the directory of the file
that it stands in, so a file and what it includes can be moved together.
-/

namespace ShellWords

/-- A name without the double quotes around it. A quote at its end counts only if there is one at its
beginning. -/
def withoutQuotes : List Char → List Char
  | '"' :: rest => if rest.getLast? = some '"' then rest.dropLast else rest
  | name => name

/-- The path that a name means in the given file. -/
def includedPath (home : Option String) (name : String) (current : Option Path) : Path :=
  let path : Path := ⟨Path.expandHome home (String.ofList (withoutQuotes name.toList))⟩
  if path.isAbsolute then path
  else match current.bind Path.parent with
    | some directory => directory.join path
    | none => path

/-- The resolver that opens files. -/
def Resolver.files (home : Option String) (files : FileSystem) : Resolver := .fixed fun name current =>
  let path := includedPath home name current
  match files path with
  | .error e => .error (.unresolved name e)
  | .ok stream => .ok ⟨stream, some path⟩

/-- A lexer at the beginning of a file. -/
def Lexer.openFile (config : Config) (resolver : Resolver) (files : FileSystem) (path : Path) :
    Except LexError Lexer :=
  match files path with
  | .error e => .error (.unreadable e)
  | .ok stream => .ok (.ofSource config resolver ⟨stream, some path, 1⟩)

end ShellWords
