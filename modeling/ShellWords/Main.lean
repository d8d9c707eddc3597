import ShellWords.Command.Run

/-!
# The program

Carries out a run of the command: it looks up the files that the run asks for, prints, and exits.
-/

namespace ShellWords.Program

/-- The cause of a failure of the system. -/
def causeOf : IO.Error → ReadError
  | .noFileOrDirectory _ _ _ => .notFound
  | .inappropriateType _ code _ => if code = 20 then .notDirectory else .isDirectory
  | e => .failed (toString e)

/-- All that can be read, after these bytes. -/
partial def contents (input : IO.FS.Stream) (read : ByteArray) : IO Stream := do
  let next ←
    try
      pure (Except.ok (← input.read 65536))
    catch e =>
      pure (Except.error (causeOf e))
  match next with
  | .ok bytes =>
    if bytes.isEmpty then return ⟨read.toList, none⟩ else contents input (read ++ bytes)
  | .error cause => return ⟨read.toList, some cause⟩

/-- Looks a file up. -/
def load (path : Path) : IO (Except ReadError Stream) := do
  if path.text.toList.contains '\x00' then
    return .error .nulInPath
  try
    return .ok (← contents (.ofHandle (← IO.FS.Handle.mk path.text .read)) .empty)
  catch e =>
    return .error (causeOf e)

/-- Runs the command, and again for every file that it turns out to need. -/
partial def outcome (home : Option String) (args : List String) (stdin : Stream)
    (loaded : List (Path × Except ReadError Stream)) : IO Command.Outcome := do
  let files : FileSystem := fun path => (loaded.lookup path).getD (.error (.notLoaded path))
  match Command.run files home args stdin with
  | .needs path => outcome home args stdin ((path, ← load path) :: loaded)
  | done => return done

/-- Whether a run with these arguments reads the standard input. -/
def readsInput (args : List String) : Bool :=
  match Command.Invocation.ofArguments args with
  | .run options _ => !options.dumpConfig
  | _ => false

end ShellWords.Program

open ShellWords in
/-- Runs the command with the arguments and the home directory of the process. -/
def main (args : List String) : IO UInt32 := do
  let home := (← IO.getEnv "HOME").filter fun h => !h.isEmpty
  let stdin ← if Program.readsInput args then
      Program.contents (← IO.getStdin) .empty
    else pure Stream.empty
  match ← Program.outcome home args stdin [] with
  | .finished output =>
    (← IO.getStdout).putStr output.stdout
    for line in output.stderr do
      IO.eprintln line
    return UInt32.ofNat output.code
  | _ =>
    IO.eprintln "usage: shlexer [OPTIONS] [split | join | quote]"
    return 2
