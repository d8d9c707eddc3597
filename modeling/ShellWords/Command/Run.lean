import ShellWords.Command.Arguments
import ShellWords.Config.Dump
import ShellWords.Config.Load
import ShellWords.Inclusion.Files
import ShellWords.Json.Words
import ShellWords.Quoting
import ShellWords.Splitting

/-!
# The command

One run of the command as a function: the files, the home directory, the arguments and the standard input
give what is printed and the exit code. The options come from the user's file and are changed by the
arguments. Files are not looked up before they are needed: a run that needs one that is not loaded says so
and is done again when it is.
-/

namespace ShellWords.Command

/-- What a run leaves behind. -/
structure Output where
  /-- The exit code. -/
  code : Nat := 0
  /-- The standard output. -/
  stdout : String := ""
  /-- The lines of the standard error. -/
  stderr : List String := []
  deriving DecidableEq, Repr

/-- How a run ends. -/
inductive Outcome where
  /-- The arguments make no sense, so nothing is done. -/
  | refused
  /-- The run cannot go on without this file, which is not loaded. -/
  | needs (path : Path)
  /-- The run is finished. -/
  | finished (output : Output)
  deriving DecidableEq, Repr

/-- What the command is called in its messages. -/
def commandName : String := "shlexer"

/-- The line that the version is printed as. -/
def versionLine : String := commandName ++ " 0.1.0\n"

/-- The options of the lexer, changed as the arguments say. An empty text of operators means none, and an
empty keyword means that there is none. -/
def Options.applyTo (o : Options) (c : Config) : Config where
  posix := c.posix && !o.nonPosix
  whitespaceSplit := c.whitespaceSplit && !o.noWhitespaceSplit
  comments := c.comments || o.comments
  punctuation := match o.punctuation with
    | none => c.punctuation
    | some none => .shell
    | some (some chars) => .ofText chars
  sourceKeyword := match o.source with
    | none => c.sourceKeyword
    | some keyword => if keyword.isEmpty then none else some keyword
  debugLevel := o.debug.getD c.debugLevel
  tag := c.tag

/-- A text without one newline at its end. -/
def withoutNewline (s : String) : String :=
  if s.toList.getLast? = some '\n' then String.ofList s.toList.dropLast else s

/-- Why a mode can make nothing of a text. -/
inductive Failure where
  /-- The text has no words, for this reason. -/
  | noWords (cause : LexError)
  /-- The text is no list of words in JSON. -/
  | noJson
  deriving DecidableEq, Repr

/-- The wording of a failure. -/
def Failure.message : Failure → String
  | .noWords cause => cause.message
  | .noJson => "JSON parse error"

/-- The failure as the end of a run. -/
def Failure.outcome : Failure → Outcome
  | .noWords (.unresolved _ (.notLoaded path)) => .needs path
  | failure => .finished { code := 1, stderr := [commandName ++ ": " ++ failure.message] }

/-- What a mode makes of a text. -/
def Mode.apply (m : Mode) (config : Config) (resolver : Resolver) (input : String) :
    Except Failure String :=
  match m with
  | .split => match splitWith config resolver input with
    | .ok words => .ok (Json.written words)
    | .error e => .error (.noWords e)
  | .join => match Json.words? input with
    | some words => .ok (ShellWords.join words)
    | none => .error .noJson
  | .quote => .ok (ShellWords.quote (withoutNewline input))

/-- The text of the standard input, or the reason why there is none. -/
def inputText (stdin : Stream) : Except String String :=
  match stdin.failure with
  | some e => .error e.message
  | none => match Text.Utf8.decode? stdin.bytes with
    | some text => .ok text
    | none => .error "stream did not contain valid UTF-8"

/-- Does what has been asked for. -/
def Mode.run (m : Mode) (config : Config) (resolver : Resolver) (stdin : Stream) : Outcome :=
  match inputText stdin with
  | .error reason => .finished { code := 1, stderr := ["failed to read stdin: " ++ reason] }
  | .ok input =>
    match m.apply config resolver input with
    | .ok text => .finished { stdout := text ++ "\n" }
    | .error failure => failure.outcome

/-- The outcome, with these lines before all others on the standard error. -/
def Outcome.after (lines : List String) : Outcome → Outcome
  | .finished output => .finished { output with stderr := lines ++ output.stderr }
  | outcome => outcome

/-- One run of the command. -/
def run (files : FileSystem) (home : Option String) (args : List String) (stdin : Stream) : Outcome :=
  match Invocation.ofArguments args with
  | .refused => .refused
  | .version => .finished { stdout := versionLine }
  | .run options mode =>
    -- The options have to be known before anything else, even before a text to split is read.
    match files (overlayPath home) with
    | .error (.notLoaded path) => .needs path
    | _ =>
      let loaded := Config.load files home
      let config := options.applyTo loaded.config
      let outcome : Outcome :=
        if options.dumpConfig then .finished { stdout := config.toToml }
        else mode.run config (.files home files) stdin
      outcome.after (if loaded.isSpoiled then [commandName ++ ": config parse error"] else [])

end ShellWords.Command
