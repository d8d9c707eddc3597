/-!
# Arguments

The arguments of the command are options, of which each may be given once before and once after the name of
what to do. `Invocation.ofArguments` reads them from left to right and stops at the first that makes no sense
where it stands. An option that is given in both places has the value after the name.
-/

namespace ShellWords.Command

/-- What to do with the standard input. -/
inductive Mode where
  /-- Print its words. -/
  | split
  /-- Print the command line of the words that it lists. -/
  | join
  /-- Print it as one word. -/
  | quote
  deriving DecidableEq, Repr

/-- The name of something to do. -/
def Mode.ofName? : String → Option Mode
  | "split" => some .split
  | "join" => some .join
  | "quote" => some .quote
  | _ => none

/-- The options that are given in one place. -/
structure Options where
  nonPosix : Bool := false
  comments : Bool := false
  noWhitespaceSplit : Bool := false
  /-- The operators, if the option is given: with a text that holds them, or without. -/
  punctuation : Option (Option String) := none
  source : Option String := none
  debug : Option UInt8 := none
  dumpConfig : Bool := false
  deriving DecidableEq, Repr, Inhabited

/-- The options of two places together. The second place has the last word. -/
def Options.merge (before after : Options) : Options where
  nonPosix := before.nonPosix || after.nonPosix
  comments := before.comments || after.comments
  noWhitespaceSplit := before.noWhitespaceSplit || after.noWhitespaceSplit
  punctuation := after.punctuation.or before.punctuation
  source := after.source.or before.source
  debug := after.debug.or before.debug
  dumpConfig := before.dumpConfig || after.dumpConfig

/-- An argument that begins with two dashes, taken apart: the name, and the value after an equals sign. -/
structure LongArgument where
  name : String
  value : Option String
  deriving DecidableEq, Repr

/-- Takes an argument apart that begins with two dashes and does not end there. -/
def LongArgument.of? (arg : String) : Option LongArgument :=
  match arg.toList with
  | '-' :: '-' :: c :: rest =>
    let name := (c :: rest).takeWhile (· != '=')
    match (c :: rest).dropWhile (· != '=') with
    | [] => some ⟨String.ofList name, none⟩
    | _ :: value => some ⟨String.ofList name, some (String.ofList value)⟩
  | _ => none

/-- Whether an argument looks like an option, so that it cannot be the value of the one before it. A dash
by itself does not. -/
def looksLikeOption (arg : String) : Bool :=
  match arg.toList with
  | '-' :: _ :: _ => true
  | _ => false

/-- A number that fits into a byte, with or without a sign. -/
def byte? (s : String) : Option UInt8 :=
  let number? (digits : List Char) : Option Nat :=
    if digits.isEmpty || !digits.all Char.isDigit then none
    else some (digits.foldl (fun n c => 10 * n + (c.toNat - '0'.toNat)) 0)
  let n? := match s.toList with
    | '+' :: digits => number? digits
    | '-' :: digits => (number? digits).filter (· = 0)
    | digits => number? digits
  n?.bind fun n => if n < 256 then some (UInt8.ofNat n) else none

/-- Gives an option that takes no value, if it has not been given. -/
def Options.setFlag (o : Options) (name : String) : Option Options :=
  match name with
  | "non-posix" => if o.nonPosix then none else some { o with nonPosix := true }
  | "comments" => if o.comments then none else some { o with comments := true }
  | "no-whitespace-split" =>
    if o.noWhitespaceSplit then none else some { o with noWhitespaceSplit := true }
  | "dump-config" => if o.dumpConfig then none else some { o with dumpConfig := true }
  | "punctuation" => if o.punctuation.isSome then none else some { o with punctuation := some none }
  | _ => none

/-- Gives an option a value, if it takes one and has not been given. -/
def Options.setValue (o : Options) (name value : String) : Option Options :=
  match name with
  | "punctuation" =>
    if o.punctuation.isSome then none else some { o with punctuation := some (some value) }
  | "source" => if o.source.isSome then none else some { o with source := some value }
  | "debug" => if o.debug.isSome then none else (byte? value).map fun n => { o with debug := some n }
  | _ => none

/-- Whether an option needs a value, which may be the next argument. -/
def needsValue (name : String) : Bool := name == "source" || name == "debug"

/-- What the arguments ask for. -/
inductive Invocation where
  /-- To print the version. -/
  | version
  /-- To do something under these options. -/
  | run (options : Options) (mode : Mode)
  /-- Nothing that makes sense. -/
  | refused
  deriving DecidableEq, Repr

namespace Invocation

/-- Reads an option and its value from the arguments. The rest is given to the continuation. -/
def readOption (o : Options) (arg : LongArgument) (rest : List String) :
    Option (Options × List String) :=
  match arg.value with
  | some value => (o.setValue arg.name value).map (·, rest)
  | none =>
    if needsValue arg.name then
      match rest with
      | value :: rest =>
        if looksLikeOption value then none else (o.setValue arg.name value).map (·, rest)
      | [] => none
    else (o.setFlag arg.name).map (·, rest)

/-- An option leaves the arguments behind it, or all but the first, which is its value. -/
theorem length_le_of_readOption {o p : Options} {arg : LongArgument} {rest more : List String}
    (h : readOption o arg rest = some (p, more)) : more.length ≤ rest.length := by
  unfold readOption at h
  split at h
  · simp only [Option.map_eq_some_iff, Prod.mk.injEq] at h
    obtain ⟨_, _, _, rfl⟩ := h
    exact Nat.le_refl _
  · split at h
    · split at h
      · split at h
        · cases h
        · simp only [Option.map_eq_some_iff, Prod.mk.injEq] at h
          obtain ⟨_, _, _, rfl⟩ := h
          simp
      · cases h
    · simp only [Option.map_eq_some_iff, Prod.mk.injEq] at h
      obtain ⟨_, _, _, rfl⟩ := h
      exact Nat.le_refl _

/-- Reads the arguments after the name of what to do. -/
def readAfter (before : Options) (mode : Mode) (o : Options) (args : List String) : Invocation :=
  match args with
  | [] => .run (before.merge o) mode
  | ["--"] => .run (before.merge o) mode
  | arg :: rest =>
    match LongArgument.of? arg with
    | none => .refused
    | some long =>
      match _h : readOption o long rest with
      | none => .refused
      | some (o, more) => readAfter before mode o more
termination_by args.length
decreasing_by
  have := length_le_of_readOption _h
  simp
  omega

/-- Reads the arguments from the beginning. -/
def readBefore (o : Options) (args : List String) : Invocation :=
  match args with
  | [] => .run o .split
  | ["--"] => .run o .split
  | arg :: rest =>
    match Mode.ofName? arg with
    | some mode => readAfter o mode {} rest
    | none =>
      -- The version is printed at once, whatever follows.
      if arg == "--version" || "-V".toList.isPrefixOf arg.toList then .version
      else match LongArgument.of? arg with
        | none => .refused
        | some long =>
          match _h : readOption o long rest with
          | none => .refused
          | some (o, more) => readBefore o more
termination_by args.length
decreasing_by
  have := length_le_of_readOption _h
  simp
  omega

/-- What these arguments ask for. -/
def ofArguments (args : List String) : Invocation := readBefore {} args

end Invocation
end ShellWords.Command
