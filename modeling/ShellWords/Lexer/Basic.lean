import ShellWords.CharClasses
import ShellWords.Inclusion.Basic
import ShellWords.Source
import ShellWords.Trace.Observer

/-!
# Lexers

A lexer reads tokens from a stack of sources. `Lexer` is everything that it carries from one call to the
next: the source being read and those suspended for it, where the automaton stands, the token in
progress, what has been put back, and who is listening. The operations here change the stack and put
tokens back; reading tokens is built on them elsewhere.

A lexer includes only so many sources: an included source may include itself, and the allowance is what
makes every run end.
-/

namespace ShellWords

/-- A lexer and all that it carries from one call to the next. -/
structure Lexer where
  /-- The options. -/
  config : Config
  /-- The source that is being read. -/
  source : Source
  /-- The sources that wait for the current one to end, innermost first. -/
  suspended : List Source := []
  /-- Where the automaton stands. -/
  state : State := .start
  /-- The token in progress. -/
  token : String := ""
  /-- The characters that have been put back, the next to be read first. -/
  pending : List Char := []
  /-- The tokens that have been put back, the next to be returned first. -/
  waiting : List String := []
  /-- What the word after the source keyword stands for, with its memory of what it was asked. -/
  resolver : Resolver
  /-- Who listens. -/
  observer : Observer := .silent
  /-- How many more sources may be included. -/
  allowance : Nat
  /-- Whether the iteration over the tokens has met an error. -/
  halted : Bool := false

namespace Lexer

/-- How many sources a lexer may include unless it is told otherwise. -/
def defaultAllowance : Nat := 1000000

/-- The observer that the options ask for. -/
def defaultObserver (config : Config) : Observer :=
  if config.debugLevel = 0 then .silent else .logger config.tag config.debugLevel

/-- A lexer at the beginning of a source. -/
def ofSource (config : Config) (resolver : Resolver) (source : Source) : Lexer where
  config
  source
  resolver
  observer := defaultObserver config
  allowance := defaultAllowance

/-- A lexer at the beginning of a text. -/
def ofText (config : Config) (resolver : Resolver) (text : String) : Lexer :=
  ofSource config resolver ⟨.ofText text, none, 1⟩

/-- The same lexer with somebody else listening. -/
def withObserver (l : Lexer) (o : Observer) : Lexer := { l with observer := o }

/-- The same lexer with another allowance. -/
def allowing (l : Lexer) (allowance : Nat) : Lexer := { l with allowance }

/-- The rules that the automaton follows. -/
def rules (l : Lexer) : Rules := .ofConfig l.config

/-- The number of the line that the current source is at. -/
def line (l : Lexer) : Nat := l.source.line

/-- The file that the current source comes from, if any. -/
def origin (l : Lexer) : Option Path := l.source.origin

/-- The number of suspended sources. -/
def depth (l : Lexer) : Nat := l.suspended.length

/-- Tells an event to whoever listens. -/
def notify (l : Lexer) (e : Event) : Lexer := { l with observer := l.observer.notify e }

/-- Moves the automaton. Only a move to another state is an event. -/
def setState (l : Lexer) (s : State) : Lexer :=
  { (if l.state = s then l else l.notify (.stateChanged l.state s)) with state := s }

/-- Takes the next character: the one that was put back last, or else one of the current source. -/
def takeChar (l : Lexer) : Except ReadError (Option Char) × Lexer :=
  match l.pending with
  | c :: rest => (.ok (some c), { l with pending := rest })
  | [] => (l.source.readChar.1, { l with source := l.source.readChar.2 })

/-- Discards the rest of the current line. -/
def skipLine (l : Lexer) : Except ReadError Unit × Lexer :=
  (l.source.skipLine.1, { l with source := l.source.skipLine.2 })

/-! ## The stack of sources -/

/-- Suspends the current source and goes on with another. -/
def pushSource (l : Lexer) (stream : Stream) (origin : Option Path) : Lexer :=
  let pushed := { l with source := ⟨stream, origin, 1⟩, suspended := l.source :: l.suspended }
  (pushed.notify (.sourcePushed origin pushed.depth)).setState .start

/-- Closes the current source and goes on with these: the one to resume, and those that still wait. -/
def resume (l : Lexer) (parent : Source) (rest : List Source) : Lexer :=
  let resumed := { l with source := parent, suspended := rest }
  (resumed.notify (.sourcePopped l.origin rest.length)).setState .start

/-- Closes the current source and goes on with the one suspended last. -/
def popSource (l : Lexer) : Except LexError Unit × Lexer :=
  match l.suspended with
  | [] => (.error .emptySourceStack, l)
  | parent :: rest => (.ok (), l.resume parent rest)

/-- Closes all sources and forgets what was put back. From then on there is only the end of the input. -/
def close (l : Lexer) : Lexer :=
  -- Nobody is told: a closed lexer has nothing more to say.
  { l with source := .empty, suspended := [], pending := [], waiting := [], state := .done }

/-- The lexer once its resolver has been asked for a name, which it remembers. -/
def asking (l : Lexer) (name : String) : Lexer :=
  { l with resolver := l.resolver.after name l.origin }

/-- Goes on with what a name includes. The name is read from the file that the keyword stood in. -/
def openInclusion (l : Lexer) (name : String) : Except LexError Unit × Lexer :=
  match l.resolver.answer name l.origin with
  | .error e => (.error e, l.asking name)
  | .ok inclusion =>
    match l.allowance with
    | 0 => (.error (.inclusionLimit name), l.asking name)
    | left + 1 =>
      (.ok (), ((l.asking name).allowing left).pushSource inclusion.stream inclusion.origin)

/-- Puts a token back, to be returned before all others. -/
def pushToken (l : Lexer) (token : String) : Lexer :=
  { l.notify (.tokenPushed token) with waiting := token :: l.waiting }

/-! ## What an operation leaves alone -/

variable (l : Lexer) (e : Event) (s : State)

/-- Telling an event does not change the options. -/
@[simp] theorem notify_config : (l.notify e).config = l.config := rfl

/-- Telling an event does not change the current source. -/
@[simp] theorem notify_source : (l.notify e).source = l.source := rfl

/-- Telling an event does not change the suspended sources. -/
@[simp] theorem notify_suspended : (l.notify e).suspended = l.suspended := rfl

/-- Telling an event does not change the state of the automaton. -/
@[simp] theorem notify_state : (l.notify e).state = l.state := rfl

/-- Telling an event does not change the token in progress. -/
@[simp] theorem notify_token : (l.notify e).token = l.token := rfl

/-- Telling an event does not change the characters that were put back. -/
@[simp] theorem notify_pending : (l.notify e).pending = l.pending := rfl

/-- Telling an event does not change the tokens that were put back. -/
@[simp] theorem notify_waiting : (l.notify e).waiting = l.waiting := rfl

/-- Telling an event does not change the resolver. -/
@[simp] theorem notify_resolver : (l.notify e).resolver = l.resolver := rfl

/-- Telling an event does not change the allowance. -/
@[simp] theorem notify_allowance : (l.notify e).allowance = l.allowance := rfl

/-- Telling an event does not change whether the iteration has ended. -/
@[simp] theorem notify_halted : (l.notify e).halted = l.halted := rfl

/-- The automaton is where it was moved. -/
@[simp] theorem setState_state : (l.setState s).state = s := rfl

/-- Moving the automaton does not change the options. -/
@[simp] theorem setState_config : (l.setState s).config = l.config := by
  unfold setState; split <;> rfl

/-- Moving the automaton does not change the current source. -/
@[simp] theorem setState_source : (l.setState s).source = l.source := by
  unfold setState; split <;> rfl

/-- Moving the automaton does not change the suspended sources. -/
@[simp] theorem setState_suspended : (l.setState s).suspended = l.suspended := by
  unfold setState; split <;> rfl

/-- Moving the automaton does not change the token in progress. -/
@[simp] theorem setState_token : (l.setState s).token = l.token := by
  unfold setState; split <;> rfl

/-- Moving the automaton does not change the characters that were put back. -/
@[simp] theorem setState_pending : (l.setState s).pending = l.pending := by
  unfold setState; split <;> rfl

/-- Moving the automaton does not change the tokens that were put back. -/
@[simp] theorem setState_waiting : (l.setState s).waiting = l.waiting := by
  unfold setState; split <;> rfl

/-- Moving the automaton does not change the resolver. -/
@[simp] theorem setState_resolver : (l.setState s).resolver = l.resolver := by
  unfold setState; split <;> rfl

/-- Moving the automaton does not change the allowance. -/
@[simp] theorem setState_allowance : (l.setState s).allowance = l.allowance := by
  unfold setState; split <;> rfl

/-- Moving the automaton does not change whether the iteration has ended. -/
@[simp] theorem setState_halted : (l.setState s).halted = l.halted := by
  unfold setState; split <;> rfl

variable (name : String)

/-- Asking for a name does not change the options. -/
@[simp] theorem asking_config : (l.asking name).config = l.config := rfl

/-- Asking for a name does not change the current source. -/
@[simp] theorem asking_source : (l.asking name).source = l.source := rfl

/-- Asking for a name does not change the suspended sources. -/
@[simp] theorem asking_suspended : (l.asking name).suspended = l.suspended := rfl

/-- Asking for a name does not change the state of the automaton. -/
@[simp] theorem asking_state : (l.asking name).state = l.state := rfl

/-- Asking for a name does not change the token in progress. -/
@[simp] theorem asking_token : (l.asking name).token = l.token := rfl

/-- Asking for a name does not change the characters that were put back. -/
@[simp] theorem asking_pending : (l.asking name).pending = l.pending := rfl

/-- Asking for a name does not change the tokens that were put back. -/
@[simp] theorem asking_waiting : (l.asking name).waiting = l.waiting := rfl

/-- Asking for a name does not change the allowance. -/
@[simp] theorem asking_allowance : (l.asking name).allowance = l.allowance := rfl

/-- Asking for a name does not change whether the iteration has ended. -/
@[simp] theorem asking_halted : (l.asking name).halted = l.halted := rfl

variable (allowance : Nat)

/-- Another allowance does not change the options. -/
@[simp] theorem allowing_config : (l.allowing allowance).config = l.config := rfl

/-- Another allowance does not change the current source. -/
@[simp] theorem allowing_source : (l.allowing allowance).source = l.source := rfl

/-- Another allowance does not change the suspended sources. -/
@[simp] theorem allowing_suspended : (l.allowing allowance).suspended = l.suspended := rfl

/-- Another allowance does not change the state of the automaton. -/
@[simp] theorem allowing_state : (l.allowing allowance).state = l.state := rfl

/-- Another allowance does not change the token in progress. -/
@[simp] theorem allowing_token : (l.allowing allowance).token = l.token := rfl

/-- Another allowance does not change the characters that were put back. -/
@[simp] theorem allowing_pending : (l.allowing allowance).pending = l.pending := rfl

/-- Another allowance does not change the tokens that were put back. -/
@[simp] theorem allowing_waiting : (l.allowing allowance).waiting = l.waiting := rfl

/-- Another allowance does not change the resolver. -/
@[simp] theorem allowing_resolver : (l.allowing allowance).resolver = l.resolver := rfl

/-- Another allowance does not change whether the iteration has ended. -/
@[simp] theorem allowing_halted : (l.allowing allowance).halted = l.halted := rfl

/-- The allowance is the one that was given. -/
@[simp] theorem allowing_allowance : (l.allowing allowance).allowance = allowance := rfl

/-- A resolver without a memory is the same once it has been asked. -/
theorem asking_eq {l : Lexer} (h : l.resolver.Memoryless) (name : String) : l.asking name = l := by
  rw [asking, h]

/-- Nothing changes if the automaton is there already. -/
theorem setState_of_state {l : Lexer} {s : State} (h : l.state = s) : l.setState s = l := by
  rw [setState, if_pos h, ← h]

/-! ## What is left to read -/

/-- What is left to read of the current source, with the characters that were put back. -/
def remaining : Nat := l.source.unread + l.pending.length

/-- How much work the current source still is, and the tokens that were put back. A character is worth
more than any two states, and a token that was put back is worth as little as can be. -/
def work : Nat := 3 * l.remaining + l.state.rank + l.waiting.length

/-- How much work all sources still are. -/
def workload : Nat := l.work + l.suspended.foldr (fun s n => 3 * s.unread + 2 + n) 0

/-- A character that is taken is no longer left to read. -/
theorem remaining_lt_of_takeChar {l m : Lexer} {c : Char} (h : l.takeChar = (.ok (some c), m)) :
    m.remaining < l.remaining := by
  unfold takeChar at h
  split at h
  · rename_i d rest hp
    simp only [Prod.mk.injEq] at h
    simp [← h.2, remaining, hp]
  · rename_i hp
    simp only [Prod.mk.injEq] at h
    have := Source.unread_lt_of_readChar (Prod.ext h.1 rfl)
    simp [← h.2, remaining, hp, this]

/-- Taking a character adds nothing to what is left to read. -/
theorem remaining_takeChar_le : l.takeChar.2.remaining ≤ l.remaining := by
  unfold takeChar
  split
  · rename_i c rest hp
    simp [remaining, hp]
  · rename_i hp
    simpa [remaining, hp] using l.source.unread_readChar_le

/-- Taking a character does not change the state of the automaton. -/
@[simp] theorem takeChar_state : l.takeChar.2.state = l.state := by
  unfold takeChar; split <;> rfl

/-- Taking a character does not change the tokens that were put back. -/
@[simp] theorem takeChar_waiting : l.takeChar.2.waiting = l.waiting := by
  unfold takeChar; split <;> rfl

/-- Taking a character does not change the suspended sources. -/
@[simp] theorem takeChar_suspended : l.takeChar.2.suspended = l.suspended := by
  unfold takeChar; split <;> rfl

/-- Taking a character does not change the allowance. -/
@[simp] theorem takeChar_allowance : l.takeChar.2.allowance = l.allowance := by
  unfold takeChar; split <;> rfl

/-- Discarding a line adds nothing to what is left to read. -/
theorem remaining_skipLine_le : l.skipLine.2.remaining ≤ l.remaining := by
  exact Nat.add_le_add_right l.source.unread_skipLine_le _

end Lexer
end ShellWords
