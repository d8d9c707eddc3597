import ShellWords.Lexer.State
import ShellWords.Path

/-!
# Trace events

What a lexer tells about its work. An event is raised at a fixed point of the lexer and carries what
is known there; nothing that listens can answer, so events never change what the lexer does.
-/

namespace ShellWords

/-- Something that happened in a lexer. -/
inductive Event where
  /-- The automaton is about to handle a character, or the end of the source, in this state. -/
  | charRead (state : State) (char : Option Char)
  /-- The automaton has moved to another state. -/
  | stateChanged (before after : State)
  /-- A raw token has been read; there was none before the end of the source. -/
  | rawToken (token : Option String)
  /-- A token has been returned; there was none before the end of the input. -/
  | tokenEmitted (token : Option String)
  /-- A token has been put back. -/
  | tokenPushed (token : String)
  /-- A nested source has become current, and this many are now suspended. -/
  | sourcePushed (origin : Option Path) (depth : Nat)
  /-- A nested source has been closed, and this many are still suspended. -/
  | sourcePopped (origin : Option Path) (depth : Nat)
  deriving DecidableEq, Repr

end ShellWords
