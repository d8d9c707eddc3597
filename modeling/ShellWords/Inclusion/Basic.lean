import ShellWords.Stream

/-!
# Inclusions

The word after the source keyword names something to read. A resolver turns that name into a stream and
says where the stream comes from, so that names in it can be read from there.

A resolver may remember what it has been asked: it may include a file only once, run out of answers, or
answer the same request differently each time. So its answers are functions of the requests before, and
the lexer keeps the resolver as each request leaves it (`Resolver.after`). A resolver without a memory
answers out of a catalogue (`Resolver.fixed`).
-/

namespace ShellWords

/-- A stream to read instead of a name, and the file that it comes from, if any. -/
structure Inclusion where
  stream : Stream
  origin : Option Path := none
  deriving DecidableEq, Repr

/-- What a resolver is asked: for a name, met in the given file. -/
structure Request where
  name : String
  current : Option Path
  deriving DecidableEq, Repr

/-- What is found for a request: an inclusion or an error, by the requests that were made before it, the
first of them first. -/
def Finding := (earlier : List Request) → Except LexError Inclusion

namespace Finding

/-- An inclusion, whatever was asked before. -/
def ok (inclusion : Inclusion) : Finding := fun _ => .ok inclusion

/-- An error, whatever was asked before. -/
def error (e : LexError) : Finding := fun _ => .error e

end Finding

/-- Turns a name, met in the given file, into what it includes. -/
abbrev Resolver := (name : String) → (current : Option Path) → Finding

/-- What each name means in each file, once and for all. -/
abbrev Catalogue := (name : String) → (current : Option Path) → Except LexError Inclusion

namespace Resolver

/-- The answer to the next request. -/
def answer (r : Resolver) (name : String) (current : Option Path) : Except LexError Inclusion :=
  r name current []

/-- What is left of a resolver once it has answered a request: the same resolver, which remembers it. -/
def after (r : Resolver) (name : String) (current : Option Path) : Resolver :=
  fun name' current' earlier => r name' current' (⟨name, current⟩ :: earlier)

/-- A resolver that is what it was, whatever it has been asked. -/
def Memoryless (r : Resolver) : Prop := ∀ name current, r.after name current = r

/-- A resolver that finds nothing, whatever has been asked before. -/
def KnowsNothing (r : Resolver) : Prop := ∀ name current earlier, ∃ e, r name current earlier = .error e

/-- The resolver that answers out of a catalogue. -/
def fixed (c : Catalogue) : Resolver := fun name current _ => c name current

/-- The resolver that knows no file. -/
def refusing : Resolver := .fixed fun name _ => .error (.unresolved name .notFound)

/-- The answers are those of the catalogue. -/
@[simp] theorem answer_fixed (c : Catalogue) (name : String) (current : Option Path) :
    (fixed c).answer name current = c name current := rfl

/-- A catalogue does not remember what was looked up in it. -/
theorem memoryless_fixed (c : Catalogue) : (fixed c).Memoryless := fun _ _ => rfl

/-- The resolver that knows no file finds nothing. -/
theorem knowsNothing_refusing : refusing.KnowsNothing := fun _ _ _ => ⟨_, rfl⟩

end Resolver
end ShellWords
