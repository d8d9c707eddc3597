import ShellWords.Error
import ShellWords.Text.Utf8

/-!
# Streams

A stream is the bytes that are still to be read and what happens after them: the end of the input, or
a failure that stays. `Stream.next` decodes one character. It reads as many bytes as the first of them
announces and no more, so nothing of the stream is lost behind a character, and a character that is
not well formed takes exactly its own bytes with it.
-/

namespace ShellWords

/-- A stream of bytes. -/
structure Stream where
  /-- The bytes that are still to be read. -/
  bytes : List UInt8
  /-- The failure after the last byte. Without one, the input ends there. -/
  failure : Option ReadError := none
  deriving DecidableEq, Repr, Inhabited

namespace Stream

/-- The stream with nothing in it. -/
def empty : Stream := ⟨[], none⟩

/-- The stream of a text. -/
def ofText (text : String) : Stream := ⟨Text.Utf8.encode text.toList, none⟩

/-- The stream that fails once this many bytes have been read. One that ends before is not changed. -/
def failingAfter (s : Stream) (count : Nat) (e : ReadError) : Stream :=
  if count ≤ s.bytes.length then ⟨s.bytes.take count, some e⟩ else s

/-- Decodes the next character. There is none at the end of the input. -/
def next (s : Stream) : Except ReadError (Option Char) × Stream :=
  match s.bytes with
  | [] =>
    match s.failure with
    | none => (.ok none, s)
    | some e => (.error e, s)
  | lead :: rest =>
    match Text.Utf8.width? lead with
    | none => (.error (.invalidLeadByte lead), { s with bytes := rest })
    | some width =>
      let others := rest.take (width - 1)
      -- The stream stops inside the character. Its own failure, if it has one, is the cause.
      if others.length < width - 1 then
        (.error (s.failure.getD .truncatedCharacter), { s with bytes := [] })
      else
        let after := { s with bytes := rest.drop (width - 1) }
        match Text.Utf8.whole? (lead :: others) with
        | some c => (.ok (some c), after)
        -- The bytes are gone all the same, so the next character starts behind them.
        | none => (.error (.invalidSequence (Text.Utf8.faultyLength (lead :: others))), after)

/-- What is left after a character, or after a failure to decode one, is shorter, unless there was
nothing left. -/
theorem next_length (s : Stream) :
    s.next.2.bytes.length < s.bytes.length ∨ s.bytes = [] ∧ s.next.2 = s := by
  unfold next
  split
  · rename_i h
    split <;> simp [h]
  · rename_i lead rest h
    left
    split
    · simp [h]
    · dsimp only
      split
      · simp [h]
      · split <;> simp only [h, List.length_cons, List.length_drop] <;> omega

/-- Reading never adds to a stream. -/
theorem next_length_le (s : Stream) : s.next.2.bytes.length ≤ s.bytes.length := by
  rcases s.next_length with h | ⟨-, h⟩
  · exact Nat.le_of_lt h
  · simp [h]

/-- A character is taken out of the stream. -/
theorem length_lt_of_next {s t : Stream} {c : Char} (h : s.next = (.ok (some c), t)) :
    t.bytes.length < s.bytes.length := by
  rcases s.next_length with hlt | ⟨hnil, -⟩
  · simpa [h] using hlt
  · unfold next at h
    rw [hnil] at h
    dsimp only at h
    split at h <;> simp at h

end Stream
end ShellWords
