import ShellWords.Stream

/-!
# Sources

A source is a stream with the file it comes from and a line counter. The counter starts at one and
goes up with every newline that is decoded, whatever the newline is part of.
-/

namespace ShellWords

/-- A stream of characters that is being read. -/
structure Source where
  /-- What is still to be read. -/
  stream : Stream
  /-- The file that the stream comes from, if any. -/
  origin : Option Path := none
  /-- The number of the current line. -/
  line : Nat := 1
  deriving DecidableEq, Repr, Inhabited

namespace Source

/-- The source with nothing to read. -/
def empty : Source := ⟨.empty, none, 1⟩

/-- The number of bytes that are still to be read. -/
def unread (s : Source) : Nat := s.stream.bytes.length

/-- Reads the next character. There is none at the end of the stream. -/
def readChar (s : Source) : Except ReadError (Option Char) × Source :=
  match s.stream.next with
  | (.ok (some c), rest) =>
    (.ok (some c), { s with stream := rest, line := if c = '\n' then s.line + 1 else s.line })
  | (r, rest) => (r, { s with stream := rest })

/-- Reading never adds to what is unread. -/
theorem unread_readChar_le (s : Source) : s.readChar.2.unread ≤ s.unread := by
  have h := s.stream.next_length_le
  unfold readChar
  split <;> simp_all [unread]

/-- A character that is read is no longer unread. -/
theorem unread_lt_of_readChar {s t : Source} {c : Char} (h : s.readChar = (.ok (some c), t)) :
    t.unread < s.unread := by
  unfold readChar at h
  split at h
  · rename_i d rest hnext
    have hlt := Stream.length_lt_of_next hnext
    simp only [Prod.mk.injEq] at h
    simpa [← h.2, unread] using hlt
  · rename_i r rest hnot hnext
    simp only [Prod.mk.injEq] at h
    exact (hnot c h.1).elim

/-- Discards everything up to the next newline, and the newline. -/
def skipLine (s : Source) : Except ReadError Unit × Source :=
  match _h : s.readChar with
  | (.error e, t) => (.error e, t)
  | (.ok none, t) => (.ok (), t)
  | (.ok (some c), t) => if c = '\n' then (.ok (), t) else t.skipLine
termination_by s.unread
decreasing_by exact unread_lt_of_readChar _h

/-- Skipping a line never adds to what is unread. -/
theorem unread_skipLine_le (s : Source) : s.skipLine.2.unread ≤ s.unread := by
  fun_induction skipLine s with
  | case1 s e t h => simpa [h] using s.unread_readChar_le
  | case2 s t h => simpa [h] using s.unread_readChar_le
  | case3 s t h => simpa [h] using s.unread_readChar_le
  | case4 s c t h hc ih => exact Nat.le_trans ih (Nat.le_of_lt (unread_lt_of_readChar h))

/-- All characters up to the end of the stream or the first failure, and that failure. -/
def drain (s : Source) : List Char × Option ReadError × Source :=
  match _h : s.readChar with
  | (.error e, t) => ([], some e, t)
  | (.ok none, t) => ([], none, t)
  | (.ok (some c), t) =>
    let (cs, stop, u) := t.drain
    (c :: cs, stop, u)
termination_by s.unread
decreasing_by exact unread_lt_of_readChar _h

/-- A description of the source: where it comes from and the line it is at. -/
def describe (s : Source) : String :=
  "Source \x7b origin: " ++ Text.optional (fun p => Text.literal p.text) s.origin ++
    ", line: " ++ toString s.line ++ ", .. \x7d"

end Source
end ShellWords
