import Mathlib.Tactic.SplitIfs
import ShellWords.Source

/-!
# Reading back an encoded text

The stream of a text gives its characters one by one and then ends (`Stream.next_ofChars_cons`,
`Stream.next_ofChars_nil`), so everything the lexer does with such a stream can be said of the list of
characters. A source over a text counts its newlines as it goes, and skipping a line takes the characters
up to the next newline with it (`Source.skipLine_of_chars`).
-/

namespace ShellWords

namespace Text.Utf8

/-- The bytes of a character are decoded to that character. -/
theorem whole?_utf8EncodeChar (c : Char) : whole? (String.utf8EncodeChar c) = some c := by
  have h := @List.utf8DecodeChar?_utf8Encode_singleton c
  rw [List.utf8Encode_singleton] at h
  exact h

/-- The first byte of a character announces how many bytes follow it. -/
theorem width?_utf8EncodeChar (c : Char) :
    ∃ lead others, String.utf8EncodeChar c = lead :: others ∧
      width? lead = some (others.length + 1) := by
  have hmax : c.val.toNat ≤ 0x10ffff := by
    have hvalid := c.valid
    simp only [UInt32.isValidChar, Nat.isValidChar] at hvalid
    omega
  -- Each of the four lengths has its own range of first bytes.
  unfold String.utf8EncodeChar
  dsimp only
  split_ifs with h1 h2 h3
  · refine ⟨_, _, rfl, ?_⟩
    rw [width?, if_pos]
    · rfl
    · rw [UInt8.le_iff_toNat_le, UInt8.toNat_ofNat', Nat.mod_eq_of_lt (by omega)]
      exact h1
  all_goals
    refine ⟨_, _, rfl, ?_⟩
    generalize hb : UInt8.ofNat _ = lead
    have hlead := congrArg UInt8.toNat hb
    simp only [UInt8.toNat_ofNat'] at hlead
    rw [Nat.mod_eq_of_lt (by omega)] at hlead
    simp only [width?, UInt8.le_iff_toNat_le, UInt8.reduceToNat, Bool.and_eq_true,
      decide_eq_true_eq, List.length_cons, List.length_nil]
    split_ifs <;> first | rfl | omega

end Text.Utf8

namespace Stream

/-- The stream of these characters. -/
def ofChars (cs : List Char) : Stream := ⟨Text.Utf8.encode cs, none⟩

/-- The stream of a text is that of its characters. -/
theorem ofText_eq_ofChars (text : String) : ofText text = ofChars text.toList := rfl

/-- The stream of no characters is at its end. -/
theorem next_ofChars_nil : (ofChars []).next = (.ok none, ofChars []) := rfl

/-- A character in front of a stream is given first, and the stream goes on behind it. -/
theorem next_encodeChar_append (c : Char) (bytes : List UInt8) (failure : Option ReadError) :
    (⟨String.utf8EncodeChar c ++ bytes, failure⟩ : Stream).next = (.ok (some c), ⟨bytes, failure⟩) := by
  obtain ⟨lead, others, hbytes, hwidth⟩ := Text.Utf8.width?_utf8EncodeChar c
  have hwhole := Text.Utf8.whole?_utf8EncodeChar c
  rw [hbytes] at hwhole
  unfold next
  rw [hbytes, List.cons_append]
  simp only [hwidth, Nat.add_sub_cancel, List.take_left, List.drop_left, Nat.lt_irrefl, if_false,
    hwhole]

/-- A stream of characters gives the first of them and goes on with the others, whatever comes behind. -/
theorem next_encode_cons (c : Char) (cs : List Char) (failure : Option ReadError) :
    (⟨Text.Utf8.encode (c :: cs), failure⟩ : Stream).next =
      (.ok (some c), ⟨Text.Utf8.encode cs, failure⟩) :=
  next_encodeChar_append c (Text.Utf8.encode cs) failure

/-- The stream of a text gives the first character and goes on with the others. -/
theorem next_ofChars_cons (c : Char) (cs : List Char) :
    (ofChars (c :: cs)).next = (.ok (some c), ofChars cs) :=
  next_encode_cons c cs none

end Stream

namespace Source

/-- What a text is after its first line: all that follows the first newline. -/
def afterLine (cs : List Char) : List Char := (cs.dropWhile (· != '\n')).drop 1

/-- Behind the end of a text there is no other line. -/
theorem afterLine_nil : afterLine [] = [] := rfl

/-- A newline ends the line. -/
theorem afterLine_newline (cs : List Char) : afterLine ('\n' :: cs) = cs := rfl

/-- Any other character belongs to the line. -/
theorem afterLine_cons {c : Char} (h : c ≠ '\n') (cs : List Char) :
    afterLine (c :: cs) = afterLine cs := by
  rw [afterLine, List.dropWhile_cons_of_pos (by simpa using h), afterLine]

/-- What is behind the first line is no longer than the text. -/
theorem length_afterLine_le (cs : List Char) : (afterLine cs).length ≤ cs.length := by
  have h := (List.dropWhile_suffix (l := cs) (· != '\n')).length_le
  rw [afterLine, List.length_drop]
  omega

variable {s : Source} {c : Char} {cs : List Char}

/-- A source over no text is at its end. -/
theorem readChar_of_nil (h : s.stream = .ofChars []) : s.readChar = (.ok none, s) := by
  rw [readChar, h, Stream.next_ofChars_nil, ← h]

/-- A source gives the character that its stream gives, and counts it if it is a newline. -/
theorem readChar_of_next {rest : Stream} (h : s.stream.next = (.ok (some c), rest)) :
    s.readChar = (.ok (some c), { s with stream := rest, line := s.line + [c].count '\n' }) := by
  rw [readChar, h]
  by_cases hc : c = '\n'
  · simp [hc]
  · simp [hc]

/-- A source over a text gives the first character, and counts it if it is a newline. -/
theorem readChar_of_cons (h : s.stream = .ofChars (c :: cs)) :
    s.readChar =
      (.ok (some c), { s with stream := .ofChars cs, line := s.line + [c].count '\n' }) :=
  readChar_of_next (by rw [h, Stream.next_ofChars_cons])

/-- Skipping a line of a text leaves what comes after the line, and counts the newlines that it takes. -/
theorem skipLine_of_chars (h : s.stream = .ofChars cs) :
    ∃ n, s.skipLine = (.ok (), { s with stream := .ofChars (afterLine cs), line := s.line + n }) ∧
      n + (afterLine cs).count '\n' = cs.count '\n' := by
  induction cs generalizing s with
  | nil =>
    refine ⟨0, ?_, rfl⟩
    rw [skipLine, readChar_of_nil h, afterLine_nil, ← h]
    rfl
  | cons c cs ih =>
    rw [skipLine, readChar_of_cons h]
    by_cases hc : c = '\n'
    · subst hc
      refine ⟨1, by simp [afterLine_newline], ?_⟩
      rw [afterLine_newline, List.count_cons_self, Nat.add_comm]
    · obtain ⟨n, hskip, hcount⟩ := @ih { s with stream := .ofChars cs, line := s.line } rfl
      refine ⟨n, ?_, ?_⟩
      · simp [hc, hskip, afterLine_cons hc]
      · rw [afterLine_cons hc, List.count_cons_of_ne hc, hcount]

end Source
end ShellWords
