import ShellWords.Proofs.Decoding

/-!
# UTF-8 is decoded exactly

The encodings of two characters are never the same, and none begins another one
(`Text.Utf8.encodeChar_append_inj`), so a sequence of bytes has one longest text that it begins with.
`Text.Utf8.Reads` says what is to be read first out of some bytes: the character whose encoding they begin with,
or, where they begin with none, a failure that takes as many bytes as the first of them announces.
What a byte announces is said of the encoder alone (`Text.Utf8.Announces`), and `announces_iff` shows that the
table of the decoder agrees with it.

A source reads just that (`Source.reads`), so the calls up to the first that gives no character give the longest
text (`Source.exists_drained`, `Text.Utf8.prefix_of_encoding`). A failing call leaves a source over the bytes behind
those that it has taken, of which the same is true.
-/

namespace ShellWords

namespace Text.Utf8

/-- A byte that begins no character and continues one at best. -/
def IsStray (b : UInt8) : Prop := 0x80 ≤ b ∧ b ≤ 0xC1 ∨ 0xF5 ≤ b

/-- It can be decided whether a byte is one. -/
instance (b : UInt8) : Decidable (IsStray b) := inferInstanceAs (Decidable (_ ∨ _))

/-- These are the bytes that announce no character. -/
theorem width?_eq_none_iff (b : UInt8) : width? b = none ↔ IsStray b := by
  simp only [width?, IsStray, UInt8.le_iff_toNat_le, UInt8.reduceToNat, Bool.and_eq_true, decide_eq_true_eq]
  split_ifs <;> simp only [false_iff, true_iff] <;> omega

/-! ## Bytes and characters -/

variable {bs rest : List UInt8} {c d : Char} {cs ds : List Char} {lead : UInt8} {n : Nat}

/-- A text begins with the bytes of its first character. -/
theorem encode_cons (c : Char) (cs : List Char) : encode (c :: cs) = String.utf8EncodeChar c ++ encode cs :=
  List.flatMap_cons

/-- Only no characters are encoded by no bytes. -/
theorem encode_eq_nil_iff : encode cs = [] ↔ cs = [] := by
  cases cs with
  | nil => exact iff_of_true rfl rfl
  | cons c cs => simp [encode_cons, String.utf8EncodeChar_ne_nil]

/-- The bytes of two texts are those of the one and those of the other. -/
theorem encode_append (cs ds : List Char) : encode (cs ++ ds) = encode cs ++ encode ds :=
  List.flatMap_append

/-- Bytes are decoded to a text just when they are its encoding. -/
theorem decode?_eq_some_iff {text : String} : decode? bs = some text ↔ bs = encode text.toList := by
  have htext : (encode text.toList).toByteArray = text.toByteArray := String.utf8Encode_toList
  have hinj {xs ys : List UInt8} (h : xs.toByteArray = ys.toByteArray) : xs = ys := by
    simpa using congrArg (fun b : ByteArray => b.data.toList) h
  unfold decode? String.fromUTF8?
  constructor
  · intro h
    split at h
    · obtain rfl := Option.some.inj h
      exact hinj htext.symm
    · cases h
  · rintro rfl
    rw [htext, dif_pos text.isValidUTF8]
    rfl

/-- Bytes that are decoded to a character begin with its encoding. -/
theorem encoding_of_whole? (h : whole? bs = some c) : String.utf8EncodeChar c <+: bs := by
  obtain ⟨l, hl⟩ := ByteArray.exists_of_utf8DecodeChar?_eq_some h
  have hdata := congrArg (fun b : ByteArray => b.data.toList) hl
  refine ⟨l.data.toList, ?_⟩
  simpa using hdata.symm

/-- Bytes that begin with an encoding begin with that of one character only. -/
theorem encodeChar_append_inj {xs ys : List UInt8}
    (h : String.utf8EncodeChar c ++ xs = String.utf8EncodeChar d ++ ys) : c = d ∧ xs = ys := by
  have hc := Stream.next_encodeChar_append c xs none
  have hd := Stream.next_encodeChar_append d ys none
  rw [h, hd] at hc
  simp only [Prod.mk.injEq, Except.ok.injEq, Option.some.injEq, Stream.mk.injEq, and_true] at hc
  exact ⟨hc.1.symm, hc.2.symm⟩

/-- Where a text is followed by bytes that begin no character, it is the longest one that the bytes begin with. -/
theorem prefix_of_encoding (hno : ∀ c, ¬ String.utf8EncodeChar c <+: rest)
    (h : encode ds <+: encode cs ++ rest) : ds <+: cs := by
  induction cs generalizing ds with
  | nil =>
    cases ds with
    | nil => exact List.prefix_rfl
    | cons d ds =>
      rw [encode_cons] at h
      exact (hno d ((List.prefix_append _ _).trans h)).elim
  | cons c cs ih =>
    cases ds with
    | nil => exact List.nil_prefix
    | cons d ds =>
      obtain ⟨tail, htail⟩ := h
      rw [encode_cons, encode_cons, List.append_assoc, List.append_assoc] at htail
      obtain ⟨rfl, hbehind⟩ := encodeChar_append_inj htail
      exact List.cons_prefix_cons.2 ⟨rfl, ih ⟨tail, hbehind⟩⟩

/-- A text is the longest that some bytes begin with: every other one that they begin with is a part of it. -/
structure IsLongest (cs : List Char) (bs : List UInt8) : Prop where
  begins : encode cs <+: bs
  longest : ∀ ds, encode ds <+: bs → ds <+: cs

/-- No character is encoded by no bytes. -/
theorem not_encodeChar_prefix_nil (c : Char) : ¬ String.utf8EncodeChar c <+: [] := by
  rw [List.prefix_nil]
  exact String.utf8EncodeChar_ne_nil

/-! ## What the first byte announces -/

/-- How many bytes a first byte announces: as many as the characters take that are encoded with it in front, and
itself alone if there is no such character. -/
inductive Announces (lead : UInt8) : Nat → Prop
  | char (c : Char) (others : List UInt8) (h : String.utf8EncodeChar c = lead :: others) :
    Announces lead (others.length + 1)
  | stray (h : IsStray lead) : Announces lead 1

/-- A byte that an encoding begins with announces as many bytes as the encoding has. -/
theorem width?_of_encoding (h : String.utf8EncodeChar c <+: lead :: rest) :
    width? lead = some (String.utf8EncodeChar c).length := by
  obtain ⟨_, others, hbytes, hwidth⟩ := width?_utf8EncodeChar c
  rw [hbytes] at h
  rw [← (List.cons_prefix_cons.1 h).1, hwidth, hbytes, List.length_cons]

/-- The bytes that the first one announces are decoded to the character whose encoding all the bytes begin with. -/
theorem whole?_iff (hwidth : width? lead = some (n + 1)) :
    whole? (lead :: rest.take n) = some c ↔ String.utf8EncodeChar c <+: lead :: rest := by
  constructor
  · intro h
    exact (encoding_of_whole? h).trans (List.take_prefix (n + 1) (lead :: rest))
  · intro h
    have hlength := Option.some.inj (hwidth.symm.trans (width?_of_encoding h))
    have htake : lead :: rest.take n = String.utf8EncodeChar c := by
      rw [← List.take_succ_cons, hlength]
      exact (List.prefix_iff_eq_take.1 h).symm
    rw [htake, whole?_utf8EncodeChar]

/-- The least bytes that make a character of a first byte. -/
def leastOthers (lead : UInt8) : List UInt8 :=
  (if lead = 0xE0 then 0xA0 else if lead = 0xF0 then 0x90 else 0x80) :: [0x80, 0x80]

/-- A first byte that announces some bytes begins a character. -/
theorem isSome_whole?_leastOthers (h : width? lead = some n) :
    (whole? (lead :: (leastOthers lead).take (n - 1))).isSome := by
  -- There are no more than 256 bytes to try.
  have hall : ∀ i : Fin 256, (width? (.ofFin i)).all fun n =>
      (whole? (.ofFin i :: (leastOthers (.ofFin i)).take (n - 1))).isSome := by
    decide +kernel
  have hlead := hall lead.toFin
  rwa [UInt8.ofFin_toFin, h, Option.all_some] at hlead

/-- The table of the decoder gives what a first byte announces. -/
theorem announces_iff : Announces lead n ↔ (width? lead).getD 1 = n := by
  constructor
  · rintro (⟨c, others, h⟩ | h)
    · obtain ⟨_, _, hbytes, hwidth⟩ := width?_utf8EncodeChar c
      obtain ⟨rfl, rfl⟩ := List.cons.inj (hbytes.symm.trans h)
      rw [hwidth]
      rfl
    · rw [(width?_eq_none_iff lead).2 h]
      rfl
  · rintro rfl
    cases hwidth : width? lead with
    | none => exact .stray ((width?_eq_none_iff lead).1 hwidth)
    | some n =>
      obtain ⟨c, hc⟩ := Option.isSome_iff_exists.1 (isSome_whole?_leastOthers hwidth)
      have hprefix := encoding_of_whole? hc
      obtain ⟨_, others, hbytes, hagain⟩ := width?_utf8EncodeChar c
      rw [hbytes] at hprefix
      obtain ⟨rfl, -⟩ := List.cons_prefix_cons.1 hprefix
      rw [hagain, Option.some.injEq] at hwidth
      rw [Option.getD_some, ← hwidth]
      exact .char c others hbytes

/-- Every first byte announces itself at least. -/
theorem Announces.pos (h : Announces lead n) : 0 < n := by
  cases h with
  | char c others h => exact Nat.succ_pos _
  | stray h => exact Nat.one_pos

/-- Behind a first byte that announces more than there is, no character is whole. -/
theorem Announces.le_length (h : Announces lead n) (hc : String.utf8EncodeChar c <+: lead :: rest) :
    n ≤ (lead :: rest).length := by
  rw [announces_iff, width?_of_encoding hc, Option.getD_some] at h
  rw [← h]
  exact hc.length_le

/-! ## What is to be read -/

/-- What is read first out of some bytes, and what is left of them. Bytes that begin with the encoding of a character
give this character. Others give a failure, and those that the first of them announces are gone. -/
inductive Reads : List UInt8 → Except ReadError (Option Char) → List UInt8 → Prop
  | ended : Reads [] (.ok none) []
  | char (c : Char) (rest : List UInt8) : Reads (String.utf8EncodeChar c ++ rest) (.ok (some c)) rest
  /-- The first byte begins no character. -/
  | stray (b : UInt8) (h : IsStray b) (rest : List UInt8) : Reads (b :: rest) (.error (.invalidLeadByte b)) rest
  /-- There are fewer bytes than the first of them announces. -/
  | truncated (lead : UInt8) (rest : List UInt8) {n : Nat} (hlead : Announces lead n)
      (hfew : (lead :: rest).length < n) : Reads (lead :: rest) (.error .truncatedCharacter) []
  /-- There are as many bytes as the first of them announces, but they are no character. -/
  | malformed (lead : UInt8) (rest : List UInt8) {n : Nat} (hlead : Announces lead n) (hstray : ¬ IsStray lead)
      (henough : n ≤ (lead :: rest).length) (hno : ∀ c, ¬ String.utf8EncodeChar c <+: lead :: rest) :
      Reads (lead :: rest) (.error (.invalidSequence (faultyLength ((lead :: rest).take n))))
        ((lead :: rest).drop n)

end Text.Utf8

/-- The errors that say that bytes are no UTF-8. -/
inductive ReadError.IsInvalidData : ReadError → Prop
  | stray (b : UInt8) : IsInvalidData (.invalidLeadByte b)
  | truncated : IsInvalidData .truncatedCharacter
  | malformed (length : Nat) : IsInvalidData (.invalidSequence length)

namespace Text.Utf8

variable {x : Except ReadError (Option Char)} {e : ReadError}

/-- Nothing is read at the end of the bytes only. -/
theorem Reads.ok_none_iff (h : Reads bs x rest) : x = .ok none ↔ bs = [] := by
  cases h <;> simp

/-- A read at the end leaves nothing, and any other takes at least one byte. -/
theorem Reads.progress (h : Reads bs x rest) : x = .ok none ∧ rest = [] ∨ rest.length < bs.length := by
  cases h with
  | ended => exact .inl ⟨rfl, rfl⟩
  | char c rest =>
    obtain ⟨lead, others, hbytes, -⟩ := width?_utf8EncodeChar c
    right
    rw [hbytes, List.length_append, List.length_cons]
    omega
  | stray b h rest => exact .inr (Nat.lt_succ_self _)
  | truncated lead rest hlead hfew => exact .inr (Nat.succ_pos _)
  | malformed lead rest hlead hstray henough hno =>
    have hpos := hlead.pos
    right
    rw [List.length_drop]
    omega

/-- A read that fails takes the bytes that the first of them announces, or all of them if there are fewer. -/
theorem Reads.error (h : Reads bs (.error e) rest) :
    e.IsInvalidData ∧ (∀ c, ¬ String.utf8EncodeChar c <+: bs) ∧
      ∃ lead others n, bs = lead :: others ∧ Announces lead n ∧ rest = bs.drop n := by
  cases h with
  | stray b h rest =>
    refine ⟨.stray b, fun c hc => ?_, b, rest, 1, rfl, .stray h, rfl⟩
    have hnone := (width?_eq_none_iff b).2 h
    rw [width?_of_encoding hc] at hnone
    contradiction
  | truncated lead others hlead hfew =>
    refine ⟨.truncated, fun c hc => ?_, lead, others, _, rfl, hlead, ?_⟩
    · exact Nat.not_le_of_lt hfew (hlead.le_length hc)
    · rw [List.drop_eq_nil_of_le (Nat.le_of_lt hfew)]
  | malformed lead others hlead hstray henough hno => exact ⟨.malformed _, hno, lead, others, _, rfl, hlead, rfl⟩

end Text.Utf8

namespace Stream

open Text.Utf8

/-- A stream that does not fail of itself reads its bytes. -/
theorem reads (bs : List UInt8) :
    ∃ x rest, (⟨bs, none⟩ : Stream).next = (x, ⟨rest, none⟩) ∧ Reads bs x rest := by
  cases bs with
  | nil => exact ⟨_, _, rfl, .ended⟩
  | cons lead others =>
    cases hwidth : width? lead with
    | none =>
      refine ⟨_, _, ?_, .stray lead ((width?_eq_none_iff lead).1 hwidth) others⟩
      simp only [next, hwidth]
    | some n =>
      have hlead : Announces lead n := announces_iff.2 (by rw [hwidth, Option.getD_some])
      obtain ⟨k, rfl⟩ := Nat.exists_eq_add_one.2 hlead.pos
      by_cases hfew : (others.take k).length < k
      · -- The stream ends inside the character.
        refine ⟨_, _, ?_, .truncated lead others hlead ?_⟩
        · simp only [next, hwidth, Nat.add_sub_cancel, if_pos hfew, Option.getD_none]
        · rw [List.length_take] at hfew
          rw [List.length_cons]
          omega
      · cases hwhole : whole? (lead :: others.take k) with
        | some c =>
          obtain ⟨rest, hrest⟩ := (whole?_iff hwidth).1 hwhole
          refine ⟨.ok (some c), rest, ?_, hrest ▸ .char c rest⟩
          rw [← hrest, next_encodeChar_append]
        | none =>
          refine ⟨_, _, ?_, .malformed lead others hlead ?_ ?_ fun c hc => ?_⟩
          · simp only [next, hwidth, Nat.add_sub_cancel, if_neg hfew, hwhole]
            rfl
          · rw [← width?_eq_none_iff, hwidth]
            exact Option.some_ne_none _
          · rw [List.length_take] at hfew
            rw [List.length_cons]
            omega
          · rw [(whole?_iff hwidth).2 hc] at hwhole
            contradiction

end Stream

namespace Source

open Text.Utf8

variable {s : Source}

/-- A source gives what its stream gives. -/
theorem readChar_fst (s : Source) : s.readChar.1 = s.stream.next.1 := by
  unfold readChar
  split <;> simp_all

/-- A source goes on as its stream does. -/
theorem readChar_stream (s : Source) : s.readChar.2.stream = s.stream.next.2 := by
  unfold readChar
  split <;> simp_all

/-- A source over a stream that does not fail of itself reads its bytes, and keeps such a stream. -/
theorem reads (h : s.stream.failure = none) :
    Reads s.stream.bytes s.readChar.1 s.readChar.2.stream.bytes ∧ s.readChar.2.stream.failure = none := by
  obtain ⟨x, rest, hnext, hreads⟩ := Stream.reads s.stream.bytes
  rw [← h] at hnext
  rw [readChar_fst, readChar_stream, hnext]
  exact ⟨hreads, h⟩

/-- The source after so many calls. -/
def readOn : Nat → Source → Source
  | 0, s => s
  | n + 1, s => readOn n s.readChar.2

/-- A stream that does not fail never will. -/
theorem readOn_failure (h : s.stream.failure = none) (n : Nat) : (s.readOn n).stream.failure = none := by
  induction n generalizing s with
  | zero => exact h
  | succ n ih => exact ih (reads h).2

/-- The calls up to the first that gives no character give a text, which is all that can be read before the bytes
that are left; there are none exactly where this first one does not fail. -/
structure Drained (s : Source) (cs : List Char) (stop : Option ReadError) (t : Source) (rest : List UInt8) :
    Prop where
  bytes : s.stream.bytes = encode cs ++ rest
  no_more : ∀ c, ¬ String.utf8EncodeChar c <+: rest
  calls : t = s.readOn (cs.length + 1)
  ended : stop = none ↔ rest = []
  invalid : ∀ e, stop = some e → e.IsInvalidData

/-- By induction on the calls, which each take a character or are the last. -/
theorem exists_drained (h : s.stream.failure = none) :
    ∃ rest, s.Drained s.drain.1 s.drain.2.1 s.drain.2.2 rest := by
  fun_induction drain s with
  | case1 s e t hread =>
    obtain ⟨hreads, -⟩ := reads h
    rw [hread] at hreads
    obtain ⟨hinvalid, hno, lead, others, -, hbytes, -⟩ := hreads.error
    refine ⟨s.stream.bytes, rfl, hno, ?_, ?_, ?_⟩
    · rw [List.length_nil, readOn, readOn, hread]
    · simp [hbytes]
    · rintro _ ⟨⟩
      exact hinvalid
  | case2 s t hread =>
    obtain ⟨hreads, -⟩ := reads h
    rw [hread] at hreads
    have hnil := hreads.ok_none_iff.1 rfl
    refine ⟨[], hnil, not_encodeChar_prefix_nil, ?_, iff_of_true rfl rfl, ?_⟩
    · rw [List.length_nil, readOn, readOn, hread]
    · rintro _ ⟨⟩
  | case3 s c t hread cs stop u hdrain ih =>
    obtain ⟨hreads, hfailure⟩ := reads h
    rw [hread] at hreads hfailure
    obtain ⟨rest, hrest⟩ := ih hfailure
    rw [hdrain] at hrest
    refine ⟨rest, ?_, hrest.no_more, ?_, hrest.ended, hrest.invalid⟩
    · generalize hbs : s.stream.bytes = bs at hreads
      generalize ht : t.stream.bytes = ts at hreads
      cases hreads with
      | char c rest => rw [← ht, hrest.bytes, encode_cons, List.append_assoc]
    · show u = readOn (cs.length + 1) s.readChar.2
      rw [hread]
      exact hrest.calls

/-- Decoding is exact. -/
structure DecodesExactly (s : Source) : Prop where
  /-- The calls give characters and then the end of the input just when these characters are what is encoded. -/
  text : ∀ cs, s.drain = (cs, none, s.readOn (cs.length + 1)) ↔ s.stream.bytes = encode cs
  /-- Otherwise they give the longest text that is encoded at the front, and an error. -/
  fault : (∀ cs, s.stream.bytes ≠ encode cs) → ∃ cs e, s.drain = (cs, some e, s.readOn (cs.length + 1)) ∧
    e.IsInvalidData ∧ IsLongest cs s.stream.bytes
  /-- What the next call gives and leaves. -/
  reads : Reads s.stream.bytes s.readChar.1 s.readChar.2.stream.bytes
  /-- It gives nothing only where no bytes are left. -/
  ended : s.readChar.1 = .ok none ↔ s.stream.bytes = []
  /-- It takes a byte at least if it gives anything. -/
  progress : s.readChar.1 = .ok none ∨ s.readChar.2.unread < s.unread
  /-- If it fails, it takes the bytes that the first one announces, or all if there are fewer. -/
  failing : ∀ e, s.readChar.1 = .error e → e.IsInvalidData ∧ ∃ lead others n,
    s.stream.bytes = lead :: others ∧ Announces lead n ∧ s.readChar.2.stream.bytes = s.stream.bytes.drop n

/-- The longest text has been read when no character is left to read. -/
theorem Drained.isLongest {cs : List Char} {stop : Option ReadError} {t : Source} {rest : List UInt8}
    (h : s.Drained cs stop t rest) : IsLongest cs s.stream.bytes where
  begins := h.bytes ▸ List.prefix_append _ _
  longest _ hds := prefix_of_encoding h.no_more (h.bytes ▸ hds)

/-- A text is read to its end just when it is all that is encoded. -/
theorem drain_eq_iff (h : s.stream.failure = none) (cs : List Char) :
    s.drain = (cs, none, s.readOn (cs.length + 1)) ↔ s.stream.bytes = encode cs := by
  obtain ⟨rest, hrest⟩ := exists_drained h
  constructor
  · intro hdrain
    rw [hdrain] at hrest
    rw [hrest.bytes, hrest.ended.1 rfl, List.append_nil]
  · -- What has been read goes at least as far as the whole text, and no bytes are left for more.
    intro hbytes
    obtain ⟨tail, htail⟩ := hrest.isLongest.longest cs (hbytes ▸ List.prefix_rfl)
    have hcs := hbytes.symm.trans hrest.bytes
    rw [← htail, encode_append, List.append_assoc, List.self_eq_append_right, List.append_eq_nil_iff,
      encode_eq_nil_iff] at hcs
    rw [hcs.1, List.append_nil] at htail
    have hstop := hrest.ended.2 hcs.2
    have hcalls := hrest.calls
    rw [← htail] at hcalls
    exact Prod.ext htail.symm (Prod.ext hstop hcalls)

/-- A source over a stream that does not fail of itself decodes it exactly. -/
theorem decodesExactly (h : s.stream.failure = none) : s.DecodesExactly where
  text := drain_eq_iff h
  fault hno := by
    obtain ⟨rest, hrest⟩ := exists_drained h
    cases hstop : s.drain.2.1 with
    | none =>
      refine (hno s.drain.1 ?_).elim
      rw [hrest.bytes, hrest.ended.1 hstop, List.append_nil]
    | some e =>
      exact ⟨_, e, Prod.ext rfl (Prod.ext hstop hrest.calls), hrest.invalid e hstop, hrest.isLongest⟩
  reads := (reads h).1
  ended := (reads h).1.ok_none_iff
  progress := (reads h).1.progress.imp_left And.left
  failing e he := by
    have hreads := (reads h).1
    rw [he] at hreads
    obtain ⟨hinvalid, -, hbytes⟩ := hreads.error
    exact ⟨hinvalid, hbytes⟩

/-- However many calls have been made to a source over some bytes, it decodes those that are left exactly. -/
theorem decodesExactly_readOn (bs : List UInt8) (origin : Option Path) (line n : Nat) :
    (readOn n ⟨⟨bs, none⟩, origin, line⟩).DecodesExactly :=
  decodesExactly (readOn_failure rfl n)

end Source
end ShellWords
