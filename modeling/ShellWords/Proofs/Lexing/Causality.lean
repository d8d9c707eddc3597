import ShellWords.Proofs.Inclusion.Within
import ShellWords.Proofs.Lexing.Resting
import ShellWords.Proofs.Text.Utf8

/-!
# A token does not depend on what stands behind it

Nothing is read in advance. A character is decoded from as many bytes as the first of them announces, and what is
behind these is neither looked at nor touched. So whatever is read before a stream comes to its end is read in the
same way if other bytes stand behind it, or none, or a failure, and these are what is left then
(`Stream.next_behind`). This goes up from characters to lines that are skipped and to tokens, where a character that
has been put back is read again without taking anything from the stream.

`Stream.behind` puts bytes in front of a stream, and `Lexer.reading` exchanges the stream that a lexer reads from. What
an operation takes are the bytes in front of what it leaves. A run takes what its turns take, one after the other
(`run_reading`), and so does the reading of a raw token (`readToken_causal`).

Where the stream has come to its end, this need not hold. A word that ends there may go on, and a character of which
some bytes are missing may be completed. That is why something has to be left.
-/

namespace ShellWords

/-! ## Characters -/

namespace Stream

variable {s t : Stream}

/-- A stream behind these bytes. -/
def behind (p : List UInt8) (s : Stream) : Stream := { s with bytes := p ++ s.bytes }

/-- Behind no bytes a stream is what it was. -/
@[simp] theorem behind_nil (s : Stream) : s.behind [] = s := rfl

/-- Behind some bytes, and those behind others, it is behind all of them. -/
theorem behind_append (p q : List UInt8) (s : Stream) : s.behind (p ++ q) = (s.behind q).behind p := by
  simp [behind]

/-- If something is left, something was there before. -/
theorem behind_ne_nil (h : s.bytes ≠ []) (p : List UInt8) : (s.behind p).bytes ≠ [] := by
  simp [behind, h]

/-- What is read before a stream comes to its end is read in the same way whatever is left of the stream. -/
theorem next_behind {x : Except ReadError (Option Char)} (h : s.next = (x, t)) (hleft : t.bytes ≠ []) :
    ∃ p, s = t.behind p ∧ ∀ u : Stream, (u.behind p).next = (x, u) := by
  obtain ⟨bytes, failure⟩ := s
  cases bytes with
  | nil =>
    have hsame : t = ⟨[], failure⟩ := by
      cases failure <;> exact (Prod.mk.inj h).2.symm
    exact (hleft (by rw [hsame])).elim
  | cons lead rest =>
    rw [next] at h
    dsimp only at h
    split at h
    · rename_i hwidth
      obtain ⟨rfl, rfl⟩ := Prod.mk.inj h
      refine ⟨[lead], rfl, fun u => ?_⟩
      simp only [next, behind, List.cons_append, List.nil_append, hwidth]
    · rename_i width hwidth
      split_ifs at h with hshort
      · obtain ⟨-, rfl⟩ := Prod.mk.inj h
        exact (hleft rfl).elim
      · -- The bytes of one character, well formed or not, are all there.
        have hlength : (rest.take (width - 1)).length = width - 1 := by
          have hle := rest.length_take_le (width - 1)
          omega
        have hsame : t = ⟨rest.drop (width - 1), failure⟩ := by
          split at h <;> exact (Prod.mk.inj h).2.symm
        subst hsame
        refine ⟨lead :: rest.take (width - 1), by simp [behind], fun u => ?_⟩
        have htake : (rest.take (width - 1) ++ u.bytes).take (width - 1) = rest.take (width - 1) :=
          List.take_left' hlength
        have hdrop : (rest.take (width - 1) ++ u.bytes).drop (width - 1) = u.bytes :=
          List.drop_left' hlength
        simp only [next, behind, List.cons_append, hwidth, htake, hdrop, if_neg hshort]
        split at h
        · obtain ⟨rfl, -⟩ := Prod.mk.inj h
          rfl
        · obtain ⟨rfl, -⟩ := Prod.mk.inj h
          rfl

end Stream

/-! ## Lines -/

namespace Source

variable {s t : Source}

/-- The source with another stream to read from. -/
def reading (s : Source) (stream : Stream) : Source := { s with stream }

/-- So it is with the characters of a source, and the line is the same as well. -/
theorem readChar_reading {x : Except ReadError (Option Char)} (h : s.readChar = (x, t))
    (hleft : t.stream.bytes ≠ []) :
    ∃ p, s.stream = t.stream.behind p ∧ ∀ u : Stream, (s.reading (u.behind p)).readChar = (x, t.reading u) := by
  rw [readChar] at h
  rcases hnext : s.stream.next with ⟨e | _ | c, rest⟩ <;> rw [hnext] at h <;> obtain ⟨rfl, rfl⟩ := Prod.mk.inj h
  all_goals
    obtain ⟨p, hbytes, hbehind⟩ := Stream.next_behind hnext hleft
    refine ⟨p, hbytes, fun u => ?_⟩
    simp only [readChar, reading, hbehind]

/-- So it is with a line that is skipped. -/
theorem skipLine_reading {x : Except ReadError Unit} (h : s.skipLine = (x, t)) (hleft : t.stream.bytes ≠ []) :
    ∃ p, s.stream = t.stream.behind p ∧ ∀ u : Stream, (s.reading (u.behind p)).skipLine = (x, t.reading u) := by
  fun_induction skipLine s with
  | case1 s e next hread =>
    obtain ⟨rfl, rfl⟩ := Prod.mk.inj h
    obtain ⟨p, hbytes, hbehind⟩ := readChar_reading hread hleft
    exact ⟨p, hbytes, fun u => by rw [skipLine, hbehind]⟩
  | case2 s next hread =>
    obtain ⟨rfl, rfl⟩ := Prod.mk.inj h
    obtain ⟨p, hbytes, hbehind⟩ := readChar_reading hread hleft
    exact ⟨p, hbytes, fun u => by rw [skipLine, hbehind]⟩
  | case3 s next hread =>
    obtain ⟨rfl, rfl⟩ := Prod.mk.inj h
    obtain ⟨p, hbytes, hbehind⟩ := readChar_reading hread hleft
    exact ⟨p, hbytes, fun u => by rw [skipLine, hbehind]; rfl⟩
  | case4 s c next hread hc ih =>
    obtain ⟨q, hrest, hskip⟩ := ih h
    obtain ⟨p, hbytes, hbehind⟩ := readChar_reading hread (hrest ▸ Stream.behind_ne_nil hleft q)
    refine ⟨p ++ q, by rw [hbytes, hrest, Stream.behind_append], fun u => ?_⟩
    rw [Stream.behind_append, skipLine, hbehind]
    dsimp only
    rw [if_neg hc, hskip]

end Source

/-! ## Tokens -/

namespace Lexer

variable {l m taken skipped : Lexer} {r : Rules} {quoted : Bool}

/-- The lexer with another stream to read from. -/
def reading (l : Lexer) (stream : Stream) : Lexer := { l with source := l.source.reading stream }

/-- Moving the automaton does not touch the stream. -/
theorem setState_reading (l : Lexer) (s : State) (u : Stream) :
    (l.reading u).setState s = (l.setState s).reading u := by
  unfold setState
  split <;> rename_i h
  · rw [if_pos (show l.state = s from h)]
    rfl
  · rw [if_neg (show ¬ l.state = s from h)]
    rfl

/-- Nor does carrying out a move. -/
theorem apply_reading (l : Lexer) (move : Move) (c : Char) (u : Stream) :
    (l.reading u).apply move c = (l.apply move c).reading u :=
  setState_reading { l with
    token := move.token
    pending := if move.held = .char then c :: l.pending else l.pending
    waiting := if move.held = .token then String.singleton c :: l.waiting else l.waiting } move.state u

/-- A character is taken in the same way whatever is left of the stream. One that was put back is not taken from
the stream at all. -/
theorem takeChar_reading {x : Except ReadError (Option Char)} (h : l.takeChar = (x, m))
    (hleft : m.source.stream.bytes ≠ []) :
    ∃ p, l.source.stream = m.source.stream.behind p ∧
      ∀ u : Stream, (l.reading (u.behind p)).takeChar = (x, m.reading u) := by
  unfold takeChar at h
  split at h
  · rename_i c rest hpending
    obtain ⟨rfl, rfl⟩ := Prod.mk.inj h
    refine ⟨[], rfl, fun u => ?_⟩
    have hsame : (l.reading u).pending = c :: rest := hpending
    rw [Stream.behind_nil, takeChar, hsame]
    rfl
  · rename_i hpending
    obtain ⟨rfl, rfl⟩ := Prod.mk.inj h
    have hread : l.source.readChar = (l.source.readChar.1, l.source.readChar.2) := rfl
    obtain ⟨p, hbytes, hbehind⟩ := Source.readChar_reading hread hleft
    refine ⟨p, hbytes, fun u => ?_⟩
    have hsame : (l.reading (u.behind p)).pending = [] := hpending
    have hsource : (l.reading (u.behind p)).source.readChar = _ := hbehind u
    rw [takeChar, hsame]
    dsimp only
    rw [hsource, ← hpending]
    rfl

/-- So is the line that a move may skip. -/
theorem skipFor_reading {x : Except ReadError Unit} {move : Move} (h : l.skipFor move = (x, m))
    (hleft : m.source.stream.bytes ≠ []) :
    ∃ p, l.source.stream = m.source.stream.behind p ∧
      ∀ u : Stream, (l.reading (u.behind p)).skipFor move = (x, m.reading u) := by
  unfold skipFor at h
  split at h
  · rename_i hskips
    obtain ⟨rfl, rfl⟩ := Prod.mk.inj h
    have hskip : l.source.skipLine = (l.source.skipLine.1, l.source.skipLine.2) := rfl
    obtain ⟨p, hbytes, hbehind⟩ := Source.skipLine_reading hskip hleft
    refine ⟨p, hbytes, fun u => ?_⟩
    have hsource : (l.reading (u.behind p)).source.skipLine = _ := hbehind u
    rw [skipFor, if_pos hskips, skipLine, hsource]
    rfl
  · rename_i hskips
    obtain ⟨rfl, rfl⟩ := Prod.mk.inj h
    exact ⟨[], rfl, fun u => by rw [skipFor, if_neg hskips, Stream.behind_nil]⟩

/-- A turn takes a character and perhaps the rest of its line, whatever is left of the stream. -/
theorem turn_reading {x : Except ReadError (Option Char)} {y : Except ReadError Unit} {e : Event} {move : Move}
    (htake : l.takeChar = (x, taken)) (hskip : (taken.notify e).skipFor move = (y, skipped))
    (hleft : skipped.source.stream.bytes ≠ []) :
    ∃ p, l.source.stream = skipped.source.stream.behind p ∧
      ∀ u : Stream, ∃ taken', (l.reading (u.behind p)).takeChar = (x, taken') ∧
        (taken'.notify e).skipFor move = (y, skipped.reading u) := by
  obtain ⟨q, hrest, hskipped⟩ := skipFor_reading hskip hleft
  rw [notify_source] at hrest
  obtain ⟨p, hbytes, htaken⟩ := takeChar_reading htake (hrest ▸ Stream.behind_ne_nil hleft q)
  refine ⟨p ++ q, by rw [hbytes, hrest, Stream.behind_append], fun u => ?_⟩
  rw [Stream.behind_append]
  exact ⟨_, htaken _, hskipped u⟩

/-- Where there is no character to take, no bytes are left. -/
theorem bytes_of_takeChar_none (h : l.takeChar = (.ok none, m)) : m.source.stream.bytes = [] := by
  obtain ⟨rfl, -, hread⟩ := exhausted_of_takeChar h
  have hsame : m.source.stream.next.2 = m.source.stream := by
    rw [← Source.readChar_stream, hread]
  rcases m.source.stream.next_length with hlt | ⟨hnil, -⟩
  · rw [hsame] at hlt
    exact (Nat.lt_irrefl _ hlt).elim
  · exact hnil

/-- What a run reads before the stream comes to its end, it reads whatever is left of the stream. -/
theorem run_reading {x : Except LexError (Option String)} (h : run r l quoted = (x, m))
    (hleft : m.source.stream.bytes ≠ []) :
    ∃ p, l.source.stream = m.source.stream.behind p ∧
      ∀ u : Stream, run r (l.reading (u.behind p)) quoted = (x, m.reading u) := by
  fun_induction run r l quoted with
  | case1 l quoted hdone result l' hfin =>
    obtain ⟨rfl, rfl⟩ := Prod.mk.inj h
    obtain ⟨rfl, rfl⟩ := Prod.mk.inj hfin
    exact ⟨[], rfl, fun u => run_of_done hdone⟩
  | case2 l quoted hdone e taken htake =>
    obtain ⟨rfl, rfl⟩ := Prod.mk.inj h
    obtain ⟨p, hbytes, htaken⟩ := takeChar_reading htake hleft
    exact ⟨p, hbytes, fun u => run_of_takeChar_error hdone (htaken u)⟩
  -- The end of the source is seen only where nothing is left, so these two cases do not arise.
  | case3 l quoted hdone taken htake told hopen =>
    obtain ⟨rfl, rfl⟩ := Prod.mk.inj h
    exact (hleft (bytes_of_takeChar_none (m := taken) htake)).elim
  | case4 l quoted hdone taken htake told hopen result l' hfin =>
    obtain ⟨rfl, rfl⟩ := Prod.mk.inj h
    obtain ⟨rfl, rfl⟩ := Prod.mk.inj hfin
    refine (hleft ?_).elim
    have hsource : (told.setState .done).source = taken.source := setState_source ..
    exact hsource ▸ bytes_of_takeChar_none htake
  | case5 l quoted hdone c taken htake move e skipped hskip =>
    obtain ⟨rfl, rfl⟩ := Prod.mk.inj h
    obtain ⟨p, hbytes, hturn⟩ := turn_reading htake hskip hleft
    refine ⟨p, hbytes, fun u => ?_⟩
    obtain ⟨taken', htaken, hskipped⟩ := hturn u
    exact run_of_skip_error hdone htaken hskipped
  | case6 l quoted hdone c taken htake move skipped hskip next hcomplete result l' hfin =>
    obtain ⟨rfl, rfl⟩ := Prod.mk.inj h
    obtain ⟨rfl, rfl⟩ := Prod.mk.inj hfin
    have hsource : next.source = skipped.source := setState_source ..
    obtain ⟨p, hbytes, hturn⟩ := turn_reading htake hskip (hsource ▸ hleft)
    refine ⟨p, hbytes.trans (congrArg (·.stream.behind p) hsource.symm), fun u => ?_⟩
    obtain ⟨taken', htaken, hskipped⟩ := hturn u
    refine (run_of_move (l := l.reading (u.behind p)) hdone htaken hskipped).trans ?_
    dsimp only
    rw [apply_reading]
    exact if_pos hcomplete
  | case7 l quoted hdone c taken htake move skipped hskip next hcomplete ih =>
    -- What the rest of the run leaves, it was given, so the turn before it has left something as well.
    obtain ⟨q, hrest, hrun⟩ := ih h
    have hsource : next.source = skipped.source := setState_source ..
    rw [hsource] at hrest
    obtain ⟨p, hbytes, hturn⟩ := turn_reading htake hskip (hrest ▸ Stream.behind_ne_nil hleft q)
    refine ⟨p ++ q, by rw [hbytes, hrest, Stream.behind_append], fun u => ?_⟩
    obtain ⟨taken', htaken, hskipped⟩ := hturn (u.behind q)
    rw [Stream.behind_append]
    refine (run_of_move (l := l.reading ((u.behind q).behind p)) hdone htaken hskipped).trans ?_
    dsimp only
    rw [apply_reading]
    exact (if_neg hcomplete).trans (hrun u)

/-- Reading a raw token, whatever comes of it, takes some bytes of the current source. If that leaves any, then with
anything else behind those that are taken, or nothing, it has the same result and leaves the same lexer, with
exactly this unread. -/
theorem readToken_causal {x : Except LexError (Option String)} (hread : l.readToken = (x, m))
    (hleft : m.source.stream.bytes ≠ []) :
    ∃ p, l.source.stream = m.source.stream.behind p ∧
      ∀ u : Stream, (l.reading (u.behind p)).readToken = (x, m.reading u) :=
  run_reading hread hleft

set_option maxRecDepth 4000 in
/-- An operator behind a word is taken with the word and put back. Nothing behind the operator matters, not even
whether there is anything. -/
theorem readToken_before_operator :
    (ofText { punctuation := .shell } Resolver.refusing "a;b").readToken =
        (.ok (some "a"), { ofText { punctuation := .shell } Resolver.refusing "b" with pending := [';'] }) ∧
      (ofText { punctuation := .shell } Resolver.refusing "a;").readToken =
        (.ok (some "a"), { ofText { punctuation := .shell } Resolver.refusing "" with pending := [';'] }) ∧
      (ofText { punctuation := .shell } Resolver.refusing "a;'").readToken =
        (.ok (some "a"), { ofText { punctuation := .shell } Resolver.refusing "'" with pending := [';'] }) := by
  have hread : (ofText { punctuation := .shell } Resolver.refusing "a;b").readToken =
      (.ok (some "a"), { ofText { punctuation := .shell } Resolver.refusing "b" with pending := [';'] }) :=
    run_of_runWithin 10 rfl
  obtain ⟨p, hbytes, hbehind⟩ := readToken_causal hread (by decide)
  have htext : Text.Utf8.encode "a;".toList ++ Text.Utf8.encode "b".toList = p ++ Text.Utf8.encode "b".toList :=
    congrArg Stream.bytes hbytes
  rw [← List.append_cancel_right htext] at hbehind
  exact ⟨hread, hbehind (.ofText ""), hbehind (.ofText "'")⟩

end Lexer
end ShellWords
