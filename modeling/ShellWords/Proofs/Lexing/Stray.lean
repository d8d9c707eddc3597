import ShellWords.Proofs.Inclusion.Yield
import ShellWords.Proofs.Lexing.Operations
import ShellWords.Proofs.Lexing.Text
import ShellWords.Proofs.Text.Utf8

/-!
# Texts with stray bytes

A byte that begins no character makes one read fail, and is gone with it. `Chunk` is a character or such a byte,
so a list of chunks is a text in which some reads fail. Whoever calls again after every failed read gets tokens
until the input ends or an error comes that is no failed read (`Lexer.Perseveres`).

`Rules.resumed` says what that is, chunk by chunk: a `Place` is all that counts of a lexer between two chunks,
`Rules.step` is what a chunk does there. A stray byte does nothing but to end the call, and what a place loses by
that (`Place.interrupted`) is what the lexer does not keep from one call to the next.
`Lexer.perseveres_ofChunks` shows that the lexer does just that, by induction on the chunks that are left and, where
a character is read again, on the rank of the state.
-/

namespace ShellWords

/-- What one read takes out of a stream: a character, or a byte that begins none. -/
inductive Chunk where
  | char (c : Char)
  | stray (b : UInt8) (h : Text.Utf8.IsStray b)

/-- The characters among some chunks. -/
def Chunk.chars : List Chunk → List Char
  | [] => []
  | .char c :: xs => c :: chars xs
  | .stray _ _ :: xs => chars xs

/-- The bytes of a chunk. -/
def Chunk.bytes : Chunk → List UInt8
  | .char c => String.utf8EncodeChar c
  | .stray b _ => [b]

/-- The number of newlines among some chunks. -/
def Chunk.newlines (xs : List Chunk) : Nat := (chars xs).count '\n'

namespace Chunk

/-- Without stray bytes the characters are all there is. -/
theorem chars_map (cs : List Char) : chars (cs.map .char) = cs := by
  induction cs with
  | nil => rfl
  | cons c cs ih => exact congrArg (c :: ·) ih

/-- The characters of two lists of chunks are those of the one and those of the other. -/
theorem chars_append (xs ys : List Chunk) : chars (xs ++ ys) = chars xs ++ chars ys := by
  induction xs with
  | nil => rfl
  | cons x xs ih =>
    cases x with
    | char c => exact congrArg (c :: ·) ih
    | stray b h => exact ih

/-- The first character may be a newline. -/
theorem newlines_char (c : Char) (xs : List Chunk) :
    newlines (.char c :: xs) = [c].count '\n' + newlines xs := by
  show (c :: chars xs).count '\n' = _
  rw [← List.singleton_append, List.count_append]
  rfl

end Chunk

namespace Stream

/-- The stream of these chunks. -/
def ofChunks (xs : List Chunk) : Stream := ⟨xs.flatMap Chunk.bytes, none⟩

/-- With characters only, it is the stream of a text. -/
theorem ofChunks_map (cs : List Char) : ofChunks (cs.map .char) = ofChars cs := by
  rw [ofChunks, ofChars, List.flatMap_map]
  rfl

/-- Where no chunk is left, the stream has ended. -/
theorem next_ofChunks_nil : (ofChunks []).next = (.ok none, ofChunks []) := rfl

/-- A character is given, and the stream goes on with the other chunks. -/
theorem next_ofChunks_char (c : Char) (xs : List Chunk) :
    (ofChunks (.char c :: xs)).next = (.ok (some c), ofChunks xs) :=
  next_encodeChar_append c (xs.flatMap Chunk.bytes) none

/-- A stray byte is an error, and the stream goes on with the other chunks. -/
theorem next_ofChunks_stray (b : UInt8) (h : Text.Utf8.IsStray b) (xs : List Chunk) :
    (ofChunks (.stray b h :: xs)).next = (.error (.invalidLeadByte b), ofChunks xs) := by
  have hnone := (Text.Utf8.width?_eq_none_iff b).2 h
  simp only [next, ofChunks, List.flatMap_cons, Chunk.bytes, List.singleton_append, hnone]

end Stream

namespace Source

variable {s : Source} {c : Char} {xs : List Chunk}

/-- And so has the source. -/
theorem readChar_of_chunks_nil (h : s.stream = .ofChunks []) : s.readChar = (.ok none, s) := by
  rw [readChar, h, Stream.next_ofChunks_nil, ← h]

/-- A source gives the first character, and counts it if it is a newline. -/
theorem readChar_of_chunks_char (h : s.stream = .ofChunks (.char c :: xs)) :
    s.readChar =
      (.ok (some c), { s with stream := .ofChunks xs, line := s.line + [c].count '\n' }) :=
  readChar_of_next (by rw [h, Stream.next_ofChunks_char])

/-- A source fails at a stray byte and counts nothing. -/
theorem readChar_of_chunks_stray {b : UInt8} {hb : Text.Utf8.IsStray b}
    (h : s.stream = .ofChunks (.stray b hb :: xs)) :
    s.readChar = (.error (.invalidLeadByte b), { s with stream := .ofChunks xs }) := by
  rw [readChar, h, Stream.next_ofChunks_stray]

/-- How the rest of a line is skipped: to its end or the end of the source, or to the first stray byte. -/
inductive Skips : List Chunk → Except ReadError Unit → List Chunk → Prop
  | ended : Skips [] (.ok ()) []
  | newline {xs : List Chunk} : Skips (.char '\n' :: xs) (.ok ()) xs
  | char {c : Char} {xs rest : List Chunk} {x : Except ReadError Unit} (hc : c ≠ '\n') (h : Skips xs x rest) :
      Skips (.char c :: xs) x rest
  | stray {b : UInt8} {hb : Text.Utf8.IsStray b} {xs : List Chunk} :
      Skips (.stray b hb :: xs) (.error (.invalidLeadByte b)) xs

/-- Skipping a line leaves no more chunks than there were. -/
theorem Skips.length_le {rest : List Chunk} {x : Except ReadError Unit} (h : Skips xs x rest) :
    rest.length ≤ xs.length := by
  induction h with
  | ended => exact Nat.le_refl _
  | newline => exact Nat.le_succ _
  | char hc h ih => exact Nat.le_succ_of_le ih
  | stray => exact Nat.le_succ _

/-- That is how a source skips it, and it counts the newlines that it takes. -/
theorem skipLine_of_chunks (h : s.stream = .ofChunks xs) :
    ∃ x rest n, s.skipLine = (x, { s with stream := .ofChunks rest, line := s.line + n }) ∧
      Skips xs x rest ∧ n + Chunk.newlines rest = Chunk.newlines xs := by
  induction xs generalizing s with
  | nil =>
    refine ⟨.ok (), [], 0, ?_, .ended, rfl⟩
    rw [skipLine, readChar_of_chunks_nil h, ← h]
    rfl
  | cons chunk xs ih =>
    rw [skipLine]
    cases chunk with
    | stray b hb =>
      rw [readChar_of_chunks_stray h]
      exact ⟨_, xs, 0, rfl, .stray, Nat.zero_add _⟩
    | char c =>
      rw [readChar_of_chunks_char h, Chunk.newlines_char]
      by_cases hc : c = '\n'
      · subst hc
        exact ⟨.ok (), xs, 1, by simp, .newline, rfl⟩
      · obtain ⟨x, rest, n, hskip, hskips, hcount⟩ :=
          @ih { s with stream := .ofChunks xs, line := s.line + [c].count '\n' } rfl
        have hnone : [c].count '\n' = 0 := by simp [hc]
        refine ⟨x, rest, n, ?_, .char hc hskips, by omega⟩
        simpa [hc] using hskip

end Source

/-! ## Places -/

/-- Where a lexer is between two chunks of its only source. -/
structure Place where
  /-- Where the automaton stands. -/
  state : State := .start
  /-- The token in progress. -/
  token : String := ""
  /-- Whether a quotation has been seen in the token. -/
  quoted : Bool := false
  /-- The tokens that have been put back behind the token in progress. -/
  waiting : List String := []
  /-- The character that has started a comment whose line is being skipped. Its move is made behind the line. -/
  comment : Option Char := none
  deriving DecidableEq

namespace Place

/-- What has been put back after a move. -/
def put (p : Place) (m : Move) (c : Char) : List String :=
  (if m.held = .token then [String.singleton c] else []) ++ p.waiting

/-- The place behind a move, while the token goes on. -/
def behind (p : Place) (m : Move) (c : Char) : Place := ⟨m.state, m.token, m.quoted, p.put m c, none⟩

/-- What comes out when a move is carried out, and the place behind it. -/
def moved (p : Place) (m : Move) (c : Char) : List String × Place :=
  if m.complete then (m.token :: p.put m c, {}) else ([], p.behind m c)

/-- A move that completes a token makes it come out, with what was put back behind it. -/
theorem moved_of_completes {p : Place} {m : Move} (h : m.complete = true) (c : Char) :
    p.moved m c = (m.token :: p.put m c, {}) := by
  rw [moved, if_pos h]

/-- As long as the token goes on, nothing comes out. -/
theorem moved_of_continues {p : Place} {m : Move} (h : m.complete = false) (c : Char) :
    p.moved m c = ([], p.behind m c) := by
  rw [moved, if_neg (by simp [h])]

/-- Behind a move no comment is being skipped. -/
@[simp] theorem moved_comment (p : Place) (m : Move) (c : Char) : (p.moved m c).2.comment = none := by
  unfold moved
  split <;> rfl

/-- The place after a call that has failed, once what was put back is handed out. The next call knows the state and
the token, but of no quotation and of no comment. -/
def interrupted (p : Place) : Place := { p with quoted := false, waiting := [], comment := none }

end Place

namespace Rules

variable (r : Rules)

/-- The move on a character at a place. -/
def moveAt (p : Place) (c : Char) : Move := r.move p.state p.token p.quoted c

/-- What comes out for a character that is read once, and the place behind it. -/
def reads (p : Place) (c : Char) : List String × Place :=
  if (r.moveAt p c).skipsLine then ([], { p with comment := some c }) else p.moved (r.moveAt p c) c

/-- What comes out for a chunk, and the place behind it. -/
def step (p : Place) : Chunk → List String × Place
  | .stray _ _ => (p.waiting, p.interrupted)
  | .char c =>
    match p.comment with
    | some d => if c = '\n' then p.moved (r.moveAt p d) d else ([], p)
    | none =>
      -- The character has ended a token and may start the next one.
      if (r.moveAt p c).held = .char then
        ((r.reads p c).1 ++ (r.reads (r.reads p c).2 c).1, (r.reads (r.reads p c).2 c).2)
      else r.reads p c

/-- What comes out at the end of the source, where this is the report of something left open. -/
def ends (unclosed : LexError) (p : Place) : Yield String :=
  if p.state.isOpen then ⟨[], some unclosed⟩
  else if r.isToken p.token p.quoted then ⟨p.token :: p.waiting, none⟩ else .empty

/-- What comes out at the end of the source, perhaps in a comment. -/
def closes (unclosed : LexError) (p : Place) : Yield String :=
  match p.comment with
  | none => r.ends unclosed p
  | some d => (r.ends unclosed (p.moved (r.moveAt p d) d).2).behind (p.moved (r.moveAt p d) d).1

/-- What comes out of some chunks, from a place on. -/
def resumed (unclosed : LexError) (p : Place) : List Chunk → Yield String
  | [] => r.closes unclosed p
  | x :: xs => (resumed unclosed (r.step p x).2 xs).behind (r.step p x).1

variable {r}

/-- A move that skips a line is made outside of quotations and leaves the token as it is, unless it completes it. -/
theorem move_of_skipsLine {state : State} {token : String} {quoted : Bool} {c : Char}
    (h : (r.move state token quoted c).skipsLine = true) :
    state.isOpen = false ∧ state ≠ .done ∧
      (r.move state token quoted c = { state, token, quoted, skipsLine := true } ∨
        r.move state token quoted c =
          { state := .start, token, quoted, skipsLine := true, complete := r.isToken token quoted }) := by
  cases state with
  | start => simp only [move, moveFromStart, State.isOpen] at h ⊢; grind
  | word => simp only [move, moveFromWord, moveAtBoundary, State.isOpen] at h ⊢; grind
  | punctuation => simp only [move, moveFromPunctuation, moveAtBoundary, State.isOpen] at h ⊢; grind
  | quote q => simp only [move, moveFromQuote] at h; grind
  | escape resume => cases resume <;> simp [move, moveFromEscape] at h
  | done => simp [move] at h

/-- So it puts no character back. -/
theorem held_of_skipsLine {p : Place} {c : Char} (h : (r.moveAt p c).skipsLine = true) :
    (r.moveAt p c).held ≠ .char := by
  rcases (move_of_skipsLine h).2.2 with hm | hm
  · simp [moveAt, hm]
  · simp [moveAt, hm]

section
variable {p : Place} {c : Char} (hcomment : p.comment = none)
include hcomment

/-- A character that starts a comment. -/
theorem step_of_skipsLine (hskips : (r.moveAt p c).skipsLine = true) :
    r.step p (.char c) = ([], { p with comment := some c }) := by
  simp only [step, hcomment, if_neg (held_of_skipsLine hskips), reads, if_pos hskips]

/-- A character that is read once. -/
theorem step_of_not_char (hskips : (r.moveAt p c).skipsLine = false) (hheld : (r.moveAt p c).held ≠ .char) :
    r.step p (.char c) = p.moved (r.moveAt p c) c := by
  simp only [step, hcomment, if_neg hheld, reads, hskips, Bool.false_eq_true, if_false]

/-- A character that does not start a comment makes its move, and is there again if it is to be read again. -/
theorem resumed_of_not_skipsLine (unclosed : LexError) (xs : List Chunk)
    (hskips : (r.moveAt p c).skipsLine = false) :
    r.resumed unclosed p (.char c :: xs) =
      (r.resumed unclosed (p.moved (r.moveAt p c) c).2
        ((if (r.moveAt p c).held = .char then [.char c] else []) ++ xs)).behind (p.moved (r.moveAt p c) c).1 := by
  by_cases hheld : (r.moveAt p c).held = .char
  · -- Between tokens, where the character is read again, it is not put back once more.
    have hstart : (p.moved (r.moveAt p c) c).2.state = .start := by
      have hstate := (r.move_held p.state p.token p.quoted c (by
        show (r.moveAt p c).held ≠ _
        simp [hheld])).2
      unfold Place.moved
      split
      · rfl
      · exact hstate
    have honce : (r.moveAt (p.moved (r.moveAt p c) c).2 c).held ≠ .char := by
      intro hagain
      have hrank := (r.move_held _ _ _ c (by
        show (r.moveAt (p.moved (r.moveAt p c) c).2 c).held ≠ _
        simp [hagain])).1
      rw [hstart] at hrank
      cases hrank
    have hreads : r.reads p c = p.moved (r.moveAt p c) c := by
      simp only [reads, hskips, Bool.false_eq_true, if_false]
    rw [if_pos hheld, List.singleton_append, resumed, resumed, Yield.behind_behind]
    simp only [step, hcomment, if_pos hheld, hreads, Place.moved_comment, if_neg honce]
  · rw [if_neg hheld, List.nil_append, resumed, step_of_not_char hcomment hskips hheld]

end

/-- A comment goes on to the end of its line, and then its move is made. A stray byte in it ends the call. -/
theorem resumed_of_skips (unclosed : LexError) (p : Place) (d : Char) {xs rest : List Chunk}
    {x : Except ReadError Unit} (h : Source.Skips xs x rest) :
    (x = .ok () → r.resumed unclosed { p with comment := some d } xs =
      (r.resumed unclosed (p.moved (r.moveAt p d) d).2 rest).behind (p.moved (r.moveAt p d) d).1) ∧
    (∀ cause, x = .error cause → r.resumed unclosed { p with comment := some d } xs =
      (r.resumed unclosed p.interrupted rest).behind p.waiting) := by
  induction h with
  | ended =>
    refine ⟨fun _ => ?_, by simp⟩
    simp only [resumed, closes, Place.moved_comment]
    rfl
  | newline => exact ⟨fun _ => rfl, by simp⟩
  | @char c xs rest x hc h ih =>
    have hstep : r.resumed unclosed { p with comment := some d } (.char c :: xs) =
        r.resumed unclosed { p with comment := some d } xs := by
      simp only [resumed, step, if_neg hc, Yield.behind_nil]
    rw [hstep]
    exact ih
  | stray => exact ⟨by simp, fun _ _ => rfl⟩

end Rules

namespace Lexer

/-! ## Asking again -/

/-- What comes out in the end if a lexer gives this answer and is asked again after every token and every failed
read. -/
inductive ComesTo : Except LexError (Option String) × Lexer → Yield String → Prop
  | ended {m : Lexer} : ComesTo (.ok none, m) .empty
  | failed {e : LexError} {m : Lexer} (h : ∀ cause, e ≠ .unreadable cause) :
      ComesTo (.error e, m) ⟨[], some e⟩
  | retried {cause : ReadError} {m : Lexer} {y : Yield String} (h : ComesTo m.nextToken y) :
      ComesTo (.error (.unreadable cause), m) y
  | token {t : String} {m : Lexer} {y : Yield String} (h : ComesTo m.nextToken y) :
      ComesTo (.ok (some t), m) (y.behind [t])

/-- The tokens of a lexer that is asked again after every failed read, and the error that is no failed read, if
there is one. -/
def Perseveres (l : Lexer) (y : Yield String) : Prop := ComesTo l.nextToken y

/-- Nothing else can come out. -/
theorem ComesTo.unique {x : Except LexError (Option String) × Lexer} {y z : Yield String}
    (hy : ComesTo x y) (hz : ComesTo x z) : y = z := by
  induction hy generalizing z with
  | ended =>
    cases hz
    rfl
  | @failed e m h =>
    generalize hx : (Except.error e, m) = x at hz
    cases hz with
    | ended => cases hx
    | failed =>
      cases hx
      rfl
    | retried => exact (h _ (Except.error.inj (Prod.mk.inj hx).1)).elim
    | token => cases hx
  | @retried cause m y h ih =>
    generalize hx : (Except.error (LexError.unreadable cause), m) = x at hz
    cases hz with
    | ended => cases hx
    | failed h => exact (h cause (Except.error.inj (Prod.mk.inj hx).1).symm).elim
    | retried h =>
      cases hx
      exact ih h
    | token => cases hx
  | token h ih =>
    cases hz with
    | token h' => rw [ih h']

variable {r : Rules} {l m : Lexer} {origin : Option Path} {last : Nat} {p : Place} {xs : List Chunk}

/-! ## A lexer at a place -/

/-- A lexer with one source and no keyword, at a place outside of comments, with these chunks to read. The first of
them may have been put back. -/
structure Faces (l : Lexer) (r : Rules) (origin : Option Path) (last : Nat) (p : Place) (xs : List Chunk) :
    Prop where
  rules : l.rules = r
  keyword : l.config.sourceKeyword = none
  suspended : l.suspended = []
  origin : l.origin = origin
  state : l.state = p.state
  token : l.token = p.token
  waiting : l.waiting = p.waiting
  comment : p.comment = none
  held : l.pending.length ≤ 1
  ahead : ∃ ahead, l.source.stream = .ofChunks ahead ∧ l.pending.map .char ++ ahead = xs ∧
    l.source.line + Chunk.newlines ahead = last

/-- Whatever it tells, a lexer faces the same. -/
theorem Faces.notify (h : l.Faces r origin last p xs) (e : Event) : (l.notify e).Faces r origin last p xs :=
  ⟨h.rules, h.keyword, h.suspended, h.origin, h.state, h.token, h.waiting, h.comment, h.held, h.ahead⟩

/-- At the end of the source there is nothing to take. -/
theorem Faces.takeChar_nil (h : l.Faces r origin last p []) :
    l.takeChar = (.ok none, l) ∧ l.origin = origin ∧ l.line = last := by
  obtain ⟨ahead, hstream, hxs, hline⟩ := h.ahead
  obtain ⟨hpending, rfl⟩ := List.append_eq_nil_iff.1 hxs
  refine ⟨?_, h.origin, hline⟩
  unfold takeChar
  split
  · rename_i d rest hd
    simp [hd] at hpending
  · rw [Source.readChar_of_chunks_nil hstream]

/-- A stray byte cannot be taken, but it is gone. -/
theorem Faces.takeChar_stray {b : UInt8} {hb : Text.Utf8.IsStray b}
    (h : l.Faces r origin last p (.stray b hb :: xs)) :
    ∃ m, l.takeChar = (.error (.invalidLeadByte b), m) ∧ m.Faces r origin last p xs := by
  obtain ⟨ahead, hstream, hxs, hline⟩ := h.ahead
  unfold takeChar
  split
  · rename_i d rest hd
    simp [hd] at hxs
  · rename_i hd
    rw [hd, List.map_nil, List.nil_append] at hxs
    subst hxs
    rw [Source.readChar_of_chunks_stray hstream]
    refine ⟨_, rfl, h.rules, h.keyword, h.suspended, h.origin, h.state, h.token, h.waiting, h.comment, h.held, xs, rfl,
      ?_, hline⟩
    simp [hd]

/-- A character is taken, whether it was put back or not. -/
theorem Faces.takeChar_char {c : Char} (h : l.Faces r origin last p (.char c :: xs)) :
    ∃ m, l.takeChar = (.ok (some c), m) ∧ m.pending = [] ∧ m.Faces r origin last p xs := by
  obtain ⟨ahead, hstream, hxs, hline⟩ := h.ahead
  have hlast := tail_pending_of_held h.held
  unfold takeChar
  split
  · rename_i d rest hd
    rw [hd, List.tail_cons] at hlast
    subst hlast
    simp only [hd, List.map_cons, List.map_nil, List.singleton_append, List.cons.injEq, Chunk.char.injEq] at hxs
    obtain ⟨rfl, rfl⟩ := hxs
    exact ⟨_, rfl, rfl, h.rules, h.keyword, h.suspended, h.origin, h.state, h.token, h.waiting, h.comment,
      Nat.zero_le _, ahead, hstream, rfl, hline⟩
  · rename_i hd
    rw [hd, List.map_nil, List.nil_append] at hxs
    subst hxs
    rw [Source.readChar_of_chunks_char hstream]
    refine ⟨_, rfl, hd, h.rules, h.keyword, h.suspended, h.origin, h.state, h.token, h.waiting, h.comment, h.held, xs,
      rfl, ?_, ?_⟩
    · simp [hd]
    · rw [Chunk.newlines_char] at hline
      dsimp only
      omega

/-- A line is skipped as far as it can be. -/
theorem Faces.skipLine (h : l.Faces r origin last p xs) (hpending : l.pending = []) :
    ∃ x m rest, l.skipLine = (x, m) ∧ Source.Skips xs x rest ∧ m.pending = [] ∧
      m.Faces r origin last p rest := by
  obtain ⟨ahead, hstream, hxs, hline⟩ := h.ahead
  rw [hpending] at hxs
  obtain rfl : ahead = xs := hxs
  obtain ⟨x, rest, n, hskip, hskips, hcount⟩ := Source.skipLine_of_chunks hstream
  refine ⟨x, { l with source := { l.source with stream := .ofChunks rest, line := l.source.line + n } }, rest, ?_,
    hskips, hpending, h.rules, h.keyword, h.suspended, h.origin, h.state, h.token, h.waiting, h.comment, h.held, rest,
    rfl, ?_, ?_⟩
  · rw [Lexer.skipLine, hskip]
  · simp [hpending]
  · dsimp only
    omega

/-- What a move makes of a lexer that has taken a character. -/
theorem Faces.apply {m : Move} {c : Char} (h : l.Faces r origin last p xs) (hpending : l.pending = []) :
    (l.apply m c).Faces r origin last (p.behind m c) ((if m.held = .char then [.char c] else []) ++ xs) := by
  obtain ⟨ahead, hstream, hxs, hline⟩ := h.ahead
  rw [hpending] at hxs
  obtain rfl : ahead = xs := hxs
  refine ⟨?_, ?_, ?_, ?_, rfl, ?_, ?_, rfl, held_apply hpending m c, ahead, ?_, ?_, ?_⟩
  · simpa [Lexer.apply, Lexer.rules] using h.rules
  · simpa [Lexer.apply] using h.keyword
  · simpa [Lexer.apply] using h.suspended
  · simpa [Lexer.apply, Lexer.origin] using h.origin
  · simp [Lexer.apply, Place.behind]
  · by_cases hheld : m.held = .token <;> simp [Lexer.apply, Place.behind, Place.put, hheld, h.waiting]
  · simpa [Lexer.apply] using hstream
  · by_cases hheld : m.held = .char <;> simp [Lexer.apply, hheld, hpending]
  · simpa [Lexer.apply] using hline

/-- A place that a failed call has left, when nothing is put back. -/
theorem Faces.interrupted (h : l.Faces r origin last { p with waiting := [] } xs) :
    l.Faces r origin last p.interrupted xs :=
  ⟨h.rules, h.keyword, h.suspended, h.origin, h.state, h.token, h.waiting, rfl, h.held, h.ahead⟩

/-! ## What comes out -/

/-- What was put back comes out first, and then what the run behind it comes to. -/
theorem Faces.comesTo_nextToken {y : Yield String} (h : l.Faces r origin last p xs)
    (hrun : ∀ m : Lexer, m.Faces r origin last { p with waiting := [] } xs → ComesTo (handed (run r m false)) y) :
    ComesTo l.nextToken (y.behind p.waiting) := by
  obtain ⟨state, token, quoted, waiting, comment⟩ := p
  dsimp only at hrun ⊢
  induction waiting generalizing l with
  | nil =>
    have hread : l.readToken = run r l false := by rw [readToken, h.rules]
    rw [nextToken_eq_handed h.keyword h.suspended h.waiting, hread]
    exact hrun l h
  | cons t waiting ih =>
    have hnext : (Lexer.notify { l with waiting } (.tokenEmitted (some t))).Faces r origin last
        ⟨state, token, quoted, waiting, comment⟩ xs :=
      ⟨h.rules, h.keyword, h.suspended, h.origin, h.state, h.token, rfl, h.comment, h.held, h.ahead⟩
    rw [nextToken_of_waiting h.waiting, ← List.singleton_append, ← Yield.behind_behind]
    exact .token (ih hnext)

/-- Behind the end of the source only what was put back comes out. -/
theorem comesTo_of_done (hkeyword : l.config.sourceKeyword = none) (hsuspended : l.suspended = [])
    (hstate : l.state = .done) : ComesTo l.nextToken ⟨l.waiting, none⟩ := by
  generalize hwaiting : l.waiting = waiting
  induction waiting generalizing l with
  | nil =>
    have hread : l.readToken = _ := run_of_done hstate
    rw [finish_of_not_isToken (by simp [Rules.isToken])] at hread
    rw [nextToken_eq_handed hkeyword hsuspended hwaiting, hread]
    exact .ended
  | cons t waiting ih =>
    rw [nextToken_of_waiting hwaiting]
    exact .token (@ih (Lexer.notify { l with waiting } (.tokenEmitted (some t))) hkeyword hsuspended hstate rfl)

/-- At the end of the source. -/
theorem Faces.comesTo_run_nil (h : l.Faces r origin last p []) (hdone : p.state ≠ .done) :
    ComesTo (handed (run r l p.quoted)) (r.ends (.unterminatedQuotation origin last) p) := by
  obtain ⟨htake, horigin, hline⟩ := h.takeChar_nil
  unfold Rules.ends
  rw [← h.state, ← h.token, ← h.waiting, ← horigin, ← hline]
  rw [← h.state] at hdone
  split_ifs with hopen htoken
  · rw [run_of_end_open htake hopen]
    exact .failed (by simp)
  · rw [run_of_end hdone htake (by simpa using hopen), finish_of_isToken (by simpa using htoken)]
    simp only [setState_token, notify_token]
    refine .token (y := ⟨l.waiting, none⟩) ?_
    have hend := comesTo_of_done (l := Lexer.notify (Lexer.notify
      { (l.notify (.charRead l.state none)).setState .done with token := "" } (.rawToken (some l.token)))
      (.tokenEmitted (some l.token))) (by simpa using h.keyword) (by simpa using h.suspended) rfl
    simpa using hend
  · rw [run_of_end hdone htake (by simpa using hopen), finish_of_not_isToken (by simpa using htoken)]
    exact .ended

/-- Behind a move: the token that it completes and what was put back, or more of the same run. -/
theorem Faces.comesTo_moved {m : Move} {c : Char} {unclosed : LexError} {next : Lexer}
    (h : next.Faces r origin last (p.behind m c) xs) (hleads : r.Leads c m)
    (hstart : ∀ k : Lexer, k.Faces r origin last {} xs → ComesTo (handed (run r k false)) (r.resumed unclosed {} xs))
    (hgoes : m.complete = false →
      ComesTo (handed (run r next m.quoted)) (r.resumed unclosed (p.behind m c) xs)) :
    ComesTo (handed (if m.complete then (.ok (finish r m.quoted next).1, (finish r m.quoted next).2)
      else run r next m.quoted)) ((r.resumed unclosed (p.moved m c).2 xs).behind (p.moved m c).1) := by
  cases hcomplete : m.complete with
  | false =>
    rw [if_neg (by simp), Place.moved_of_continues hcomplete]
    exact hgoes hcomplete
  | true =>
    obtain ⟨hstate, htoken⟩ := hleads.completes hcomplete
    have hnext : next.token = m.token := h.token
    rw [if_pos rfl, Place.moved_of_completes hcomplete, finish_of_isToken (by rw [hnext]; exact htoken), hnext,
      ← List.singleton_append, ← Yield.behind_behind]
    have hbehind : (Lexer.notify (Lexer.notify { next with token := "" } (.rawToken (some m.token)))
        (.tokenEmitted (some m.token))).Faces r origin last { waiting := p.put m c } xs :=
      ⟨h.rules, h.keyword, h.suspended, h.origin, h.state.trans hstate, rfl, h.waiting, rfl, h.held, h.ahead⟩
    exact .token (hbehind.comesTo_nextToken hstart)

/-- Less is left at one place than at another: a chunk, or only the space between tokens. -/
def LessLeft (q : Place) (rest : List Chunk) (p : Place) (xs : List Chunk) : Prop :=
  Prod.Lex (· < ·) (· < ·) (rest.length, q.state.rank) (xs.length, p.state.rank)

/-- Fewer chunks are less. -/
theorem lessLeft_of_length {q : Place} {rest : List Chunk} (h : rest.length < xs.length) : LessLeft q rest p xs :=
  .left _ _ h

/-- So it is behind a move. -/
theorem lessLeft_of_move (c : Char) {rest : List Chunk} (hrest : rest.length ≤ xs.length) {q : Place}
    (hq : q = p.behind (r.moveAt p c) c ∨ q = {}) :
    LessLeft q ((if (r.moveAt p c).held = .char then [.char c] else []) ++ rest) p (.char c :: xs) := by
  by_cases hheld : (r.moveAt p c).held = .char
  · obtain ⟨hfrom, hto⟩ := r.move_held p.state p.token p.quoted c (by
      show (r.moveAt p c).held ≠ _
      simp [hheld])
    have hrank : q.state.rank = 1 := by
      rcases hq with rfl | rfl
      · exact congrArg State.rank hto
      · rfl
    unfold LessLeft
    rw [if_pos hheld, hrank, hfrom]
    rcases Nat.lt_or_eq_of_le hrest with hlt | heq
    · exact .left _ _ (Nat.succ_lt_succ hlt)
    · simp only [List.singleton_append, List.length_cons, heq]
      exact .right _ (by decide)
  · rw [if_neg hheld]
    exact lessLeft_of_length (Nat.lt_succ_of_le hrest)

/-- A run from a place with less left comes to what is said to come out there. -/
def ComesToFromLess (r : Rules) (origin : Option Path) (last : Nat) (p : Place) (xs : List Chunk) : Prop :=
  ∀ (k : Lexer) (q : Place) (rest : List Chunk), LessLeft q rest p xs → k.Faces r origin last q rest →
    r.InRun q.state q.token → q.state ≠ .done →
      ComesTo (handed (run r k q.quoted)) (r.resumed (.unterminatedQuotation origin last) q rest)

/-- After a failed read the next call goes on with the same state and token. -/
theorem Faces.comesTo_interrupted (hless : ComesToFromLess r origin last p xs) (hin : r.InRun p.state p.token)
    (hdone : p.state ≠ .done) {rest : List Chunk} (hrest : rest.length < xs.length)
    (h : m.Faces r origin last p rest) :
    ComesTo m.nextToken
      ((r.resumed (.unterminatedQuotation origin last) p.interrupted rest).behind p.waiting) :=
  h.comesTo_nextToken fun k hk => hless k p.interrupted rest (lessLeft_of_length hrest) hk.interrupted hin hdone

/-- At a character. -/
theorem Faces.comesTo_run_char {c : Char} (hless : ComesToFromLess r origin last p (.char c :: xs))
    (h : l.Faces r origin last p (.char c :: xs)) (hin : r.InRun p.state p.token) (hdone : p.state ≠ .done) :
    ComesTo (handed (run r l p.quoted))
      (r.resumed (.unterminatedQuotation origin last) p (.char c :: xs)) := by
  have hlexer : l.state ≠ .done := by rwa [h.state]
  obtain ⟨taken, htake, hpending, htaken⟩ := h.takeChar_char
  have hmove : r.move l.state l.token p.quoted c = r.moveAt p c := by rw [Rules.moveAt, h.state, h.token]
  have hleads : r.Leads c (r.moveAt p c) := r.move_leads hin hdone p.quoted c
  have htold := htaken.notify (.charRead l.state (some c))
  generalize htelling : taken.notify (.charRead l.state (some c)) = told at htold
  have hnone : told.pending = [] := by
    rw [← htelling]
    exact hpending
  -- What is left behind the move, when it skips nothing or has skipped a line.
  have hmoved {skipped : Lexer} {rest : List Chunk} (hrest : rest.length ≤ xs.length)
      (hskip : told.skipFor (r.moveAt p c) = (.ok (), skipped)) (hnone : skipped.pending = [])
      (hskipped : skipped.Faces r origin last p rest) :
      ComesTo (handed (run r l p.quoted))
        ((r.resumed (.unterminatedQuotation origin last) (p.moved (r.moveAt p c) c).2
          ((if (r.moveAt p c).held = .char then [.char c] else []) ++ rest)).behind
            (p.moved (r.moveAt p c) c).1) := by
    rw [← hmove, ← htelling] at hskip
    rw [run_of_move hlexer htake hskip, hmove]
    refine (hskipped.apply hnone).comesTo_moved hleads ?_ ?_
    · intro k hk
      exact hless k {} _ (lessLeft_of_move c hrest (.inr rfl)) hk (by simp [Rules.InRun]) (by simp)
    · intro _
      exact hless _ _ _ (lessLeft_of_move c hrest (.inl rfl)) (hskipped.apply hnone) hleads.inRun hleads.ongoing
  cases hskips : (r.moveAt p c).skipsLine with
  | false =>
    rw [Rules.resumed_of_not_skipsLine h.comment _ xs hskips]
    refine hmoved (Nat.le_refl _) ?_ hnone htold
    rw [skipFor, if_neg (by simp [hskips])]
  | true =>
    rw [Rules.resumed, Rules.step_of_skipsLine h.comment hskips, Yield.behind_nil]
    obtain ⟨y, skipped, rest, hskip, hcrosses, hnone', hskipped⟩ := htold.skipLine hnone
    have hfor : told.skipFor (r.moveAt p c) = (y, skipped) := by rw [skipFor, if_pos hskips, hskip]
    cases y with
    | error cause =>
      rw [(Rules.resumed_of_skips _ p c hcrosses).2 cause rfl]
      rw [← hmove, ← htelling] at hfor
      rw [run_of_skip_error hlexer htake hfor]
      exact .retried (hskipped.comesTo_interrupted hless hin hdone (Nat.lt_succ_of_le hcrosses.length_le))
    | ok _ =>
      rw [(Rules.resumed_of_skips _ p c hcrosses).1 rfl]
      have hbehind := hmoved hcrosses.length_le hfor hnone' hskipped
      rwa [if_neg (Rules.held_of_skipsLine hskips), List.nil_append] at hbehind

/-- In one run, and in all calls after it, a lexer at a place comes to what is said to come out from there. -/
theorem Faces.comesTo_run {l : Lexer} {p : Place} {xs : List Chunk} (h : l.Faces r origin last p xs)
    (hin : r.InRun p.state p.token) (hdone : p.state ≠ .done) :
    ComesTo (handed (run r l p.quoted)) (r.resumed (.unterminatedQuotation origin last) p xs) := by
  have hless : ComesToFromLess r origin last p xs := by
    intro k q rest hlt hk
    exact hk.comesTo_run
  cases xs with
  | nil =>
    rw [Rules.resumed, Rules.closes, h.comment]
    exact h.comesTo_run_nil hdone
  | cons x xs =>
    cases x with
    | stray b hb =>
      obtain ⟨m, htake, hm⟩ := h.takeChar_stray
      rw [run_of_takeChar_error (by rwa [h.state]) htake]
      exact .retried (hm.comesTo_interrupted hless hin hdone (Nat.lt_succ_self _))
    | char c => exact h.comesTo_run_char hless hin hdone
termination_by (xs.length, p.state.rank)
decreasing_by exact hlt

/-- What a lexer without a keyword returns for a text with stray bytes, when it is asked again after every failed
read. -/
theorem perseveres_ofChunks {config : Config} (h : config.sourceKeyword = none) (resolver : Resolver)
    (origin : Option Path) (xs : List Chunk) :
    (ofSource config resolver ⟨.ofChunks xs, origin, 1⟩).Perseveres
      ((Rules.ofConfig config).resumed (.unterminatedQuotation origin (1 + Chunk.newlines xs)) {} xs) := by
  have hfaces : (ofSource config resolver ⟨.ofChunks xs, origin, 1⟩).Faces (.ofConfig config) origin
      (1 + Chunk.newlines xs) {} xs :=
    ⟨rfl, h, rfl, rfl, rfl, rfl, rfl, rfl, Nat.zero_le _, xs, rfl, rfl, rfl⟩
  exact hfaces.comesTo_nextToken fun m hm => hm.comesTo_run (by simp [Rules.InRun]) (by simp)

end Lexer
end ShellWords
