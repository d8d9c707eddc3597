import Mathlib.Tactic.ByContra
import ShellWords.Proofs.Lexing.Classes
import ShellWords.Proofs.Lexing.Stray

/-!
# Going on after a failed read

A stray byte disturbs a text if the tokens, or the error at the end, are others than without it. What a lexer does
not keep from one call to the next is whether a quotation has been seen in the token and that the rest of a line is
to be skipped. So nothing is lost where neither matters (`Place.Calm`): in a word with characters in it, in a
quotation, behind an escape character, between tokens. There the place behind a failed read is the one before it, up
to a mark that makes no difference (`Place.Alike`), and it stays so (`Rules.resumed_of_alike`).

Elsewhere there is a text to come in which something is lost (`Rules.exists_disturbed`): an empty quotation at the
end, or a letter in the comment. That decides under which options no stray byte ever disturbs.
-/

namespace ShellWords

/-- The number of characters in the tokens that come out. -/
def Yield.size (y : Yield String) : Nat := (y.items.flatMap String.toList).length

/-- The characters of tokens that come first are counted too. -/
theorem Yield.size_behind (ts : List String) (y : Yield String) :
    (y.behind ts).size = (ts.flatMap String.toList).length + y.size := by
  rw [size, behind_items, List.flatMap_append, List.length_append, size]

/-- A single token has its own characters. -/
theorem Yield.size_singleton (t : String) (failure : Option LexError) :
    Yield.size ⟨[t], failure⟩ = t.length := by
  simp [size, String.length_toList]

namespace Place

/-- A failed read loses nothing here: no line is being skipped, and a word has characters. -/
structure Calm (p : Place) : Prop where
  comment : p.comment = none
  word : p.state = .word → p.token ≠ ""

/-- Nothing is being skipped, and the token has characters as soon as it is a word. -/
structure Filled (p : Place) : Prop where
  comment : p.comment = none
  token : p.state = .start ∨ p.state = .escape .word ∨ p.token ≠ ""

/-- Such a place is calm. -/
theorem Filled.calm {p : Place} (h : p.Filled) : p.Calm where
  comment := h.comment
  word hword := by simpa [hword] using h.token

/-- Two places that differ at most in whether a quotation has been seen, and only where that makes no difference. -/
structure Alike (p q : Place) : Prop where
  state : q.state = p.state
  token : q.token = p.token
  waiting : q.waiting = p.waiting
  comment : q.comment = p.comment
  quoted : q.quoted = p.quoted ∨ p.token ≠ "" ∨ p.state.isOpen = true

/-- A place differs in nothing from itself. -/
theorem Alike.refl (p : Place) : p.Alike p := ⟨rfl, rfl, rfl, rfl, .inl rfl⟩

end Place

namespace Rules

variable {r : Rules} {p q : Place} {c : Char} {xs : List Chunk} {unclosed : LexError}

/-! ## The same with and without -/

/-- Two moves that differ at most in whether a quotation has been seen, and only where that makes no difference. -/
structure MovesAlike (m n : Move) : Prop where
  same : n = { m with quoted := n.quoted }
  quoted : m.complete = false → n.quoted = m.quoted ∨ m.token ≠ "" ∨ m.state.isOpen = true

/-- From such places the moves are such. -/
theorem movesAlike (state : State) {token : String} {quoted quoted' : Bool} (c : Char)
    (h : quoted' = quoted ∨ token ≠ "" ∨ state.isOpen = true) :
    MovesAlike (r.move state token quoted c) (r.move state token quoted' c) := by
  rcases h with rfl | htoken | hopen
  · exact ⟨rfl, fun _ => .inl rfl⟩
  · -- A token with characters is one in any case.
    have hsame (q : Bool) : r.isToken token q = true := r.isToken_of_ne_empty htoken q
    cases state with
    | start =>
      simp only [move, moveFromStart, hsame]
      split_ifs <;> exact ⟨rfl, by simp [htoken, State.isOpen]⟩
    | word =>
      simp only [move, moveFromWord, moveAtBoundary, hsame]
      split_ifs <;> exact ⟨rfl, by simp [htoken, State.isOpen]⟩
    | punctuation =>
      simp only [move, moveFromPunctuation, moveAtBoundary, hsame]
      split_ifs <;> exact ⟨rfl, by simp [htoken, State.isOpen]⟩
    | quote q => exact ⟨rfl, fun _ => .inl rfl⟩
    | escape resume => cases resume <;> exact ⟨rfl, fun _ => by simp [move, moveFromEscape]⟩
    | done => exact ⟨rfl, by simp [move]⟩
  · -- A quotation is seen when it is closed, and what is escaped belongs to the token.
    cases state with
    | quote q => exact ⟨rfl, fun _ => .inl rfl⟩
    | escape resume => cases resume <;> exact ⟨rfl, fun _ => by simp [move, moveFromEscape]⟩
    | _ => cases hopen

/-- The moves on a character at two such places are such. -/
theorem moveAt_alike (h : p.Alike q) (c : Char) : MovesAlike (r.moveAt p c) (r.moveAt q c) := by
  have hmoves := r.movesAlike p.state c h.quoted
  rwa [moveAt, moveAt, h.state, h.token]

/-- The same comes out of such moves, and the places behind them are such. -/
theorem moved_alike {m n : Move} (h : p.Alike q) (hmoves : MovesAlike m n) (c : Char) :
    (q.moved n c).1 = (p.moved m c).1 ∧ (p.moved m c).2.Alike (q.moved n c).2 := by
  obtain ⟨hsame, hquoted⟩ := hmoves
  have hput : q.put n c = p.put m c := by rw [hsame, Place.put, Place.put, h.waiting]
  have hcomplete : n.complete = m.complete := by rw [hsame]
  cases hm : m.complete with
  | true =>
    rw [Place.moved_of_completes hm, Place.moved_of_completes (hcomplete.trans hm), hput]
    exact ⟨by rw [hsame], .refl _⟩
  | false =>
    rw [Place.moved_of_continues hm, Place.moved_of_continues (hcomplete.trans hm)]
    refine ⟨rfl, ?_, ?_, hput, rfl, hquoted hm⟩
    · show n.state = m.state
      rw [hsame]
    · show n.token = m.token
      rw [hsame]

/-- A character that is read once does the same at both. -/
theorem reads_alike (h : p.Alike q) (c : Char) :
    (r.reads q c).1 = (r.reads p c).1 ∧ (r.reads p c).2.Alike (r.reads q c).2 := by
  have hmoves := r.moveAt_alike h c
  have hskips : (r.moveAt q c).skipsLine = (r.moveAt p c).skipsLine := by rw [hmoves.same]
  unfold reads
  rw [hskips]
  split_ifs
  · exact ⟨rfl, h.state, h.token, h.waiting, rfl, h.quoted⟩
  · exact moved_alike h hmoves c

/-- So a character does the same at both. -/
theorem step_alike (h : p.Alike q) (c : Char) :
    (r.step q (.char c)).1 = (r.step p (.char c)).1 ∧ (r.step p (.char c)).2.Alike (r.step q (.char c)).2 := by
  have hcomment := h.comment
  simp only [step]
  cases hp : p.comment with
  | some d =>
    rw [hcomment, hp]
    dsimp only
    split_ifs
    · exact moved_alike h (r.moveAt_alike h d) d
    · exact ⟨rfl, h⟩
  | none =>
    rw [hcomment, hp]
    have hheld : (r.moveAt q c).held = (r.moveAt p c).held := by rw [(r.moveAt_alike h c).same]
    obtain ⟨hout, hplaces⟩ := r.reads_alike h c
    obtain ⟨hout', hplaces'⟩ := r.reads_alike hplaces c
    dsimp only
    rw [hheld]
    split_ifs
    · exact ⟨by rw [hout, hout'], hplaces'⟩
    · exact ⟨hout, hplaces⟩

/-- The end of the source does the same at both. -/
theorem closes_alike (unclosed : LexError) (h : p.Alike q) : r.closes unclosed q = r.closes unclosed p := by
  have hends {p q : Place} (h : p.Alike q) : r.ends unclosed q = r.ends unclosed p := by
    unfold ends
    rw [h.state, h.token, h.waiting]
    rcases h.quoted with hquoted | htoken | hopen
    · rw [hquoted]
    · rw [r.isToken_of_ne_empty htoken, r.isToken_of_ne_empty htoken]
    · rw [if_pos hopen, if_pos hopen]
  unfold closes
  rw [h.comment]
  split
  · exact hends h
  · rename_i d _
    obtain ⟨hout, hplaces⟩ := moved_alike h (r.moveAt_alike h d) d
    rw [hout, hends hplaces]

/-! ## Places without failures -/

/-- What is known of a place in a text: the token in progress is what the state says it is, nothing is put back, and
only a comment is skipped. -/
structure Tidy (r : Rules) (p : Place) : Prop where
  inProgress : r.InProgress p.state p.token p.quoted
  waiting : p.waiting = []
  comment : ∀ d ∈ p.comment, (r.moveAt p d).skipsLine = true

/-- The beginning of a text is such a place. -/
theorem tidy_start : r.Tidy {} := ⟨r.inProgress_start, rfl, by simp⟩

/-- A move leads from such a place to such a place. -/
theorem tidy_moved (h : r.Tidy p) (c : Char) : r.Tidy (p.moved (r.moveAt p c) c).2 := by
  rcases r.move_progress h.inProgress c with ⟨hcomplete, -, -, -, -⟩ | ⟨hcomplete, hheld, hprogress⟩
  · rw [Place.moved_of_completes (m := r.moveAt p c) hcomplete]
    exact tidy_start
  · rw [Place.moved_of_continues (m := r.moveAt p c) hcomplete]
    refine ⟨hprogress, ?_, by simp [Place.behind]⟩
    show (if (r.moveAt p c).held = .token then [String.singleton c] else []) ++ p.waiting = []
    rw [h.waiting, if_neg (by rw [moveAt, hheld]; simp)]
    rfl

/-- So does a character that is read once. -/
theorem tidy_reads (h : r.Tidy p) (c : Char) : r.Tidy (r.reads p c).2 := by
  unfold reads
  split_ifs with hskips
  · exact ⟨h.inProgress, h.waiting, by simpa [moveAt] using hskips⟩
  · exact tidy_moved h c

/-- Every character leads from such a place to such a place. -/
theorem tidy_step (h : r.Tidy p) (c : Char) : r.Tidy (r.step p (.char c)).2 := by
  simp only [step]
  split
  · split_ifs
    · exact tidy_moved h _
    · exact h
  · split_ifs
    · exact tidy_reads (tidy_reads h c) c
    · exact tidy_reads h c

/-! ## Calm places -/

/-- What comes out of some chunks before the next one, and the place behind them. -/
def goes (r : Rules) (p : Place) : List Chunk → List String × Place
  | [] => ([], p)
  | x :: xs => ((r.step p x).1 ++ (r.goes (r.step p x).2 xs).1, (r.goes (r.step p x).2 xs).2)

/-- The place behind some characters at the beginning of a source. -/
def placeBehind (r : Rules) (cs : List Char) : Place := (r.goes {} (cs.map .char)).2

/-- Whether every stray byte among some chunks stands at a calm place. -/
def StraysCalmly (r : Rules) (p : Place) : List Chunk → Prop
  | [] => True
  | .char c :: xs => r.StraysCalmly (r.step p (.char c)).2 xs
  | .stray _ _ :: xs => p.Calm ∧ r.StraysCalmly p xs

/-- What comes out of two lists of chunks is what comes out of the first and then of the second. -/
theorem resumed_append (r : Rules) (unclosed : LexError) (p : Place) (xs ys : List Chunk) :
    r.resumed unclosed p (xs ++ ys) = (r.resumed unclosed (r.goes p xs).2 ys).behind (r.goes p xs).1 := by
  induction xs generalizing p with
  | nil => rfl
  | cons x xs ih =>
    rw [List.cons_append, resumed, ih, Yield.behind_behind]
    rfl

/-- So do many characters. -/
theorem tidy_goes (h : r.Tidy p) (cs : List Char) : r.Tidy (r.goes p (cs.map .char)).2 := by
  induction cs generalizing p with
  | nil => exact h
  | cons c cs ih => exact ih (tidy_step h c)

/-- A failed read at a calm place leaves a place that is like it. -/
theorem alike_interrupted (htidy : r.Tidy p) (hcalm : p.Calm) (h : p.Alike q) :
    q.waiting = [] ∧ p.Alike q.interrupted := by
  refine ⟨h.waiting.trans htidy.waiting, h.state, h.token, htidy.waiting.symm, hcalm.comment.symm, ?_⟩
  show false = p.quoted ∨ _
  have hprogress := htidy.inProgress
  cases hstate : p.state with
  | start =>
    rw [hstate] at hprogress
    exact .inl hprogress.2.symm
  | word => exact .inr (.inl (hcalm.word hstate))
  | punctuation =>
    rw [hstate] at hprogress
    exact .inr (.inl hprogress.1)
  | quote q => exact .inr (.inr rfl)
  | escape resume => exact .inr (.inr rfl)
  | done =>
    rw [hstate] at hprogress
    exact hprogress.elim

/-- Without the stray bytes, the same comes out if all of them stand at calm places. -/
theorem resumed_of_alike (htidy : r.Tidy p) (h : p.Alike q) (hcalm : r.StraysCalmly p xs) :
    r.resumed unclosed q xs = r.resumed unclosed p ((Chunk.chars xs).map .char) := by
  induction xs generalizing p q with
  | nil => exact r.closes_alike unclosed h
  | cons x xs ih =>
    cases x with
    | char c =>
      obtain ⟨hout, hplaces⟩ := r.step_alike h c
      rw [resumed, hout, ih (tidy_step htidy c) hplaces hcalm]
      rfl
    | stray b hb =>
      obtain ⟨hnone, hplaces⟩ := alike_interrupted htidy hcalm.1 h
      have hstep : r.step q (.stray b hb) = ([], q.interrupted) := by rw [step, hnone]
      rw [resumed, hstep, Yield.behind_nil, ih htidy hplaces hcalm.2]
      rfl

/-- Among characters only, one stray byte stands where these characters lead. -/
theorem straysCalmly_iff {b : UInt8} {hb : Text.Utf8.IsStray b} (p : Place) (before after : List Char) :
    r.StraysCalmly p (before.map .char ++ .stray b hb :: after.map .char) ↔
      (r.goes p (before.map .char)).2.Calm := by
  have hnone (p : Place) (cs : List Char) : r.StraysCalmly p (cs.map .char) := by
    induction cs generalizing p with
    | nil => trivial
    | cons c cs ih => exact ih _
  induction before generalizing p with
  | nil => exact and_iff_left (hnone p after)
  | cons c before ih => exact ih _

/-! ## Other places -/

/-- At the end of the source, outside of quotations, the characters of the token come out. -/
theorem size_ends (unclosed : LexError) (hopen : p.state.isOpen = false) (hwaiting : p.waiting = []) :
    (r.ends unclosed p).size = p.token.length := by
  unfold ends
  rw [hopen, hwaiting, if_neg (by simp)]
  by_cases htoken : r.isToken p.token p.quoted = true
  · rw [if_pos htoken, Yield.size_singleton]
  · have hempty : p.token = "" := by
      by_contra hne
      exact htoken (r.isToken_of_ne_empty hne p.quoted)
    rw [if_neg htoken, hempty]
    rfl

/-- A move that does not hold its character back puts no token back. -/
theorem behind_waiting {m : Move} (hheld : m.held ≠ .token) (hwaiting : p.waiting = []) (c : Char) :
    (p.behind m c).waiting = [] := by
  show (if m.held = .token then [String.singleton c] else []) ++ p.waiting = []
  rw [if_neg hheld, hwaiting]
  rfl

/-- In a comment too. -/
theorem size_closes_comment (unclosed : LexError) {d : Char} (hcomment : p.comment = some d)
    (hskips : (r.moveAt p d).skipsLine = true) (hwaiting : p.waiting = []) :
    (r.closes unclosed p).size = p.token.length := by
  obtain ⟨hopen, -, hm⟩ := move_of_skipsLine hskips
  unfold closes
  rw [hcomment]
  dsimp only
  rw [Yield.size_behind]
  -- Either the token goes on behind the comment, or it ends in front of it.
  rcases hm with hm | hm
  · rw [moveAt, hm, Place.moved_of_continues rfl,
      size_ends unclosed (by exact hopen) (behind_waiting (by simp) hwaiting d)]
    exact Nat.zero_add _
  · rw [moveAt, hm]
    cases htoken : r.isToken p.token p.quoted with
    | true =>
      rw [Place.moved_of_completes rfl, size_ends unclosed rfl rfl]
      simp [Place.put, hwaiting, String.length_toList]
    | false =>
      rw [Place.moved_of_continues rfl, size_ends unclosed rfl (behind_waiting (by simp) hwaiting d)]
      exact Nat.zero_add _

/-- A letter is a word character, unless it is an operator. -/
theorem isWord_or_isPunctuation (config : Config) {c : Char} (h : c ∈ asciiWordChars) :
    (ofConfig config).classes.isWord c = true ∨ (ofConfig config).classes.isPunctuation c = true := by
  by_cases hpunct : c ∈ config.punctuation.chars
  · exact .inr (isPunctuation_ofConfig_iff.2 hpunct)
  · exact .inl (isWord_ofConfig_iff.2 ⟨.ascii (mem_asciiWordChars_iff.1 h), hpunct⟩)

section
variable (unclosed : LexError) {m : Move} (hcomment : p.comment = none) (hwaiting : p.waiting = [])
  (hm : r.moveAt p c = m) (hskips : m.skipsLine = false)
include hcomment hwaiting hm hskips

/-- When the last character of the source goes to the token, the characters of the token come out. -/
theorem size_of_continues (hcomplete : m.complete = false) (hheld : m.held = .nothing)
    (hopen : m.state.isOpen = false) : (r.resumed unclosed p [.char c]).size = m.token.length := by
  rw [resumed_of_not_skipsLine hcomment unclosed [] (by rw [hm, hskips]), hm, hheld, if_neg (by simp),
    Place.moved_of_continues hcomplete]
  exact size_ends unclosed hopen (behind_waiting (by simp [hheld]) hwaiting c)

/-- When it is read again, those of the token in front of it come out, and what the character comes to. -/
theorem size_of_held (hheld : m.held = .char) (htoken : m.token = p.token)
    (hcomplete : m.complete = false → p.token = "") {n : Nat}
    (hagain : ∀ q : Place, q.comment = none → q.waiting = [] → q.state = .start →
      (r.resumed unclosed q [.char c]).size = n) :
    (r.resumed unclosed p [.char c]).size = p.token.length + n := by
  have hstate : m.state = .start := by
    rw [← hm]
    exact (r.move_held p.state p.token p.quoted c (by
      show (r.moveAt p c).held ≠ _
      simp [hm, hheld])).2
  rw [resumed_of_not_skipsLine hcomment unclosed [] (by rw [hm, hskips]), hm, hheld, if_pos rfl, Yield.size_behind,
    List.append_nil]
  cases hm' : m.complete with
  | true =>
    rw [Place.moved_of_completes hm', hagain {} rfl rfl rfl]
    simp [Place.put, hheld, hwaiting, htoken, String.length_toList]
  | false =>
    rw [Place.moved_of_continues hm',
      hagain _ rfl (behind_waiting (by simp [hheld]) hwaiting c) hstate, hcomplete hm']
    rfl

end

section
variable (config : Config) (unclosed : LexError) (hc : c ∈ asciiWordChars) (hcomment : p.comment = none)
  (hwaiting : p.waiting = [])
include hc hcomment hwaiting

/-- A letter between tokens comes out. -/
theorem size_letter_start (hstart : p.state = .start) :
    ((ofConfig config).resumed unclosed p [.char c]).size = 1 := by
  have hplain := unmarked_letter config hc
  have hmove : (ofConfig config).moveAt p c = (ofConfig config).moveFromStart p.token p.quoted c := by
    rw [moveAt, hstart]
    rfl
  simp only [moveFromStart, hplain.space, hplain.comment, hplain.escape, Bool.and_false, Bool.false_eq_true,
    if_false] at hmove
  cases hword : (ofConfig config).classes.isWord c with
  | true =>
    rw [hword, if_pos rfl] at hmove
    rw [size_of_continues unclosed hcomment hwaiting hmove rfl rfl rfl rfl]
    simp
  | false =>
    have hpunct := (isWord_or_isPunctuation config hc).resolve_left (by simp [hword])
    rw [hword, if_neg (by simp), if_pos hpunct] at hmove
    rw [size_of_continues unclosed hcomment hwaiting hmove rfl rfl rfl rfl]
    simp

/-- A letter in a token, or behind it, comes out with the token. -/
theorem size_letter (hstate : p.state = .start ∧ p.token = "" ∨ p.state = .word ∨ p.state = .punctuation) :
    ((ofConfig config).resumed unclosed p [.char c]).size = p.token.length + 1 := by
  have hplain := unmarked_letter config hc
  have hagain (q : Place) (hq : q.comment = none) (hnone : q.waiting = []) (hstart : q.state = .start) :
      ((ofConfig config).resumed unclosed q [.char c]).size = 1 :=
    size_letter_start config unclosed hc hq hnone hstart
  rcases hstate with ⟨hstart, htoken⟩ | hword | hpunctuation
  · rw [htoken]
    exact hagain p hcomment hwaiting hstart
  · have hmove : (ofConfig config).moveAt p c = (ofConfig config).moveFromWord p.token p.quoted c := by
      rw [moveAt, hword]
      rfl
    simp only [moveFromWord, moveAtBoundary, hplain.space, hplain.comment, hplain.quote, hplain.escape,
      Bool.and_false, Bool.or_false, Bool.false_eq_true, if_false] at hmove
    split_ifs at hmove with hextends hactive
    · rw [size_of_continues unclosed hcomment hwaiting hmove rfl rfl rfl rfl]
      simp
    · refine size_of_held unclosed hcomment hwaiting hmove rfl rfl rfl ?_ hagain
      intro hnone
      by_contra hne
      simp [isToken_of_ne_empty _ hne] at hnone
    · -- A letter that is no word character is an operator, so there are operators.
      have hpunct := (isWord_or_isPunctuation config hc).resolve_left (fun hword => hextends (by simp [hword]))
      exact (hactive (punctuationActive_of_isPunctuation _ hpunct)).elim
  · have hmove : (ofConfig config).moveAt p c = (ofConfig config).moveFromPunctuation p.token p.quoted c := by
      rw [moveAt, hpunctuation]
      rfl
    simp only [moveFromPunctuation, moveAtBoundary, hplain.space, hplain.comment, Bool.false_eq_true,
      if_false] at hmove
    split_ifs at hmove
    · rw [size_of_continues unclosed hcomment hwaiting hmove rfl rfl rfl rfl]
      simp
    · exact size_of_held unclosed hcomment hwaiting hmove rfl rfl rfl (by simp) hagain

end

/-- At a place that is not calm, something is lost if these characters come next. -/
theorem exists_disturbed (config : Config) (htidy : (ofConfig config).Tidy p) (hcalm : ¬ p.Calm) :
    ∃ after : List Char, ∀ (unclosed : LexError) (b : UInt8) (hb : Text.Utf8.IsStray b),
      (ofConfig config).resumed unclosed p (.stray b hb :: after.map .char) ≠
        (ofConfig config).resumed unclosed p (after.map .char) := by
  cases hcomment : p.comment with
  | none =>
    -- An empty quotation at the end of the source is no token any more.
    obtain ⟨hword, htoken⟩ : p.state = .word ∧ p.token = "" := by
      by_contra hne
      exact hcalm ⟨hcomment, fun hword htoken => hne ⟨hword, htoken⟩⟩
    have hprogress := htidy.inProgress
    rw [hword, htoken] at hprogress
    have hquotation : (ofConfig config).posix = true ∧ p.quoted = true := by
      simpa [InProgress, isToken] using hprogress
    refine ⟨[], fun unclosed b hb heq => ?_⟩
    have hitems := congrArg Yield.items heq
    simp [resumed, step, closes, hcomment, ends, Place.interrupted, hword, htoken, htidy.waiting,
      hquotation, State.isOpen, Yield.empty, isToken] at hitems
  | some d =>
    -- A letter in the comment is read.
    have hskips := htidy.comment d hcomment
    obtain ⟨hopen, hdone, -⟩ := move_of_skipsLine hskips
    have hstate : p.state = .start ∧ p.token = "" ∨ p.state = .word ∨ p.state = .punctuation := by
      have hprogress := htidy.inProgress
      cases hstate : p.state with
      | start =>
        rw [hstate] at hprogress
        exact .inl ⟨rfl, hprogress.1⟩
      | word => exact .inr (.inl rfl)
      | punctuation => exact .inr (.inr rfl)
      | quote q => simp [hstate, State.isOpen] at hopen
      | escape resume => simp [hstate, State.isOpen] at hopen
      | done => exact (hdone hstate).elim
    refine ⟨['a'], fun unclosed b hb heq => ?_⟩
    have hread : ((ofConfig config).resumed unclosed p.interrupted [.char 'a']).size = p.token.length + 1 :=
      size_letter config unclosed (by decide) rfl rfl hstate
    have hskipped : (ofConfig config).resumed unclosed p [.char 'a'] = (ofConfig config).closes unclosed p := by
      have hstep : (ofConfig config).step p (.char 'a') = ([], p) := by simp [step, hcomment]
      rw [resumed, hstep, Yield.behind_nil]
      rfl
    have hstray : (ofConfig config).resumed unclosed p [.stray b hb, .char 'a'] =
        (ofConfig config).resumed unclosed p.interrupted [.char 'a'] := by
      rw [resumed, step, htidy.waiting, Yield.behind_nil]
    have hsize := congrArg Yield.size heq
    rw [List.map_cons, List.map_nil, hstray, hread, hskipped,
      size_closes_comment unclosed hcomment hskips htidy.waiting] at hsize
    omega

/-! ## Options under which every place is calm -/

section
variable (hcomments : ∀ c, r.classes.isComment c = false)
  (hquotes : r.posix = true → ∀ c, r.classes.isQuote c = true → r.classes.isPunctuation c = true)
include hcomments hquotes

/-- Without comments, and if no quotation begins a word whose quotes are dropped, a word always has characters. -/
theorem move_filled {state : State} {token : String} (quoted : Bool) (c : Char)
    (h : state = .start ∨ state = .escape .word ∨ token ≠ "") :
    (r.move state token quoted c).skipsLine = false ∧
      ((r.move state token quoted c).state = .start ∨ (r.move state token quoted c).state = .escape .word ∨
        (r.move state token quoted c).token ≠ "") := by
  have hcomment := hcomments c
  cases state with
  | start =>
    rw [move, moveFromStart]
    split_ifs with hspace hstarts hescape hword hpunct hquote hposix hsplit
    · simp
    · simp [hcomment] at hstarts
    · simp
    · simp
    · simp
    · exact (hpunct (hquotes hposix c hquote)).elim
    · simp
    · simp
    · simp
  | word =>
    have htoken : token ≠ "" := by simpa using h
    simp only [move, moveFromWord, moveAtBoundary, hcomment, Bool.false_eq_true, if_false]
    split_ifs <;> simp [htoken]
  | punctuation =>
    have htoken : token ≠ "" := by simpa using h
    simp only [move, moveFromPunctuation, moveAtBoundary, hcomment, Bool.false_eq_true, if_false]
    split_ifs <;> simp [htoken]
  | quote q =>
    have htoken : token ≠ "" := by simpa using h
    simp only [move, moveFromQuote]
    split_ifs <;> simp [htoken]
  | escape resume => cases resume <;> simp [move, moveFromEscape]
  | done => exact ⟨rfl, by simpa [move] using h⟩

/-- Then a character that is read once leads from such a place to such a place. -/
theorem filled_reads (h : p.Filled) (c : Char) : (r.reads p c).2.Filled := by
  obtain ⟨hskips, htoken⟩ := move_filled hcomments hquotes p.quoted c h.token
  have hskips : (r.moveAt p c).skipsLine = false := hskips
  rw [reads, if_neg (by simp [hskips])]
  cases hcomplete : (r.moveAt p c).complete with
  | true =>
    rw [Place.moved_of_completes hcomplete]
    exact ⟨rfl, .inl rfl⟩
  | false =>
    rw [Place.moved_of_continues hcomplete]
    exact ⟨rfl, htoken⟩

/-- And so does every character. -/
theorem filled_step (h : p.Filled) (c : Char) : (r.step p (.char c)).2.Filled := by
  have hreads := filled_reads hcomments hquotes h c
  simp only [step, h.comment]
  split_ifs
  · exact filled_reads hcomments hquotes hreads c
  · exact hreads

/-- So every stray byte stands at a calm place. -/
theorem straysCalmly_of_filled (h : p.Filled) (xs : List Chunk) : r.StraysCalmly p xs := by
  induction xs generalizing p with
  | nil => trivial
  | cons x xs ih =>
    cases x with
    | char c => exact ih (filled_step hcomments hquotes h c)
    | stray b hb => exact ⟨h.calm, ih h⟩

end

/-- A comment is not a calm place. -/
theorem not_calm_comment {config : Config} (hcomments : config.comments = true) :
    ¬ ((ofConfig config).placeBehind ['#']).Calm := by
  have hskips : ((ofConfig config).moveAt {} '#').skipsLine = true := by
    simp [moveAt, move, moveFromStart, CharClasses.isWhitespace, CharClasses.isComment, ofConfig,
      CharClasses.ofConfig, hcomments]
  have hplace : (ofConfig config).placeBehind ['#'] = { comment := some '#' } :=
    congrArg Prod.snd (step_of_skipsLine rfl hskips)
  rw [hplace]
  rintro ⟨hcomment, -⟩
  cases hcomment

/-- An empty quotation is not, unless its quote is an operator. -/
theorem not_calm_quotation {config : Config} (hposix : config.posix = true) {q : Char}
    (hq : q = '\'' ∨ q = '"') (hoperator : q ∉ config.punctuation.chars) :
    ¬ ((ofConfig config).placeBehind [q, q]).Calm := by
  have hspace : (ofConfig config).classes.isWhitespace q = false := by
    rcases hq with rfl | rfl <;> rfl
  have hcomment : (ofConfig config).classes.isComment q = false :=
    isComment_of_ne config (by rcases hq with rfl | rfl <;> decide)
  have hescape : (ofConfig config).classes.isEscape q = false := by
    rcases hq with rfl | rfl <;> rfl
  have hquote : (ofConfig config).classes.isQuote q = true := by
    rcases hq with rfl | rfl <;> rfl
  have hpunct : (ofConfig config).classes.isPunctuation q = false := isPunctuation_of_notMem hoperator
  have hword : (ofConfig config).classes.isWord q = false :=
    isWord_of_mem_marks config (by rcases hq with rfl | rfl <;> decide)
  have hmove : (ofConfig config).moveAt {} q = { state := .quote q, token := "", quoted := false } := by
    have hrules : (ofConfig config).posix = true := hposix
    simp [moveAt, move, moveFromStart, hspace, hcomment, hescape, hquote, hpunct, hword, hrules]
  have hopened : (ofConfig config).step {} (.char q) = ([], { state := .quote q }) := by
    rw [step_of_not_char rfl (by rw [hmove]) (by simp [hmove]), hmove]
    rfl
  have hmove' : (ofConfig config).moveAt { state := .quote q } q =
      { state := .word, token := "", quoted := true } := by
    have hrules : (ofConfig config).posix = true := hposix
    simp [moveAt, move, moveFromQuote, hrules]
  have hclosed : (ofConfig config).step { state := .quote q } (.char q) =
      ([], { state := .word, quoted := true }) := by
    rw [step_of_not_char rfl (by rw [hmove']) (by simp [hmove']), hmove']
    rfl
  have hplace : (ofConfig config).placeBehind [q, q] = { state := .word, quoted := true } := by
    simp only [placeBehind, goes, List.map_cons, List.map_nil, hopened, hclosed]
  rw [hplace]
  rintro ⟨-, hword⟩
  exact hword rfl rfl

end Rules

namespace Lexer

variable {config : Config} {xs : List Chunk}

/-- The stray bytes among these chunks disturb nothing: a lexer that is asked again after every failed read returns
the tokens of the text without them, and ends as it does there. -/
def Undisturbed (config : Config) (xs : List Chunk) : Prop :=
  ∀ (resolver : Resolver) (origin : Option Path), ∃ y,
    (ofSource config resolver ⟨.ofChunks xs, origin, 1⟩).Perseveres y ∧
      (ofSource config resolver ⟨.ofChars (Chunk.chars xs), origin, 1⟩).Perseveres y

/-- Without a keyword that is so if the same is said to come out. -/
theorem undisturbed_iff (hkeyword : config.sourceKeyword = none) :
    Undisturbed config xs ↔ ∀ origin,
      (Rules.ofConfig config).resumed (.unterminatedQuotation origin (1 + Chunk.newlines xs)) {} xs =
        (Rules.ofConfig config).resumed (.unterminatedQuotation origin (1 + Chunk.newlines xs)) {}
          ((Chunk.chars xs).map .char) := by
  have hspoiled (resolver : Resolver) (origin : Option Path) :=
    perseveres_ofChunks hkeyword resolver origin xs
  have hclean (resolver : Resolver) (origin : Option Path) :=
    perseveres_ofChunks hkeyword resolver origin ((Chunk.chars xs).map .char)
  have hlines : Chunk.newlines ((Chunk.chars xs).map .char) = Chunk.newlines xs :=
    congrArg (List.count '\n') (Chunk.chars_map _)
  simp only [Stream.ofChunks_map, hlines] at hclean
  constructor
  · intro h origin
    obtain ⟨y, hy, hy'⟩ := h Resolver.refusing origin
    rw [(hspoiled _ origin).unique hy, (hclean _ origin).unique hy']
  · intro h resolver origin
    refine ⟨_, hspoiled resolver origin, ?_⟩
    rw [h origin]
    exact hclean resolver origin

/-- That is so if every stray byte stands at a calm place. -/
theorem undisturbed_of_straysCalmly (hkeyword : config.sourceKeyword = none)
    (hxs : (Rules.ofConfig config).StraysCalmly {} xs) : Undisturbed config xs :=
  (undisturbed_iff hkeyword).2 fun _ => Rules.resumed_of_alike Rules.tidy_start (.refl _) hxs

/-- A place is calm exactly if a stray byte there disturbs nothing, whatever comes next. -/
theorem calm_iff_undisturbed (hkeyword : config.sourceKeyword = none) (before : List Char) (b : UInt8)
    (hb : Text.Utf8.IsStray b) :
    ((Rules.ofConfig config).placeBehind before).Calm ↔
      ∀ after : List Char, Undisturbed config (before.map .char ++ .stray b hb :: after.map .char) := by
  constructor
  · intro hcalm after
    exact undisturbed_of_straysCalmly hkeyword ((Rules.straysCalmly_iff {} before after).2 hcalm)
  · intro hundisturbed
    by_contra hcalm
    obtain ⟨after, hne⟩ := Rules.exists_disturbed config (Rules.tidy_goes Rules.tidy_start before) hcalm
    have hsame := (undisturbed_iff hkeyword).1 (hundisturbed after) none
    have hchars : Chunk.chars (.stray b hb :: after.map .char) = after := Chunk.chars_map after
    rw [Chunk.chars_append, Chunk.chars_map, hchars, List.map_append] at hsame
    rw [Rules.resumed_append, Rules.resumed_append, Yield.behind_inj] at hsame
    exact hne _ b hb hsame

/-- The options under which nothing is ever disturbed. -/
theorem always_undisturbed_iff (hkeyword : config.sourceKeyword = none) :
    (∀ xs, Undisturbed config xs) ↔ config.comments = false ∧
      (config.posix = true → '\'' ∈ config.punctuation.chars ∧ '"' ∈ config.punctuation.chars) := by
  constructor
  · intro hundisturbed
    have hcalm (before : List Char) : ((Rules.ofConfig config).placeBehind before).Calm :=
      (calm_iff_undisturbed hkeyword before 0xFF (by decide)).2 fun after => hundisturbed _
    have hoperator (hposix : config.posix = true) {q : Char} (hq : q = '\'' ∨ q = '"') :
        q ∈ config.punctuation.chars := by
      by_contra hnone
      exact Rules.not_calm_quotation hposix hq hnone (hcalm [q, q])
    refine ⟨?_, fun hposix => ⟨hoperator hposix (.inl rfl), hoperator hposix (.inr rfl)⟩⟩
    by_contra hcomments
    exact Rules.not_calm_comment (by simpa using hcomments) (hcalm ['#'])
  · rintro ⟨hcomments, hquotes⟩ xs
    refine undisturbed_of_straysCalmly hkeyword (Rules.straysCalmly_of_filled ?_ ?_ ⟨rfl, .inl rfl⟩ xs)
    · intro c
      simp [CharClasses.isComment, Rules.ofConfig, CharClasses.ofConfig, hcomments]
    · intro hposix c hquote
      obtain ⟨hsingle, hdouble⟩ := hquotes hposix
      have hc : c = '\'' ∨ c = '"' := by
        simpa [CharClasses.isQuote, Rules.ofConfig, CharClasses.ofConfig] using hquote
      have hmem : c ∈ config.punctuation.chars := by
        rcases hc with rfl | rfl
        · exact hsingle
        · exact hdouble
      simpa [CharClasses.isPunctuation, Rules.ofConfig, CharClasses.ofConfig] using hmem

/-- Without a keyword, a lexer that is asked again after every failed read returns what it returns for the text
without the stray bytes, if each of them stands at a calm place. At any other place a stray byte disturbs some text.
So none ever does exactly under the options without comments, where quotes are kept or are operators. -/
theorem failed_reads (config : Config) (hkeyword : config.sourceKeyword = none) :
    (∀ xs, (Rules.ofConfig config).StraysCalmly {} xs → Undisturbed config xs) ∧
    (∀ (before : List Char) (b : UInt8) (hb : Text.Utf8.IsStray b),
      ((Rules.ofConfig config).placeBehind before).Calm ↔
        ∀ after : List Char, Undisturbed config (before.map .char ++ .stray b hb :: after.map .char)) ∧
    ((∀ xs, Undisturbed config xs) ↔ config.comments = false ∧
      (config.posix = true → '\'' ∈ config.punctuation.chars ∧ '"' ∈ config.punctuation.chars)) := by
  refine ⟨?_, ?_, always_undisturbed_iff hkeyword⟩
  · intro xs hxs
    exact undisturbed_of_straysCalmly hkeyword hxs
  · intro before b hb
    exact calm_iff_undisturbed hkeyword before b hb

/-- By default a stray byte in a word disturbs nothing, but there are others. -/
theorem failed_reads_in_word :
    Undisturbed {} [.char 'a', .stray 0xFF (by decide), .char 'b'] ∧ ¬ ∀ xs, Undisturbed {} xs := by
  obtain ⟨hcalmly, -, hoptions⟩ := failed_reads {} rfl
  refine ⟨hcalmly _ ⟨⟨rfl, by decide⟩, trivial⟩, ?_⟩
  rw [hoptions]
  rintro ⟨-, hquotes⟩
  exact absurd (hquotes rfl).1 (by decide)

/-- Behind an empty quotation a stray byte takes the token away, and in a comment it ends the comment in the middle
of its line. -/
theorem failed_reads_lose :
    ((ofSource {} Resolver.refusing
        ⟨.ofChunks [.char '\'', .char '\'', .stray 0xFF (by decide)], none, 1⟩).Perseveres ⟨[], none⟩ ∧
      (ofText {} Resolver.refusing "''").Perseveres ⟨[""], none⟩) ∧
    ((ofSource { comments := true } Resolver.refusing
        ⟨.ofChunks [.char 'a', .char '#', .char 'b', .stray 0xFF (by decide), .char 'c'], none, 1⟩).Perseveres
          ⟨["ac"], none⟩ ∧
      (ofText { comments := true } Resolver.refusing "a#bc").Perseveres ⟨["a"], none⟩) := by
  have hcomes (config : Config) (xs : List Chunk) (y : Yield String) (hkeyword : config.sourceKeyword = none)
      (hy : (Rules.ofConfig config).resumed (.unterminatedQuotation none (1 + Chunk.newlines xs)) {} xs = y) :
      (ofSource config Resolver.refusing ⟨.ofChunks xs, none, 1⟩).Perseveres y := by
    rw [← hy]
    exact perseveres_ofChunks hkeyword Resolver.refusing none xs
  refine ⟨⟨?_, ?_⟩, ?_, ?_⟩
  · exact hcomes _ _ _ rfl (by decide +kernel)
  · exact hcomes _ [.char '\'', .char '\''] _ rfl (by decide +kernel)
  · exact hcomes _ _ _ rfl (by decide +kernel)
  · exact hcomes _ [.char 'a', .char '#', .char 'b', .char 'c'] _ rfl (by decide +kernel)

end Lexer
end ShellWords
