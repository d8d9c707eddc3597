import ShellWords.Proofs.Lexing.Alike
import ShellWords.Proofs.Lexing.Progress

/-!
# Lexers between tokens

A lexer that has just read a raw token rests: nothing of a token is in progress, at most one character is
put back, and the automaton is between tokens or at the end of its source (`Lexer.Resting`). A lexer that rests
before it reads a raw token rests afterwards (`Settled`, `settled_readToken`), so a lexer rests whenever it looks for
the next token, and what it may have put back is known from the rules.
-/

namespace ShellWords

/-- Only at its end has a source no next character, and it stays there. -/
theorem Source.eq_of_readChar_none {s t : Source} (h : s.readChar = (.ok none, t)) : t = s := by
  unfold readChar at h
  split at h
  · rename_i c rest hnext
    simp at h
  · rename_i x rest hnot hnext
    obtain ⟨rfl, rfl⟩ := Prod.mk.inj h
    have hrest : rest = s.stream := by
      unfold Stream.next at hnext
      split at hnext
      · split at hnext
        · exact (Prod.mk.inj hnext).2.symm
        · simp at hnext
      · split at hnext
        · simp at hnext
        · dsimp only at hnext
          split at hnext
          · simp at hnext
          · split at hnext <;> simp at hnext
    rw [hrest]

/-- Reading a character stays in the same file. -/
theorem Source.readChar_origin (s : Source) : s.readChar.2.origin = s.origin := by
  unfold readChar
  split <;> rfl

/-- So does skipping a line. -/
theorem Source.skipLine_origin (s : Source) : s.skipLine.2.origin = s.origin := by
  fun_induction skipLine s with
  | case1 s e t h => simpa [h] using s.readChar_origin
  | case2 s t h => simpa [h] using s.readChar_origin
  | case3 s t h => simpa [h] using s.readChar_origin
  | case4 s c t h hc ih =>
    have horigin := s.readChar_origin
    rw [h] at horigin
    exact ih.trans horigin

namespace Lexer

/-- A lexer has come to the end of its source, and has no character left of it. -/
def Exhausted (l : Lexer) : Prop := l.pending = [] ∧ l.source.readChar = (.ok none, l.source)

/-- A lexer is between tokens, or at the end of its source. -/
structure Resting (l : Lexer) : Prop where
  token : l.token = ""
  held : l.pending.length ≤ 1
  state : l.state = .start ∨ l.state = .done ∧ l.Exhausted

/-- At the beginning of a source a lexer rests. -/
theorem resting_ofSource (config : Config) (resolver : Resolver) (source : Source) :
    (ofSource config resolver source).Resting := ⟨rfl, Nat.zero_le _, .inl rfl⟩

/-- A lexer that rests and is not between tokens has nothing left of its source. -/
theorem Resting.exhausted {l : Lexer} (h : l.Resting) (hdone : l.state = .done) : l.Exhausted := by
  rcases h.state with hstart | ⟨-, hexhausted⟩
  · rw [hdone] at hstart
    cases hstart
  · exact hexhausted

/-- A lexer that rests does so when it has gone on with another source, or has told an event. -/
theorem Resting.resume {l : Lexer} (h : l.Resting) (parent : Source) (rest : List Source) :
    (l.resume parent rest).Resting :=
  ⟨by simpa [Lexer.resume] using h.token, by simpa [Lexer.resume] using h.held, .inl rfl⟩

/-- A lexer that rests does so at the beginning of a source that it goes on with. -/
theorem Resting.pushSource {l : Lexer} (h : l.Resting) (stream : Stream) (origin : Option Path) :
    (l.pushSource stream origin).Resting :=
  ⟨by simpa [Lexer.pushSource] using h.token, by simpa [Lexer.pushSource] using h.held, .inl rfl⟩

/-- It rests whatever it tells. -/
theorem Resting.notify {l : Lexer} (h : l.Resting) (e : Event) : (l.notify e).Resting :=
  ⟨h.token, h.held, h.state⟩

/-- Nor does it matter to that what has been asked for, or how much is allowed. -/
theorem Resting.asking {l : Lexer} (h : l.Resting) (name : String) : (l.asking name).Resting :=
  ⟨h.token, h.held, h.state⟩

/-- It rests whatever it is allowed. -/
theorem Resting.allowing {l : Lexer} (h : l.Resting) (allowance : Nat) : (l.allowing allowance).Resting :=
  ⟨h.token, h.held, h.state⟩

/-- What a lexer is after it has read a raw token. -/
structure Settled (r : Rules) (l m : Lexer) (result : Option String) : Prop where
  resting : m.Resting
  /-- Without a token the source has ended, and nothing was put back. -/
  ended : result = none → m.state = .done ∧ m.waiting = l.waiting
  pending : ∀ c ∈ m.pending, r.Holds c .char
  waiting : m.waiting = l.waiting ∨
    ∃ c, m.waiting = String.singleton c :: l.waiting ∧ r.Holds c .token

variable {r : Rules} {l m taken : Lexer} {quoted : Bool} {result : Option String}

/-- Where there is no character to take, nothing changes. -/
theorem exhausted_of_takeChar (h : l.takeChar = (.ok none, taken)) : taken = l ∧ l.Exhausted := by
  unfold takeChar at h
  split at h
  · simp at h
  · rename_i hpending
    obtain ⟨hresult, rfl⟩ := Prod.mk.inj h
    have hread : l.source.readChar = (.ok none, l.source.readChar.2) := Prod.ext hresult rfl
    have hsame := Source.eq_of_readChar_none hread
    rw [hsame] at hread
    rw [hsame]
    exact ⟨rfl, hpending, hread⟩

/-- A character that was put back is taken from the others. -/
theorem takeChar_pending (l : Lexer) : l.takeChar.2.pending = l.pending.tail := by
  unfold takeChar
  split
  · rename_i c rest hpending
    rw [hpending, List.tail_cons]
  · rename_i hpending
    exact hpending.trans (congrArg List.tail hpending).symm

/-- Once the only character that was put back is taken, none is. -/
theorem tail_pending_of_held {pending : List Char} (h : pending.length ≤ 1) : pending.tail = [] :=
  List.length_eq_zero_iff.1 (by rw [List.length_tail]; omega)

/-- Discarding the rest of a line leaves what was put back. -/
theorem skipFor_pending (l : Lexer) (move : Move) : (l.skipFor move).2.pending = l.pending := by
  unfold skipFor
  split <;> rfl

/-- Taking a character stays in the same file. -/
theorem takeChar_origin (l : Lexer) : l.takeChar.2.origin = l.origin := by
  unfold takeChar
  split
  · rfl
  · exact l.source.readChar_origin

/-- So does discarding the rest of a line. -/
theorem skipFor_origin (l : Lexer) (move : Move) : (l.skipFor move).2.origin = l.origin := by
  unfold skipFor
  split
  · exact l.source.skipLine_origin
  · rfl

/-- What a lexer is when it has taken a character, and skipped its line if that is to be skipped. -/
structure Took (l m : Lexer) : Prop where
  pending : m.pending = l.pending.tail
  waiting : m.waiting = l.waiting
  origin : m.origin = l.origin

/-- Taking a character, and skipping its line, is no more than that. -/
theorem took_of_skipFor {x : Option Char} {y : Except ReadError Unit} {f : Event} {move : Move}
    {skipped : Lexer} (htake : l.takeChar = (.ok x, taken))
    (hskip : (taken.notify f).skipFor move = (y, skipped)) : Took l skipped := by
  have hpending := skipFor_pending (taken.notify f) move
  have hwaiting := waiting_skipFor (taken.notify f) move
  have horigin := skipFor_origin (taken.notify f) move
  have hpending' := l.takeChar_pending
  have hwaiting' := l.takeChar_waiting
  have horigin' := l.takeChar_origin
  rw [htake] at hpending' hwaiting' horigin'
  rw [hskip] at hpending hwaiting horigin
  exact ⟨hpending.trans hpending', hwaiting.trans hwaiting', horigin.trans horigin'⟩

/-- The end of the source settles a lexer. -/
theorem settled_of_end {told : Lexer} (hdone : told.state = .done) (hexhausted : told.Exhausted)
    (hwaiting : told.waiting = l.waiting) (hfin : finish r quoted told = (result, m)) :
    Settled r l m result := by
  unfold finish at hfin
  obtain ⟨-, rfl⟩ := Prod.mk.inj hfin
  have hpending : told.pending = [] := hexhausted.1
  refine ⟨⟨rfl, ?_, .inr ⟨hdone, hexhausted⟩⟩, fun _ => ⟨hdone, hwaiting⟩, ?_, .inl hwaiting⟩
  · simp [hpending]
  · simp [hpending]

/-- A move that completes a token settles a lexer. -/
theorem settled_of_move {move : Move} {c : Char} {skipped : Lexer}
    (hstate : move.state = .start) (htoken : r.isToken move.token move.quoted = true)
    (hholds : r.Holds c move.held) (hpending : skipped.pending = [])
    (hwaiting : skipped.waiting = l.waiting)
    (hfin : finish r move.quoted (skipped.apply move c) = (result, m)) : Settled r l m result := by
  rw [finish, if_pos (by simpa [apply] using htoken)] at hfin
  obtain ⟨rfl, rfl⟩ := Prod.mk.inj hfin
  have hput : (skipped.apply move c).pending = if move.held = .char then [c] else [] := by
    simp [apply, hpending]
  refine ⟨⟨rfl, ?_, .inl hstate⟩, by simp, ?_, ?_⟩
  · rw [notify_pending, hput]
    split <;> simp
  · intro d hd
    rw [notify_pending, hput] at hd
    split at hd
    · rename_i hheld
      rw [hheld] at hholds
      obtain rfl := List.mem_singleton.1 hd
      exact hholds
    · cases hd
  · have hput : (skipped.apply move c).waiting =
        if move.held = .token then String.singleton c :: l.waiting else l.waiting := by
      rw [← hwaiting]
      simp [apply]
    by_cases hheld : move.held = .token
    · rw [if_pos hheld] at hput
      rw [hheld] at hholds
      exact .inr ⟨c, hput, hholds⟩
    · rw [if_neg hheld] at hput
      exact .inl hput

/-- A run with a token in progress, or with none between tokens, settles a lexer. -/
theorem settled_run (hheld : l.pending.length ≤ 1) (hprogress : r.InProgress l.state l.token quoted)
    (hrun : run r l quoted = (.ok result, m)) : Settled r l m result := by
  fun_induction Lexer.run r l quoted with
  | case1 l quoted hdone result' l' =>
    exact (r.ne_done_of_inProgress hprogress hdone).elim
  | case2 l quoted hdone e taken => simp at hrun
  | case3 l quoted hdone taken htake told => simp at hrun
  | case4 l quoted hdone taken htake told hopen result' l' =>
    rename_i hfin
    obtain ⟨hresult, rfl⟩ := Prod.mk.inj hrun
    obtain rfl := Except.ok.inj hresult
    -- The source has ended between tokens, and taking nothing has changed nothing.
    obtain ⟨rfl, hexhausted⟩ := exhausted_of_takeChar htake
    refine settled_of_end (l := taken) (setState_state told .done) ?_ (setState_waiting told .done) hfin
    refine ⟨(setState_pending told .done).trans hexhausted.1, ?_⟩
    rw [setState_source]
    exact hexhausted.2
  | case5 l quoted hdone c taken htake move e skipped => simp at hrun
  | case6 l quoted hdone c taken htake move skipped hskip next hcomplete result' l' =>
    rename_i hfin
    obtain ⟨hresult, rfl⟩ := Prod.mk.inj hrun
    obtain rfl := Except.ok.inj hresult
    have htook := took_of_skipFor htake hskip
    rcases r.move_progress hprogress c with ⟨-, hstate, htoken, -, hholds⟩ | ⟨hfalse, -, -⟩
    · exact settled_of_move hstate htoken hholds (htook.pending.trans (tail_pending_of_held hheld)) htook.waiting
        hfin
    · exact (Bool.false_ne_true (hfalse.symm.trans hcomplete)).elim
  | case7 l quoted hdone c taken htake move skipped hskip next hcomplete =>
    rename_i ih
    -- While the token goes on, nothing is put back, so the rest of the run settles the whole.
    rcases r.move_progress hprogress c with ⟨htrue, -, -, -, -⟩ | ⟨-, hnothing, hprogress'⟩
    · exact (hcomplete htrue).elim
    · have hnothing : move.held = .nothing := hnothing
      have htook := took_of_skipFor htake hskip
      have hnext : next.waiting = l.waiting := by
        have hput : next.waiting = skipped.waiting := by simp [next, apply, hnothing]
        exact hput.trans htook.waiting
      have hfree : next.pending = [] := by
        have hput : next.pending = skipped.pending := by simp [next, apply, hnothing]
        exact hput.trans (htook.pending.trans (tail_pending_of_held hheld))
      obtain ⟨hresting, hended, hpending, hput⟩ :=
        ih (by simp [hfree]) (by simpa [next, apply] using hprogress') hrun
      rw [hnext] at hended hput
      exact ⟨hresting, hended, hpending, hput⟩

/-- Reading a raw token settles a lexer that rests. -/
theorem settled_readToken (h : l.Resting) (hread : l.readToken = (.ok result, m)) :
    Settled l.rules l m result := by
  obtain ⟨htoken, hheld, hstart | ⟨hdone, hexhausted⟩⟩ := h
  · refine settled_run hheld ?_ hread
    rw [hstart, htoken]
    exact l.rules.inProgress_start
  · unfold readToken at hread
    rw [run_of_done hdone] at hread
    obtain ⟨hresult, rfl⟩ := Prod.mk.inj hread
    have hfin : finish l.rules false { l with token := "" } = (result, _) :=
      Prod.ext (Except.ok.inj hresult) rfl
    have hforgotten : ({ l with token := "" } : Lexer).state = .done := hdone
    exact settled_of_end hforgotten hexhausted rfl hfin

/-- Without operators no character is held back. -/
theorem Settled.pending_of_inactive (h : Settled r l m result)
    (hinactive : r.classes.punctuationActive = false) : m.pending = [] := by
  rw [List.eq_nil_iff_forall_not_mem]
  intro c hc
  exact Bool.false_ne_true (hinactive.symm.trans (h.pending c hc).1)

/-- With operators no token is put back. -/
theorem Settled.waiting_of_active (h : Settled r l m result)
    (hactive : r.classes.punctuationActive = true) : m.waiting = l.waiting := by
  rcases h.waiting with hsame | ⟨c, -, hinactive, -⟩
  · exact hsame
  · exact (Bool.false_ne_true (hinactive.symm.trans hactive)).elim

/-- Nor is one where words end at white space only. -/
theorem Settled.waiting_of_split (h : Settled r l m result) (hsplit : r.whitespaceSplit = true) :
    m.waiting = l.waiting := by
  rcases h.waiting with hsame | ⟨c, -, -, hearly⟩
  · exact hsame
  · exact (Bool.false_ne_true (hearly.symm.trans hsplit)).elim

/-- Reading a raw token stays in the same file. -/
theorem run_origin (r : Rules) (l : Lexer) (quoted : Bool) : (run r l quoted).2.origin = l.origin := by
  fun_induction Lexer.run r l quoted with
  | case1 l quoted hdone result m hfin =>
    have horigin : (finish r quoted { l with token := "" }).2.origin = l.origin := rfl
    rw [hfin] at horigin
    exact horigin
  | case2 l quoted hdone e taken htake =>
    have horigin := l.takeChar_origin
    rw [htake] at horigin
    exact horigin
  | case3 l quoted hdone taken htake told hopen =>
    have horigin := l.takeChar_origin
    rw [htake] at horigin
    exact horigin
  | case4 l quoted hdone taken htake told hopen result m hfin =>
    have horigin := l.takeChar_origin
    rw [htake] at horigin
    have hfinish : (finish r quoted (told.setState .done)).2.origin = taken.origin := by
      simp [finish, told, Lexer.origin]
    rw [hfin] at hfinish
    exact hfinish.trans horigin
  | case5 l quoted hdone c taken htake move e skipped hskip =>
    exact (took_of_skipFor htake hskip).origin
  | case6 l quoted hdone c taken htake move skipped hskip next hcomplete result m hfin =>
    have hfinish : (finish r move.quoted next).2.origin = skipped.origin := by
      simp [finish, next, apply, Lexer.origin]
    rw [hfin] at hfinish
    exact hfinish.trans (took_of_skipFor htake hskip).origin
  | case7 l quoted hdone c taken htake move skipped hskip next hcomplete ih =>
    have hnext : next.origin = skipped.origin := by simp [next, apply, Lexer.origin]
    exact ih.trans (hnext.trans (took_of_skipFor htake hskip).origin)

/-- At the end of its source a lexer takes no character. -/
theorem takeChar_of_exhausted (h : l.Exhausted) : l.takeChar = (.ok none, l) := by
  rw [takeChar, h.1]
  dsimp only
  rw [h.2, ← h.1]

/-- A lexer that rests at the end of its source reads no token, and stays there. -/
theorem readToken_of_exhausted (h : l.Resting) (hexhausted : l.Exhausted) :
    ∃ m, l.readToken = (.ok none, m) ∧ m.source = l.source := by
  have hempty : l.rules.isToken "" false = false := by simp [Rules.isToken]
  unfold readToken
  obtain ⟨htoken, -, hstart | ⟨hdone, -⟩⟩ := h
  · have htake := takeChar_of_exhausted hexhausted
    rw [run_of_end (by simp [hstart]) htake (by simp [hstart, State.isOpen]),
      finish_of_not_isToken (by simpa [htoken] using hempty)]
    exact ⟨_, rfl, setState_source _ .done⟩
  · rw [run_of_done hdone, finish_of_not_isToken hempty]
    exact ⟨_, rfl, rfl⟩

end Lexer
end ShellWords
