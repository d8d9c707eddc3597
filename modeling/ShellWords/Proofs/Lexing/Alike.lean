import ShellWords.Proofs.Lexing.RawToken

/-!
# What a raw token depends on

`Alike` holds of two lexers that stand at the same place of the same source under the same rules. They may
differ in everything else: the keyword, the suspended sources, the listener, the allowance, and the tokens
that were put back before. Every operation that reading a raw token is made of keeps two lexers alike, so
both read the same token and are alike again (`Alike.readToken`). A lexer that reads a text on its own
thus speaks for every lexer that meets the same text on its way.
-/

namespace ShellWords.Lexer

/-- Two lexers stand at the same place of the same source. Since they held the tokens `w` and `v`, they have
put back the same tokens. -/
structure Alike (w v : List String) (l m : Lexer) : Prop where
  rules : m.rules = l.rules
  source : m.source = l.source
  state : m.state = l.state
  token : m.token = l.token
  pending : m.pending = l.pending
  waiting : ∃ put, l.waiting = put ++ w ∧ m.waiting = put ++ v

namespace Alike

variable {w v : List String} {l m : Lexer}

/-- Either of them may come first. -/
theorem symm (h : Alike w v l m) : Alike v w m l where
  rules := h.rules.symm
  source := h.source.symm
  state := h.state.symm
  token := h.token.symm
  pending := h.pending.symm
  waiting := by
    obtain ⟨put, hl, hm⟩ := h.waiting
    exact ⟨put, hm, hl⟩

/-- Whatever they tell, they stay alike. -/
theorem notify (h : Alike w v l m) (e f : Event) : Alike w v (l.notify e) (m.notify f) :=
  ⟨h.rules, h.source, h.state, h.token, h.pending, h.waiting⟩

/-- They stay alike when the automaton moves to the same state. -/
theorem setState (h : Alike w v l m) (s : State) : Alike w v (l.setState s) (m.setState s) where
  rules := by
    have := h.rules
    simpa [Lexer.rules] using this
  source := by simpa using h.source
  state := rfl
  token := by simpa using h.token
  pending := by simpa using h.pending
  waiting := by simpa using h.waiting

/-- What they ask for does not show. -/
theorem asking (h : Alike w v l m) (name name' : String) :
    Alike w v (l.asking name) (m.asking name') :=
  ⟨h.rules, h.source, h.state, h.token, h.pending, h.waiting⟩

/-- Nor does what they are allowed. -/
theorem allowing (h : Alike w v l m) (a b : Nat) : Alike w v (l.allowing a) (m.allowing b) :=
  ⟨h.rules, h.source, h.state, h.token, h.pending, h.waiting⟩

/-- They go on alike with the same suspended source. -/
theorem resume (h : Alike w v l m) (parent : Source) (rest below : List Source) :
    Alike w v (l.resume parent rest) (m.resume parent below) := by
  have hswitched : Alike w v { l with source := parent, suspended := rest }
      { m with source := parent, suspended := below } :=
    ⟨h.rules, rfl, h.state, h.token, h.pending, h.waiting⟩
  exact (hswitched.notify _ _).setState .start

/-- They go on alike with the same included source. -/
theorem pushSource (h : Alike w v l m) (stream : Stream) (origin : Option Path) :
    Alike w v (l.pushSource stream origin) (m.pushSource stream origin) := by
  have hswitched : Alike w v
      { l with source := ⟨stream, origin, 1⟩, suspended := l.source :: l.suspended }
      { m with source := ⟨stream, origin, 1⟩, suspended := m.source :: m.suspended } :=
    ⟨h.rules, rfl, h.state, h.token, h.pending, h.waiting⟩
  exact (hswitched.notify _ _).setState .start

/-- They take the same character. -/
theorem takeChar (h : Alike w v l m) {x : Except ReadError (Option Char)} {taken : Lexer}
    (htake : l.takeChar = (x, taken)) : ∃ taken', m.takeChar = (x, taken') ∧ Alike w v taken taken' := by
  unfold Lexer.takeChar at htake ⊢
  rw [h.pending, h.source]
  split at htake
  · rename_i c hpending
    obtain ⟨rfl, rfl⟩ := Prod.mk.inj htake
    exact ⟨_, rfl, h.rules, rfl, h.state, h.token, rfl, h.waiting⟩
  · rename_i hpending
    obtain ⟨rfl, rfl⟩ := Prod.mk.inj htake
    exact ⟨_, rfl, h.rules, rfl, h.state, h.token, rfl, h.waiting⟩

/-- They skip the same line. -/
theorem skipFor (h : Alike w v l m) {move : Move} {x : Except ReadError Unit} {skipped : Lexer}
    (hskip : l.skipFor move = (x, skipped)) :
    ∃ skipped', m.skipFor move = (x, skipped') ∧ Alike w v skipped skipped' := by
  unfold Lexer.skipFor at hskip ⊢
  split at hskip
  · rename_i hskips
    unfold Lexer.skipLine at hskip ⊢
    obtain ⟨rfl, rfl⟩ := Prod.mk.inj hskip
    rw [if_pos hskips, h.source]
    exact ⟨_, rfl, h.rules, rfl, h.state, h.token, h.pending, h.waiting⟩
  · rename_i hskips
    obtain ⟨rfl, rfl⟩ := Prod.mk.inj hskip
    rw [if_neg hskips]
    exact ⟨m, rfl, h⟩

/-- They take the same character and skip the same line for the same move. -/
theorem takeAndSkip (h : Alike w v l m) {r : Rules} {quoted : Bool} {c : Char} {taken skipped : Lexer}
    {x : Except ReadError Unit} (htake : l.takeChar = (.ok (some c), taken))
    (hskip : (taken.notify (.charRead l.state (some c))).skipFor (r.move l.state l.token quoted c) =
      (x, skipped)) :
    ∃ taken' skipped', m.takeChar = (.ok (some c), taken') ∧
      (taken'.notify (.charRead m.state (some c))).skipFor (r.move m.state m.token quoted c) =
        (x, skipped') ∧ Alike w v skipped skipped' := by
  obtain ⟨taken', htake', halike⟩ := h.takeChar htake
  have htold := halike.notify (.charRead l.state (some c)) (.charRead m.state (some c))
  obtain ⟨skipped', hskip', halike'⟩ := htold.skipFor hskip
  rw [← h.state, ← h.token] at hskip'
  exact ⟨taken', skipped', htake', hskip', halike'⟩

/-- They carry out the same move in the same way. -/
theorem apply (h : Alike w v l m) (move : Move) (c : Char) :
    Alike w v (l.apply move c) (m.apply move c) := by
  obtain ⟨put, hl, hm⟩ := h.waiting
  unfold Lexer.apply
  rw [h.pending]
  refine Alike.setState ?_ move.state
  refine ⟨h.rules, h.source, h.state, rfl, rfl, ?_⟩
  by_cases hheld : move.held = .token
  · refine ⟨String.singleton c :: put, ?_, ?_⟩
    · rw [if_pos hheld, hl, List.cons_append]
    · rw [if_pos hheld, hm, List.cons_append]
  · refine ⟨put, ?_, ?_⟩
    · rw [if_neg hheld, hl]
    · rw [if_neg hheld, hm]

/-- They hand out the same token. -/
theorem finish (h : Alike w v l m) {r : Rules} {quoted : Bool} {result : Option String} {after : Lexer}
    (hfin : finish r quoted l = (result, after)) :
    ∃ after', Lexer.finish r quoted m = (result, after') ∧ Alike w v after after' := by
  unfold Lexer.finish at hfin ⊢
  obtain ⟨rfl, rfl⟩ := Prod.mk.inj hfin
  rw [h.token]
  exact ⟨_, rfl, h.rules, h.source, h.state, rfl, h.pending, h.waiting⟩

/-- Two lexers that are alike run the automaton in the same way, and are alike again. -/
theorem run (h : Alike w v l m) {r : Rules} {quoted : Bool} {x : Except LexError (Option String)}
    {after : Lexer} (hrun : run r l quoted = (x, after)) :
    ∃ after', Lexer.run r m quoted = (x, after') ∧ Alike w v after after' := by
  fun_induction Lexer.run r l quoted generalizing m with
  | case1 l quoted hdone result l' hfin =>
    obtain ⟨rfl, rfl⟩ := Prod.mk.inj hrun
    have hempty : Alike w v { l with token := "" } { m with token := "" } :=
      ⟨h.rules, h.source, h.state, rfl, h.pending, h.waiting⟩
    obtain ⟨after', hfin', halike⟩ := hempty.finish hfin
    rw [run_of_done (h.state.trans hdone), hfin']
    exact ⟨after', rfl, halike⟩
  | case2 l quoted hdone e taken htake =>
    obtain ⟨rfl, rfl⟩ := Prod.mk.inj hrun
    obtain ⟨taken', htake', halike⟩ := h.takeChar htake
    rw [run_of_takeChar_error (h.state ▸ hdone) htake']
    exact ⟨taken', rfl, halike⟩
  | case3 l quoted hdone taken htake told =>
    rename_i hopen
    obtain ⟨rfl, rfl⟩ := Prod.mk.inj hrun
    obtain ⟨taken', htake', halike⟩ := h.takeChar htake
    have hopen' : m.state.isOpen = true := by rw [h.state]; exact hopen
    rw [run_of_end_open htake' hopen']
    have horigin : taken'.origin = taken.origin := congrArg Source.origin halike.source
    have hline : taken'.line = taken.line := congrArg Source.line halike.source
    rw [horigin, hline]
    exact ⟨_, rfl, halike.notify _ _⟩
  | case4 l quoted hdone taken htake told hopen result l' =>
    rename_i hfin
    obtain ⟨rfl, rfl⟩ := Prod.mk.inj hrun
    obtain ⟨taken', htake', halike⟩ := h.takeChar htake
    have hended : Alike w v (told.setState .done)
        ((taken'.notify (.charRead m.state none)).setState .done) :=
      (halike.notify _ _).setState .done
    obtain ⟨after', hfin', halike'⟩ := hended.finish hfin
    have hopen' : m.state.isOpen = false := by rw [h.state]; simpa using hopen
    rw [run_of_end (h.state ▸ hdone) htake' hopen', hfin']
    exact ⟨after', rfl, halike'⟩
  | case5 l quoted hdone c taken htake move e skipped =>
    rename_i hskip
    obtain ⟨rfl, rfl⟩ := Prod.mk.inj hrun
    obtain ⟨taken', skipped', htake', hskip', halike⟩ := h.takeAndSkip htake hskip
    rw [run_of_skip_error (h.state ▸ hdone) htake' hskip']
    exact ⟨skipped', rfl, halike⟩
  | case6 l quoted hdone c taken htake move skipped hskip next hcomplete result l' =>
    rename_i hfin
    obtain ⟨rfl, rfl⟩ := Prod.mk.inj hrun
    obtain ⟨taken', skipped', htake', hskip', halike⟩ := h.takeAndSkip htake hskip
    have hmove : r.move m.state m.token quoted c = move := by rw [h.state, h.token]
    obtain ⟨after', hfin', halike'⟩ := (halike.apply move c).finish hfin
    rw [run_of_move (h.state ▸ hdone) htake' hskip', hmove]
    dsimp only
    rw [if_pos hcomplete, hfin']
    exact ⟨after', rfl, halike'⟩
  | case7 l quoted hdone c taken htake move skipped hskip next hcomplete =>
    rename_i ih
    obtain ⟨taken', skipped', htake', hskip', halike⟩ := h.takeAndSkip htake hskip
    have hmove : r.move m.state m.token quoted c = move := by rw [h.state, h.token]
    rw [run_of_move (h.state ▸ hdone) htake' hskip', hmove]
    dsimp only
    rw [if_neg hcomplete]
    exact ih (halike.apply move c) hrun

/-- Two lexers that are alike read the same raw token, and are alike again. -/
theorem readToken (h : Alike w v l m) {x : Except LexError (Option String)} {after : Lexer}
    (hread : l.readToken = (x, after)) :
    ∃ after', m.readToken = (x, after') ∧ Alike w v after after' := by
  unfold Lexer.readToken at hread ⊢
  rw [h.rules]
  exact h.run hread

end Alike
end ShellWords.Lexer
