import ShellWords.Lexer.RawToken

/-!
# One turn of the automaton

`Lexer.run` by cases: the source has ended before, a read fails, the source ends, a line cannot be
skipped, or a move is carried out. Each case is an equation, so a proof about raw tokens names the case
that it is in and never opens the definition.
-/

namespace ShellWords.Lexer

variable {r : Rules} {l taken skipped : Lexer} {quoted : Bool}

/-! ## The end of a token -/

/-- A token that is one is returned whole, and the lexer forgets it. -/
theorem finish_of_isToken (h : r.isToken l.token quoted = true) :
    finish r quoted l =
      (some l.token, notify { l with token := "" } (.rawToken (some l.token))) := by
  rw [finish, if_pos h]

/-- Without a token in progress, none is returned. -/
theorem finish_of_not_isToken (h : r.isToken l.token quoted = false) :
    finish r quoted l = (none, notify { l with token := "" } (.rawToken none)) := by
  rw [finish, if_neg (by simp [h])]

/-! ## One turn -/

/-- A run is one turn and, if that completes no token, another run. -/
theorem run_eq (r : Rules) (l : Lexer) (quoted : Bool) :
    run r l quoted =
      if l.state = .done then
        (.ok (finish r quoted { l with token := "" }).1, (finish r quoted { l with token := "" }).2)
      else match l.takeChar with
        | (.error e, taken) => (.error (.unreadable e), taken)
        | (.ok none, taken) =>
          let told := taken.notify (.charRead l.state none)
          if l.state.isOpen then (.error (.unterminatedQuotation told.origin told.line), told)
          else (.ok (finish r quoted (told.setState .done)).1, (finish r quoted (told.setState .done)).2)
        | (.ok (some c), taken) =>
          let m := r.move l.state l.token quoted c
          match (taken.notify (.charRead l.state (some c))).skipFor m with
          | (.error e, skipped) => (.error (.unreadable e), skipped)
          | (.ok (), skipped) =>
            let next := skipped.apply m c
            if m.complete then (.ok (finish r m.quoted next).1, (finish r m.quoted next).2)
            else run r next m.quoted := by
  rw [run]
  by_cases hdone : l.state = .done
  · rw [if_pos hdone, if_pos hdone]
  · rw [if_neg hdone, if_neg hdone]
    split <;> rename_i htake
    · simp only [htake]
    · simp only [htake]
    · simp only [htake]
      split <;> rename_i hskip
      · simp only [hskip]
      · simp only [hskip]

/-- A source that has ended before gives no token. -/
theorem run_of_done (h : l.state = .done) :
    run r l quoted = (.ok (finish r quoted { l with token := "" }).1,
      (finish r quoted { l with token := "" }).2) := by
  rw [run_eq, if_pos h]

/-- A read that fails is reported. -/
theorem run_of_takeChar_error {e : ReadError} (h : l.state ≠ .done)
    (htake : l.takeChar = (.error e, taken)) :
    run r l quoted = (.error (.unreadable e), taken) := by
  rw [run_eq, if_neg h, htake]

/-- A source that ends inside a quotation is reported. -/
theorem run_of_end_open (htake : l.takeChar = (.ok none, taken)) (hopen : l.state.isOpen = true) :
    run r l quoted = (.error (.unterminatedQuotation taken.origin taken.line),
      taken.notify (.charRead l.state none)) := by
  have h : l.state ≠ .done := by
    intro hdone
    simp [hdone, State.isOpen] at hopen
  rw [run_eq, if_neg h, htake]
  dsimp only
  rw [if_pos hopen]
  rfl

/-- A source that ends completes the token in progress. -/
theorem run_of_end (h : l.state ≠ .done) (htake : l.takeChar = (.ok none, taken))
    (hopen : l.state.isOpen = false) :
    run r l quoted =
      (.ok (finish r quoted ((taken.notify (.charRead l.state none)).setState .done)).1,
        (finish r quoted ((taken.notify (.charRead l.state none)).setState .done)).2) := by
  rw [run_eq, if_neg h, htake]
  dsimp only
  rw [hopen]
  rfl

/-- A line that cannot be skipped is reported. -/
theorem run_of_skip_error {c : Char} {e : ReadError} (h : l.state ≠ .done)
    (htake : l.takeChar = (.ok (some c), taken))
    (hskip : (taken.notify (.charRead l.state (some c))).skipFor (r.move l.state l.token quoted c) =
      (.error e, skipped)) :
    run r l quoted = (.error (.unreadable e), skipped) := by
  rw [run_eq, if_neg h, htake]
  dsimp only
  rw [hskip]

/-- A move completes the token, or the run goes on behind it. -/
theorem run_of_move {c : Char} (h : l.state ≠ .done) (htake : l.takeChar = (.ok (some c), taken))
    (hskip : (taken.notify (.charRead l.state (some c))).skipFor (r.move l.state l.token quoted c) =
      (.ok (), skipped)) :
    run r l quoted =
      let m := r.move l.state l.token quoted c
      let next := skipped.apply m c
      if m.complete then (.ok (finish r m.quoted next).1, (finish r m.quoted next).2)
      else run r next m.quoted := by
  rw [run_eq, if_neg h, htake]
  dsimp only
  rw [hskip]

/-! ## What a raw token leaves alone -/

/-- Reading a raw token changes neither what is suspended below a lexer nor how it includes. -/
theorem SameStack.of_readToken {x : Except LexError (Option String)} {read : Lexer}
    (h : l.readToken = (x, read)) : SameStack l read := by
  have hsame := l.sameStack_readToken
  rw [h] at hsame
  exact hsame

end ShellWords.Lexer
