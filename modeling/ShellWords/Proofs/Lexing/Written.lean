import ShellWords.Proofs.Lexing.Resting
import ShellWords.Proofs.Lexing.Text

/-!
# Tokens that can be written

A raw token may be read from any stream, with comments in it, and end for many reasons. It can be written so
that it ends by itself: there is a text from which it is read, whatever follows (`exists_written`). The text is
what was read without the comments, and a newline where the token would not end otherwise.
-/

namespace ShellWords

namespace Rules

variable {r : Rules} {state : State} {token : String} {quoted : Bool} {c : Char}

/-- Behind a complete token the automaton is between tokens. -/
theorem Progress.state_of_complete {m : Move} (h : r.Progress c m) (hcomplete : m.complete = true) :
    m.state = .start := by
  cases h with
  | completes htrue hstate => exact hstate
  | continues hfalse => exact (Bool.false_ne_true (hfalse.symm.trans hcomplete)).elim

/-- A move that skips a line without completing a token changes nothing. -/
theorem move_of_skips (hprogress : r.InProgress state token quoted)
    (hcomplete : (r.move state token quoted c).complete = false)
    (hskips : (r.move state token quoted c).skipsLine = true) :
    (r.move state token quoted c).state = state ∧ (r.move state token quoted c).token = token ∧
      (r.move state token quoted c).quoted = quoted := by
  cases state with
  | start => simp only [move, moveFromStart] at *; grind
  | word => simp only [move, moveFromWord, moveAtBoundary, InProgress] at *; grind
  | punctuation =>
    have htoken := r.isToken_of_ne_empty hprogress.1 quoted
    simp only [move, moveFromPunctuation, moveAtBoundary] at *
    grind
  | quote q => simp only [move, moveFromQuote] at *; grind
  | escape resume => cases resume <;> simp [move, moveFromEscape] at *
  | done => exact hprogress.elim

/-- A move that completes a token uses its character up, unless it ends a word or a run of operators that could
have ended before the character. -/
theorem move_of_completes (hprogress : r.InProgress state token quoted)
    (hcomplete : (r.move state token quoted c).complete = true) :
    (r.move state token quoted c).held = .nothing ∧ (r.move state token quoted c).skipsLine = false ∨
      (state = .word ∨ state = .punctuation) ∧ (r.move state token quoted c).token = token ∧
        (r.move state token quoted c).quoted = quoted := by
  cases state with
  | start => simp only [move, moveFromStart] at *; grind
  | word => simp only [move, moveFromWord, moveAtBoundary] at *; grind
  | punctuation => simp only [move, moveFromPunctuation, moveAtBoundary] at *; grind
  | quote q => simp only [move, moveFromQuote] at *; grind
  | escape resume => cases resume <;> simp [move, moveFromEscape] at *
  | done => exact hprogress.elim

end Rules

namespace Lexer

variable {r : Rules} {l m read : Lexer} {quoted : Bool} {token : String} {rest : List Char} {last : Nat}

/-- A lexer is behind a raw token, and has these characters to read. -/
structure Behind (l after : Lexer) (rest : List Char) (last : Nat) : Prop where
  state : after.state = .start
  waiting : after.waiting = l.waiting
  reads : after.Reads rest last

/-- A move that completes a token and uses up its character. -/
theorem run_of_used_up {c : Char} {move : Move} (hdone : l.state ≠ .done) (hreads : l.Reads (c :: rest) last)
    (hmove : r.move l.state l.token quoted c = move) (hcomplete : move.complete = true)
    (hstart : move.state = .start) (hheld : move.held = .nothing) (hskips : move.skipsLine = false)
    (htoken : r.isToken move.token move.quoted = true) :
    ∃ after, run r l quoted = (.ok (some move.token), after) ∧ Behind l after rest last := by
  obtain ⟨next, hmoved, hnext, hrun⟩ := run_of_reads_cons hreads hdone hmove
  have hwaiting := hmoved.waiting
  have hleft := hmoved.reads
  simp only [hheld, hskips, reduceCtorEq, if_false, List.nil_append, Bool.false_eq_true] at hwaiting hleft
  rw [if_pos hcomplete, finish_of_isToken (by rw [hnext]; exact htoken), hnext] at hrun
  exact ⟨_, hrun, hmoved.state.trans hstart, hwaiting, hleft⟩

/-- A word or a run of operators is read when a newline follows it. -/
theorem run_of_newline (hstate : l.state = .word ∨ l.state = .punctuation)
    (hspace : r.classes.isWhitespace '\n' = true) (htoken : r.isToken l.token quoted = true)
    (hreads : l.Reads ('\n' :: rest) last) :
    ∃ after, run r l quoted = (.ok (some l.token), after) ∧ Behind l after rest last := by
  have hdone : l.state ≠ .done := by rcases hstate with h | h <;> simp [h]
  exact run_of_used_up hdone hreads (r.move_break hstate hspace) htoken rfl rfl rfl htoken

/-- A raw token can be written so that it is read, whatever follows. -/
theorem exists_written (hspace : r.classes.isWhitespace '\n' = true)
    (hprogress : r.InProgress l.state l.token quoted)
    (hrun : run r l quoted = (.ok (some token), read)) :
    ∃ written : List Char, ∀ (m : Lexer) (rest : List Char) (last : Nat), m.state = l.state →
      m.token = l.token → m.Reads (written ++ rest) last →
        ∃ after, run r m quoted = (.ok (some token), after) ∧ Behind m after rest last := by
  fun_induction Lexer.run r l quoted with
  | case1 l quoted hdone result l' => exact (r.ne_done_of_inProgress hprogress hdone).elim
  | case2 l quoted hdone e taken htake => simp at hrun
  | case3 l quoted hdone taken htake told hopen => simp at hrun
  | case4 l quoted hdone taken htake told hopen result l' =>
    rename_i hfin
    obtain ⟨hresult, rfl⟩ := Prod.mk.inj hrun
    obtain rfl := Except.ok.inj hresult
    obtain ⟨rfl, -⟩ := exhausted_of_takeChar htake
    -- The source has ended with a token in progress. A newline ends it, too.
    have htoken : r.isToken taken.token quoted = true ∧ taken.token = token := by
      simpa [finish, told] using congrArg Prod.fst hfin
    obtain ⟨htoken, rfl⟩ := htoken
    have hstate : taken.state = .word ∨ taken.state = .punctuation := by
      cases hs : taken.state with
      | start =>
        rw [hs] at hprogress
        simp [Rules.isToken, hprogress.1, hprogress.2] at htoken
      | word => exact .inl rfl
      | punctuation => exact .inr rfl
      | quote q => simp [hs, State.isOpen] at hopen
      | escape resume => simp [hs, State.isOpen] at hopen
      | done => exact (hdone hs).elim
    refine ⟨['\n'], ?_⟩
    intro m rest last hstate' htoken' hreads
    rw [← htoken'] at htoken ⊢
    exact run_of_newline (by rwa [hstate']) hspace htoken hreads
  | case5 l quoted hdone c taken htake move e skipped hskip => simp at hrun
  | case6 l quoted hdone c taken htake move skipped hskip next hcomplete result l' =>
    rename_i hfin
    obtain ⟨hresult, rfl⟩ := Prod.mk.inj hrun
    obtain rfl := Except.ok.inj hresult
    have htoken : r.isToken move.token move.quoted = true ∧ move.token = token := by
      simpa [finish, next, apply] using congrArg Prod.fst hfin
    obtain ⟨htoken, rfl⟩ := htoken
    have hstart : move.state = .start := (r.move_progress hprogress c).state_of_complete hcomplete
    rcases r.move_of_completes hprogress hcomplete with ⟨hheld, hskips⟩ | ⟨hstate, hkept, hquoted⟩
    · -- The token ends with this character.
      refine ⟨[c], ?_⟩
      intro m rest last hstate' htoken' hreads
      have hmove : r.move m.state m.token quoted c = move := by rw [hstate', htoken']
      exact run_of_used_up (by rwa [hstate']) hreads hmove hcomplete hstart hheld hskips htoken
    · -- The token has ended before this character. A newline ends it, too.
      have hkept : move.token = l.token := hkept
      have hquoted : move.quoted = quoted := hquoted
      refine ⟨['\n'], ?_⟩
      intro m rest last hstate' htoken' hreads
      rw [hkept, hquoted, ← htoken'] at htoken
      rw [hkept, ← htoken']
      exact run_of_newline (by rwa [hstate']) hspace htoken hreads
  | case7 l quoted hdone c taken htake move skipped hskip next hcomplete ih =>
    rcases r.move_progress hprogress c with ⟨htrue, -, -, -, -⟩ | ⟨-, hheld, hprogress'⟩
    · exact (hcomplete htrue).elim
    have hheld : move.held = .nothing := hheld
    have hcomplete : move.complete = false := by simpa using hcomplete
    have hstate : next.state = move.state := by simp [next, apply]
    have htoken : next.token = move.token := by simp [next, apply]
    obtain ⟨written, hwritten⟩ := ih (by rw [hstate, htoken]; exact hprogress') hrun
    cases hskips : move.skipsLine with
    | true =>
      -- The comment can be left out.
      obtain ⟨hsame, hkept, hquoted⟩ := r.move_of_skips hprogress hcomplete hskips
      have hquoted : move.quoted = quoted := hquoted
      refine ⟨written, ?_⟩
      intro m rest last hstate' htoken' hreads
      rw [hquoted] at hwritten
      exact hwritten m rest last (hstate'.trans (hsame.symm.trans hstate.symm))
        (htoken'.trans (hkept.symm.trans htoken.symm)) hreads
    | false =>
      refine ⟨c :: written, ?_⟩
      intro m rest last hstate' htoken' hreads
      have hmove : r.move m.state m.token quoted c = move := by rw [hstate', htoken']
      obtain ⟨next', hmoved, hnext, hrun'⟩ := run_of_reads_cons hreads (by rwa [hstate']) hmove
      have hwaiting := hmoved.waiting
      have hleft := hmoved.reads
      simp only [hheld, hskips, reduceCtorEq, if_false, List.nil_append, Bool.false_eq_true]
        at hwaiting hleft
      rw [if_neg (by simp [hcomplete])] at hrun'
      obtain ⟨after, hafter, hbehind⟩ :=
        hwritten next' rest last (hmoved.state.trans hstate.symm) (hnext.trans htoken.symm) hleft
      exact ⟨after, hrun'.trans hafter, hbehind.state, hbehind.waiting.trans hwaiting, hbehind.reads⟩

end Lexer
end ShellWords
