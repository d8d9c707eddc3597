import ShellWords.Lexer.Automaton
import ShellWords.Lexer.Basic

/-!
# Raw tokens

`Lexer.readToken` runs the automaton until one token of the current source is complete. The source
keyword means nothing here, and suspended sources are not touched. When a read fails, the lexer keeps
the state and the token in progress, so the next call goes on with them; only the knowledge that a
quotation has been seen belongs to the call and is lost.

Every turn either takes a character or, with one put back, leaves a token in progress for the space
between tokens, so the run ends (`work_apply_lt`).
-/

namespace ShellWords.Lexer

/-- Ends a raw token. An empty token is none, unless it was written as an empty quotation. -/
def finish (r : Rules) (quoted : Bool) (l : Lexer) : Option String × Lexer :=
  let result := if r.isToken l.token quoted then some l.token else none
  (result, { l with token := "" }.notify (.rawToken result))

/-- Carries out a move on account of a character. -/
def apply (l : Lexer) (m : Move) (c : Char) : Lexer :=
  { l with
    token := m.token
    pending := if m.held = Held.char then c :: l.pending else l.pending
    waiting := if m.held = Held.token then String.singleton c :: l.waiting else l.waiting
  }.setState m.state

/-- Discards the rest of the line if the move says so. -/
def skipFor (l : Lexer) (m : Move) : Except ReadError Unit × Lexer :=
  if m.skipsLine then l.skipLine else (.ok (), l)

/-- A move that discards the rest of the line, or nothing, adds nothing to what is left to read. -/
theorem remaining_skipFor_le (l : Lexer) (m : Move) : (l.skipFor m).2.remaining ≤ l.remaining := by
  unfold skipFor
  split
  · exact l.remaining_skipLine_le
  · exact Nat.le_refl _

/-- Nor does it put a token back. -/
theorem waiting_skipFor (l : Lexer) (m : Move) : (l.skipFor m).2.waiting = l.waiting := by
  unfold skipFor
  split <;> rfl

/-- A turn of the automaton leaves less work. -/
theorem work_apply_lt {l taken skipped : Lexer} {r : Rules} {quoted : Bool} {c : Char} {e : Event}
    {u : Except ReadError Unit}
    (htake : l.takeChar = (.ok (some c), taken))
    (hskip : (taken.notify e).skipFor (r.move l.state l.token quoted c) = (u, skipped)) :
    (skipped.apply (r.move l.state l.token quoted c) c).work < l.work := by
  have hlt := remaining_lt_of_takeChar htake
  have hwait := l.takeChar_waiting
  have hle := (taken.notify e).remaining_skipFor_le (r.move l.state l.token quoted c)
  have hwait' := (taken.notify e).waiting_skipFor (r.move l.state l.token quoted c)
  rw [htake] at hwait
  rw [hskip] at hle hwait'
  dsimp only at hle hwait hwait'
  have hnotify : (taken.notify e).remaining = taken.remaining := rfl
  rw [hnotify] at hle
  rw [notify_waiting, hwait] at hwait'
  have hmove := r.move_held l.state l.token quoted c
  generalize r.move l.state l.token quoted c = m at *
  -- The character taken is worth three. The state may rise by two, and what is held is paid for by the
  -- token in progress that it ends.
  have hstate : (skipped.apply m c).state = m.state := rfl
  have hrank := m.state.rank_le
  have hone : State.start.rank = 1 := rfl
  cases hheld : m.held with
  | nothing =>
    have hrem : (skipped.apply m c).remaining = skipped.remaining := by
      simp [apply, remaining, hheld]
    have hlen : (skipped.apply m c).waiting = l.waiting := by
      simp [apply, hheld, hwait']
    simp only [work, hstate, hrem, hlen]
    omega
  | char =>
    obtain ⟨hfrom, hto⟩ := hmove (by simp [hheld])
    have hrem : (skipped.apply m c).remaining = skipped.remaining + 1 := by
      simp [apply, remaining, hheld, Nat.add_assoc]
    have hlen : (skipped.apply m c).waiting = l.waiting := by
      simp [apply, hheld, hwait']
    simp only [work, hstate, hlen, hto, hfrom]
    omega
  | token =>
    obtain ⟨hfrom, hto⟩ := hmove (by simp [hheld])
    have hrem : (skipped.apply m c).remaining = skipped.remaining := by
      simp [apply, remaining, hheld]
    have hlen : (skipped.apply m c).waiting.length = l.waiting.length + 1 := by
      simp [apply, hheld, hwait']
    simp only [work, hstate, hrem, hlen, hto, hfrom]
    omega

/-- Runs the automaton until a token is complete or the source ends. -/
def run (r : Rules) (l : Lexer) (quoted : Bool) : Except LexError (Option String) × Lexer :=
  if l.state = .done then
    let (result, m) := finish r quoted { l with token := "" }
    (.ok result, m)
  else
    match _htake : l.takeChar with
    -- What has been read of the token so far stays with the lexer.
    | (.error e, taken) => (.error (.unreadable e), taken)
    | (.ok none, taken) =>
      let told := taken.notify (.charRead l.state none)
      if l.state.isOpen then (.error (.unterminatedQuotation told.origin told.line), told)
      else
        let (result, m) := finish r quoted (told.setState .done)
        (.ok result, m)
    | (.ok (some c), taken) =>
      let m := r.move l.state l.token quoted c
      -- A line that cannot be skipped leaves the move undone.
      match _hskip : (taken.notify (.charRead l.state (some c))).skipFor m with
      | (.error e, skipped) => (.error (.unreadable e), skipped)
      | (.ok (), skipped) =>
        let next := skipped.apply m c
        if m.complete then
          let (result, l') := finish r m.quoted next
          (.ok result, l')
        else run r next m.quoted
termination_by l.work
decreasing_by exact work_apply_lt _htake _hskip

/-- Reads a token of the current source. There is none before the end of the source; suspended sources
are not asked. -/
def readToken (l : Lexer) : Except LexError (Option String) × Lexer := run l.rules l false

/-! ## What a raw token leaves alone, and how much work it leaves -/

/-- Two lexers that agree on everything but the current source and the automaton. -/
structure SameStack (l m : Lexer) : Prop where
  config : m.config = l.config
  suspended : m.suspended = l.suspended
  resolver : m.resolver = l.resolver
  allowance : m.allowance = l.allowance
  halted : m.halted = l.halted

/-- A lexer has its own stack. -/
theorem SameStack.refl (l : Lexer) : SameStack l l := ⟨rfl, rfl, rfl, rfl, rfl⟩

/-- If two steps leave the stack alone, so do both together. -/
theorem SameStack.trans {l m n : Lexer} (h : SameStack l m) (k : SameStack m n) : SameStack l n :=
  ⟨k.config.trans h.config, k.suspended.trans h.suspended, k.resolver.trans h.resolver,
    k.allowance.trans h.allowance, k.halted.trans h.halted⟩

/-- Telling an event leaves the stack alone. -/
theorem sameStack_notify (l : Lexer) (e : Event) : SameStack l (l.notify e) :=
  ⟨rfl, rfl, rfl, rfl, rfl⟩

/-- So does moving the automaton. -/
theorem sameStack_setState (l : Lexer) (s : State) : SameStack l (l.setState s) := by
  constructor <;> simp

/-- So does taking a character. -/
theorem sameStack_takeChar (l : Lexer) : SameStack l l.takeChar.2 := by
  unfold takeChar
  split <;> exact ⟨rfl, rfl, rfl, rfl, rfl⟩

/-- So does discarding a line. -/
theorem sameStack_skipFor (l : Lexer) (m : Move) : SameStack l (l.skipFor m).2 := by
  unfold skipFor
  split <;> exact ⟨rfl, rfl, rfl, rfl, rfl⟩

/-- So does carrying out a move. -/
theorem sameStack_apply (l : Lexer) (m : Move) (c : Char) : SameStack l (l.apply m c) := by
  constructor <;> simp [apply]

/-- So does ending a token. -/
theorem sameStack_finish (r : Rules) (quoted : Bool) (l : Lexer) :
    SameStack l (finish r quoted l).2 :=
  ⟨rfl, rfl, rfl, rfl, rfl⟩

/-- Ending a token does not change how much work is left. -/
@[simp] theorem work_finish (r : Rules) (quoted : Bool) (l : Lexer) :
    (finish r quoted l).2.work = l.work := rfl

/-- Reading a raw token does not touch the stack of sources. -/
theorem sameStack_run (r : Rules) (l : Lexer) (quoted : Bool) : SameStack l (run r l quoted).2 := by
  fun_induction run r l quoted with
  | case1 l quoted hdone result m hfin =>
    have h₁ : SameStack l { l with token := "" } := ⟨rfl, rfl, rfl, rfl, rfl⟩
    have h₂ := sameStack_finish r quoted { l with token := "" }
    rw [hfin] at h₂
    exact h₁.trans h₂
  | case2 l quoted hdone e taken htake => simpa [htake] using l.sameStack_takeChar
  | case3 l quoted hdone taken htake told hopen =>
    have := l.sameStack_takeChar
    rw [htake] at this
    exact this.trans (sameStack_notify _ _)
  | case4 l quoted hdone taken htake told hopen result m hfin =>
    have h₁ := l.sameStack_takeChar
    rw [htake] at h₁
    have h₂ := sameStack_finish r quoted (told.setState .done)
    rw [hfin] at h₂
    exact (h₁.trans (sameStack_notify _ _)).trans ((sameStack_setState _ _).trans h₂)
  | case5 l quoted hdone c taken htake m e skipped hskip =>
    have h₁ := l.sameStack_takeChar
    rw [htake] at h₁
    have h₂ := (taken.notify (.charRead l.state (some c))).sameStack_skipFor m
    rw [hskip] at h₂
    exact (h₁.trans (sameStack_notify _ _)).trans h₂
  | case6 l quoted hdone c taken htake m skipped hskip next hcomplete result l' hfin =>
    have h₁ := l.sameStack_takeChar
    rw [htake] at h₁
    have h₂ := (taken.notify (.charRead l.state (some c))).sameStack_skipFor m
    rw [hskip] at h₂
    have h₃ := sameStack_finish r m.quoted next
    rw [hfin] at h₃
    exact ((h₁.trans (sameStack_notify _ _)).trans h₂).trans ((sameStack_apply _ _ _).trans h₃)
  | case7 l quoted hdone c taken htake m skipped hskip next hcomplete ih =>
    have h₁ := l.sameStack_takeChar
    rw [htake] at h₁
    have h₂ := (taken.notify (.charRead l.state (some c))).sameStack_skipFor m
    rw [hskip] at h₂
    exact ((h₁.trans (sameStack_notify _ _)).trans h₂).trans ((sameStack_apply _ _ _).trans ih)

/-- Discarding a line leaves no more work. -/
theorem work_skipFor_le (l : Lexer) (m : Move) : (l.skipFor m).2.work ≤ l.work := by
  have h := l.remaining_skipFor_le m
  have hstate : (l.skipFor m).2.state = l.state := by unfold skipFor; split <;> rfl
  simp only [work, hstate, waiting_skipFor]
  omega

/-- Nor does taking a character. -/
theorem work_takeChar_le (l : Lexer) : l.takeChar.2.work ≤ l.work := by
  have h := l.remaining_takeChar_le
  simp only [work, takeChar_state, takeChar_waiting]
  omega

/-- Reading a raw token adds no work. -/
theorem work_run_le (r : Rules) (l : Lexer) (quoted : Bool) : (run r l quoted).2.work ≤ l.work := by
  fun_induction run r l quoted with
  | case1 l quoted hdone result m hfin =>
    have h := work_finish r quoted { l with token := "" }
    rw [hfin] at h
    exact Nat.le_of_eq h
  | case2 l quoted hdone e taken htake => simpa [htake] using l.work_takeChar_le
  | case3 l quoted hdone taken htake told hopen =>
    have htaken := l.work_takeChar_le
    rw [htake] at htaken
    exact htaken
  | case4 l quoted hdone taken htake told hopen result m hfin =>
    have h := work_finish r quoted (told.setState .done)
    rw [hfin] at h
    have htaken := l.work_takeChar_le
    rw [htake] at htaken
    -- No state is worth less than the one at the end.
    have hstep : (told.setState .done).work ≤ taken.work := by
      simp only [work, remaining, setState_source, setState_pending, setState_state, State.rank, told,
        notify_source, notify_pending, setState_waiting, notify_waiting]
      omega
    exact h ▸ Nat.le_trans hstep htaken
  | case5 l quoted hdone c taken htake m e skipped hskip =>
    have htaken := l.work_takeChar_le
    rw [htake] at htaken
    have hskipped := (taken.notify (.charRead l.state (some c))).work_skipFor_le m
    rw [hskip] at hskipped
    exact Nat.le_trans hskipped htaken
  | case6 l quoted hdone c taken htake m skipped hskip next hcomplete result l' hfin =>
    have h := work_finish r m.quoted next
    rw [hfin] at h
    exact h ▸ Nat.le_of_lt (work_apply_lt htake hskip)
  | case7 l quoted hdone c taken htake m skipped hskip next hcomplete ih =>
    exact Nat.le_trans ih (Nat.le_of_lt (work_apply_lt htake hskip))

/-- Reading a raw token takes work, if there is one. -/
theorem work_lt_of_readToken {l m : Lexer} {t : String} (h : l.readToken = (.ok (some t), m)) :
    m.work < l.work := by
  unfold readToken at h
  rw [run] at h
  split at h
  -- At the end of the source there is no token.
  · simp [finish, Rules.isToken] at h
  · rename_i hdone
    split at h
    · cases h
    · rename_i taken htake
      dsimp only at h
      split at h
      · cases h
      · simp only [Prod.mk.injEq] at h
        have htaken := l.remaining_takeChar_le
        have hwait := l.takeChar_waiting
        rw [htake] at htaken hwait
        -- The source has just ended, so the automaton was not at the end before.
        have hrank : 0 < l.state.rank := by
          cases hs : l.state <;> simp_all [State.rank]
        have hzero : State.done.rank = 0 := rfl
        rw [← h.2, work_finish]
        simp only [work, remaining, setState_source, setState_pending, setState_state,
          setState_waiting, notify_source, notify_pending, notify_waiting, hzero] at htaken ⊢
        rw [hwait]
        omega
    · rename_i c taken htake
      dsimp only at h
      split at h
      · cases h
      · rename_i skipped hskip
        have hlt := work_apply_lt htake hskip
        split at h
        · simp only [Prod.mk.injEq] at h
          rw [← h.2, work_finish]
          exact hlt
        · have hle := work_run_le l.rules
            (skipped.apply (l.rules.move l.state l.token false c) c)
            (l.rules.move l.state l.token false c).quoted
          rw [h] at hle
          exact Nat.lt_of_le_of_lt hle hlt

/-- Reading a raw token leaves no more work, whatever comes of it. -/
theorem work_readToken_le (l : Lexer) : l.readToken.2.work ≤ l.work := work_run_le _ _ _

/-- Reading a raw token leaves the stack alone. -/
theorem sameStack_readToken (l : Lexer) : SameStack l l.readToken.2 := sameStack_run _ _ _

end ShellWords.Lexer
