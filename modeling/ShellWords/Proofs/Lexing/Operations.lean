import ShellWords.Proofs.Lexing.Resting
import ShellWords.Proofs.Lexing.Search

/-!
# Lexers in use

Whoever holds a lexer may call its operations in any order, and go on after an error. `Op` names the
operations, and a lexer is `Lexer.Reached` if some of them lead to it from a lexer at the beginning of a source.

An error may leave a token in progress, and other sources may be read in front of the rest of it. So less is
known of a lexer in use than of one that looks for its next token: only that it is `Lexer.Consistent`. Every
move keeps that (`Rules.move_leads`), so every run does (`consistent_run`), every search, and every operation
(`Reached.consistent`).
-/

namespace ShellWords

namespace Rules

variable (r : Rules) {state : State} {token : String} {quoted : Bool} {c : Char}

/-- In a run of operators there is one. -/
def InRun (state : State) (token : String) : Prop :=
  state = .punctuation → token ≠ "" ∧ r.classes.punctuationActive = true

/-- What a move on a character leads to, whatever was in progress before. -/
structure Leads (c : Char) (m : Move) : Prop where
  /-- Only a token is completed, and then the automaton is between tokens. -/
  completes : m.complete = true → m.state = .start ∧ r.isToken m.token m.quoted = true
  /-- A character is put back between tokens, when nothing is in progress or the token is complete. -/
  holds : m.held = .char →
    m.state = .start ∧ r.Holds c .char ∧ (m.complete = false → m.token = "")
  inRun : r.InRun m.state m.token
  /-- No character ends a source. -/
  ongoing : m.state ≠ .done

variable {r} {m : Move}

/-- A move that ends a token, if there is one, and puts no character back. -/
theorem Leads.of_ends (hcomplete : m.complete = r.isToken m.token m.quoted) (hstate : m.state = .start)
    (hheld : m.held ≠ .char) : r.Leads c m where
  completes htoken := ⟨hstate, hcomplete ▸ htoken⟩
  holds hchar := (hheld hchar).elim
  inRun := by simp [InRun, hstate]
  ongoing := by simp [hstate]

/-- A move that leaves a token in progress, which is no run of operators. -/
theorem Leads.of_goesOn (hcomplete : m.complete = false) (hheld : m.held = .nothing)
    (hstate : m.state ≠ .punctuation) (hdone : m.state ≠ .done) : r.Leads c m where
  completes := by simp [hcomplete]
  holds := by simp [hheld]
  inRun hrun := (hstate hrun).elim
  ongoing := hdone

variable (r)

/-- White space and comments end what they end, or leave it in progress. -/
theorem moveAtBoundary_leads {inside : Move} (hrun : r.InRun state token) (hdone : state ≠ .done)
    (hinside : r.classes.isWhitespace c = false → r.classes.isComment c = false → r.Leads c inside) :
    r.Leads c (r.moveAtBoundary state token quoted c inside) := by
  unfold moveAtBoundary
  split_ifs with hspace hcomment hposix
  · exact .of_ends rfl rfl (by simp)
  · exact .of_ends rfl rfl (by simp)
  · exact ⟨by simp, by simp, hrun, hdone⟩
  · exact hinside (by simpa using hspace) (by simpa using hcomment)

/-- Every move before the end of the source. -/
theorem move_leads (hrun : r.InRun state token) (hdone : state ≠ .done) (quoted : Bool) (c : Char) :
    r.Leads c (r.move state token quoted c) := by
  cases state with
  | start =>
    show r.Leads c (r.moveFromStart token quoted c)
    unfold moveFromStart
    split_ifs with hspace hcomment hescape hword hpunct hquote hposix hsplit
    · exact .of_ends rfl rfl (by simp)
    · exact .of_goesOn rfl rfl (by simp) (by simp)
    · exact .of_goesOn rfl rfl (by simp) (by simp)
    · exact .of_goesOn rfl rfl (by simp) (by simp)
    · exact ⟨by simp, by simp, fun _ => ⟨by simp, r.punctuationActive_of_isPunctuation hpunct⟩, by simp⟩
    · exact .of_goesOn rfl rfl (by simp) (by simp)
    · exact .of_goesOn rfl rfl (by simp) (by simp)
    · exact .of_goesOn rfl rfl (by simp) (by simp)
    · exact .of_ends (r.isToken_singleton c quoted).symm rfl (by simp)
  | word =>
    refine r.moveAtBoundary_leads hrun hdone ?_
    intro hspace hcomment
    split_ifs with hquote hescape hextends hactive
    · exact .of_goesOn rfl rfl (by simp) (by simp)
    · exact .of_goesOn rfl rfl (by simp) (by simp)
    · exact .of_goesOn rfl rfl (by simp) (by simp)
    · refine ⟨fun htoken => ⟨rfl, htoken⟩, fun _ => ⟨rfl, ⟨hactive, hspace, hcomment⟩, ?_⟩,
        by simp [InRun], by simp⟩
      intro hnone
      simp only [isToken, Bool.or_eq_false_iff, Bool.not_eq_false'] at hnone
      simpa using hnone.1
    · exact .of_ends rfl rfl (by simp)
  | punctuation =>
    obtain ⟨htoken, hactive⟩ := hrun rfl
    refine r.moveAtBoundary_leads hrun hdone ?_
    intro hspace hcomment
    split_ifs with hpunct
    · exact ⟨by simp, by simp, fun _ => ⟨by simp, hactive⟩, by simp⟩
    · exact ⟨fun _ => ⟨rfl, r.isToken_of_ne_empty htoken quoted⟩,
        fun _ => ⟨rfl, ⟨hactive, hspace, hcomment⟩, by simp⟩, by simp [InRun], by simp⟩
  | quote q =>
    show r.Leads c (r.moveFromQuote q token c)
    unfold moveFromQuote
    split_ifs with hclose hposix hescape
    · exact .of_goesOn rfl rfl (by simp) (by simp)
    · exact .of_ends (r.isToken_push token c true).symm rfl (by simp)
    · exact .of_goesOn rfl rfl (by simp) (by simp)
    · exact .of_goesOn rfl rfl (by simp) (by simp)
  | escape resume =>
    cases resume with
    | word => exact .of_goesOn rfl rfl (by simp [move, moveFromEscape]) (by simp [move, moveFromEscape])
    | quote q =>
      exact .of_goesOn rfl rfl (by simp [move, moveFromEscape]) (by simp [move, moveFromEscape])
  | done => exact (hdone rfl).elim

end Rules

namespace Lexer

/-! ## What is known of a lexer in use -/

/-- What is known of every lexer that follows these rules. -/
structure Consistent (r : Rules) (l : Lexer) : Prop where
  rules : l.rules = r
  /-- One character at most was put back. -/
  held : l.pending.length ≤ 1
  /-- A character was put back only between tokens, with nothing in progress. -/
  pending : ∀ c ∈ l.pending, l.state = .start ∧ l.token = "" ∧ r.Holds c .char
  inRun : r.InRun l.state l.token
  /-- Only a source that has ended is done with. -/
  done : l.state = .done → l.Exhausted

variable {r : Rules} {l m taken skipped : Lexer} {quoted : Bool}

/-- Whatever a lexer tells, it stays consistent. -/
theorem Consistent.notify (h : l.Consistent r) (e : Event) : (l.notify e).Consistent r :=
  ⟨h.rules, h.held, h.pending, h.inRun, h.done⟩

/-- Nor does it matter what has been asked for, or how much is allowed. -/
theorem Consistent.asking (h : l.Consistent r) (name : String) : (l.asking name).Consistent r :=
  ⟨h.rules, h.held, h.pending, h.inRun, h.done⟩

/-- It stays consistent with another allowance. -/
theorem Consistent.allowing (h : l.Consistent r) (allowance : Nat) : (l.allowing allowance).Consistent r :=
  ⟨h.rules, h.held, h.pending, h.inRun, h.done⟩

/-! ### Going on with another source -/

/-- A lexer that goes on with another source. That is all that suspending or closing the current one does. -/
def switch (l : Lexer) (source : Source) (suspended : List Source) (e : Event) : Lexer :=
  (notify { l with source, suspended } e).setState .start

/-- To suspend the current source is to go on with another one. -/
theorem pushSource_eq_switch (l : Lexer) (stream : Stream) (origin : Option Path) :
    l.pushSource stream origin = l.switch ⟨stream, origin, 1⟩ (l.source :: l.suspended)
      (.sourcePushed origin (l.depth + 1)) := rfl

/-- To close it is to go on with the one that was suspended last. -/
theorem resume_eq_switch (l : Lexer) (parent : Source) (rest : List Source) :
    l.resume parent rest = l.switch parent rest (.sourcePopped l.origin rest.length) := rfl

section
variable (source : Source) (suspended : List Source) (e : Event)

/-- The current source is the new one. -/
@[simp] theorem switch_source : (l.switch source suspended e).source = source := by simp [switch]

/-- The suspended sources are the new ones. -/
@[simp] theorem switch_suspended : (l.switch source suspended e).suspended = suspended := by simp [switch]

/-- The automaton is between tokens. -/
@[simp] theorem switch_state : (l.switch source suspended e).state = .start := rfl

/-- The token in progress stays. -/
@[simp] theorem switch_token : (l.switch source suspended e).token = l.token := by simp [switch]

/-- The characters that were put back stay. -/
@[simp] theorem switch_pending : (l.switch source suspended e).pending = l.pending := by simp [switch]

/-- The tokens that were put back stay. -/
@[simp] theorem switch_waiting : (l.switch source suspended e).waiting = l.waiting := by simp [switch]

/-- The options stay. -/
@[simp] theorem switch_config : (l.switch source suspended e).config = l.config := by simp [switch]

/-- The resolver stays. -/
@[simp] theorem switch_resolver : (l.switch source suspended e).resolver = l.resolver := by simp [switch]

/-- The rules stay. -/
@[simp] theorem switch_rules : (l.switch source suspended e).rules = l.rules := by simp [Lexer.rules]

/-- A consistent lexer stays so when it goes on with another source. -/
theorem Consistent.switch (h : l.Consistent r) : (l.switch source suspended e).Consistent r where
  rules := by simpa using h.rules
  held := by simpa using h.held
  pending := by
    intro c hc
    obtain ⟨-, htoken, hholds⟩ := h.pending c (by simpa using hc)
    exact ⟨rfl, by simpa using htoken, hholds⟩
  inRun := by simp [Rules.InRun]
  done := by simp

end

/-! ## What a raw token keeps -/

/-- What a lexer is when it has taken a character, and skipped its line if that is to be skipped. -/
structure InHand (l m : Lexer) : Prop where
  rules : m.rules = l.rules
  pending : m.pending = l.pending.tail
  state : m.state = l.state
  token : m.token = l.token

/-- Taking a character changes no more than that. -/
theorem inHand_takeChar (l : Lexer) : InHand l l.takeChar.2 := by
  have hpending := l.takeChar_pending
  unfold takeChar at hpending ⊢
  split at hpending
  · exact ⟨rfl, hpending, rfl, rfl⟩
  · exact ⟨rfl, hpending, rfl, rfl⟩

/-- Nor does discarding the rest of its line. -/
theorem inHand_skipFor {x : Except ReadError (Option Char)} {y : Except ReadError Unit} {e : Event}
    {move : Move} (htake : l.takeChar = (x, taken))
    (hskip : (taken.notify e).skipFor move = (y, skipped)) : InHand l skipped := by
  have htaken := l.inHand_takeChar
  rw [htake] at htaken
  unfold skipFor at hskip
  split at hskip
  · obtain ⟨-, rfl⟩ := Prod.mk.inj hskip
    exact ⟨htaken.rules, htaken.pending, htaken.state, htaken.token⟩
  · obtain ⟨-, rfl⟩ := Prod.mk.inj hskip
    exact ⟨htaken.rules, htaken.pending, htaken.state, htaken.token⟩

/-- With a character in hand, a lexer whose read has failed is consistent. -/
theorem Consistent.of_inHand (h : l.Consistent r) (hhand : InHand l m) (hdone : l.state ≠ .done) :
    m.Consistent r where
  rules := hhand.rules.trans h.rules
  held := by simp [hhand.pending, tail_pending_of_held h.held]
  pending := by simp [hhand.pending, tail_pending_of_held h.held]
  inRun := by
    rw [hhand.state, hhand.token]
    exact h.inRun
  done hended := (hdone (hhand.state.symm.trans hended)).elim

/-- Ending a token forgets it, which leaves a lexer between tokens, or at the end of its source. -/
theorem consistent_finish {result : Option String} (hrules : l.rules = r)
    (hstate : l.state = .start ∨ l.state = .done ∧ l.Exhausted) (hheld : l.pending.length ≤ 1)
    (hpending : ∀ c ∈ l.pending, l.state = .start ∧ r.Holds c .char)
    (hfin : finish r quoted l = (result, m)) : m.Consistent r ∧ m.Resting := by
  unfold finish at hfin
  obtain ⟨-, rfl⟩ := Prod.mk.inj hfin
  refine ⟨⟨hrules, hheld, ?_, ?_, ?_⟩, rfl, hheld, hstate⟩
  · intro c hc
    exact ⟨(hpending c hc).1, rfl, (hpending c hc).2⟩
  · rcases hstate with hstart | ⟨hdone, -⟩
    · simp [Rules.InRun, hstart]
    · simp [Rules.InRun, hdone]
  · rcases hstate with hstart | ⟨-, hexhausted⟩
    · simp [hstart]
    · exact fun _ => hexhausted

/-- A move puts back only the character that it is made on, and only if it holds it. -/
theorem pending_apply (hpending : l.pending = []) (move : Move) (c : Char) :
    (l.apply move c).pending = if move.held = .char then [c] else [] := by
  simp [apply, hpending]

/-- So one character at most is put back. -/
theorem held_apply (hpending : l.pending = []) (move : Move) (c : Char) :
    (l.apply move c).pending.length ≤ 1 := by
  rw [pending_apply hpending]
  split <;> simp

/-- If a character is put back, it is that one. -/
theorem mem_pending_apply {move : Move} {c d : Char} (hpending : l.pending = [])
    (hd : d ∈ (l.apply move c).pending) : d = c ∧ move.held = .char := by
  rw [pending_apply hpending] at hd
  split at hd
  · rename_i hheld
    exact ⟨List.mem_singleton.1 hd, hheld⟩
  · cases hd

/-- What a move leads to is consistent, while the token goes on. -/
theorem consistent_apply {move : Move} {c : Char} (hrules : l.rules = r) (hpending : l.pending = [])
    (hleads : r.Leads c move) (hcomplete : move.complete = false) : (l.apply move c).Consistent r where
  rules := by simpa [Lexer.rules, apply] using hrules
  held := held_apply hpending move c
  pending := by
    intro d hd
    obtain ⟨rfl, hheld⟩ := mem_pending_apply hpending hd
    obtain ⟨hstart, hholds, hnone⟩ := hleads.holds hheld
    exact ⟨by simpa [apply] using hstart, by simpa [apply] using hnone hcomplete, hholds⟩
  inRun := by simpa [apply] using hleads.inRun
  done := by
    intro hdone
    exact (hleads.ongoing (by simpa [apply] using hdone)).elim

/-- A run keeps a lexer consistent. If it comes to an end of the token or of the source, the lexer rests, and
without a token the source has ended. -/
theorem consistent_run {x : Except LexError (Option String)} (h : l.Consistent r)
    (hrun : run r l quoted = (x, m)) :
    m.Consistent r ∧
      ∀ result, x = .ok result → m.Resting ∧ (result = none → m.state = .done) := by
  fun_induction Lexer.run r l quoted with
  | case1 l quoted hdone result l' =>
    rename_i hfin
    obtain ⟨rfl, rfl⟩ := Prod.mk.inj hrun
    have hexhausted := h.done hdone
    obtain ⟨hconsistent, hresting⟩ := consistent_finish (l := { l with token := "" }) h.rules
      (.inr ⟨hdone, hexhausted⟩) h.held (by simp [hexhausted.1]) hfin
    have hstate : l'.state = .done := by
      rw [← hdone]
      exact (congrArg (fun p => p.2.state) hfin).symm
    exact ⟨hconsistent, fun _ _ => ⟨hresting, fun _ => hstate⟩⟩
  | case2 l quoted hdone e taken htake =>
    obtain ⟨rfl, rfl⟩ := Prod.mk.inj hrun
    have hhand := l.inHand_takeChar
    rw [htake] at hhand
    exact ⟨h.of_inHand hhand hdone, by simp⟩
  | case3 l quoted hdone taken htake told hopen =>
    obtain ⟨rfl, rfl⟩ := Prod.mk.inj hrun
    obtain ⟨rfl, -⟩ := exhausted_of_takeChar htake
    exact ⟨h.notify _, by simp⟩
  | case4 l quoted hdone taken htake told hopen result l' =>
    rename_i hfin
    obtain ⟨rfl, rfl⟩ := Prod.mk.inj hrun
    obtain ⟨rfl, hexhausted⟩ := exhausted_of_takeChar htake
    have hended : (told.setState .done).Exhausted := by
      refine ⟨(setState_pending told .done).trans hexhausted.1, ?_⟩
      rw [setState_source]
      exact hexhausted.2
    have hrules : (told.setState .done).rules = r := by
      simpa [Lexer.rules, told] using h.rules
    have hnone : ∀ c ∈ (told.setState .done).pending,
        (told.setState .done).state = .start ∧ r.Holds c .char := by
      rw [hended.1]
      simp
    obtain ⟨hconsistent, hresting⟩ := consistent_finish hrules (.inr ⟨rfl, hended⟩)
      (by rw [hended.1]; exact Nat.zero_le _) hnone hfin
    have hstate : l'.state = .done := (congrArg (fun p => p.2.state) hfin).symm
    exact ⟨hconsistent, fun _ _ => ⟨hresting, fun _ => hstate⟩⟩
  | case5 l quoted hdone c taken htake move e skipped hskip =>
    obtain ⟨rfl, rfl⟩ := Prod.mk.inj hrun
    exact ⟨h.of_inHand (inHand_skipFor htake hskip) hdone, by simp⟩
  | case6 l quoted hdone c taken htake move skipped hskip next hcomplete result l' =>
    rename_i hfin
    obtain ⟨rfl, rfl⟩ := Prod.mk.inj hrun
    have hhand := inHand_skipFor htake hskip
    have hfree := hhand.pending.trans (tail_pending_of_held h.held)
    have hleads := r.move_leads h.inRun hdone quoted c
    obtain ⟨hstart, htoken⟩ := hleads.completes hcomplete
    have hrules : next.rules = r := by
      simpa [Lexer.rules, next, apply] using hhand.rules.trans h.rules
    have hput : ∀ d ∈ next.pending, next.state = .start ∧ r.Holds d .char := by
      intro d hd
      obtain ⟨rfl, hheld⟩ := mem_pending_apply hfree hd
      exact ⟨hstart, (hleads.holds hheld).2.1⟩
    obtain ⟨hconsistent, hresting⟩ := consistent_finish hrules (.inl hstart)
      (held_apply hfree move c) hput hfin
    refine ⟨hconsistent, fun result' hresult => ⟨hresting, ?_⟩⟩
    -- A complete token is one.
    rintro rfl
    obtain rfl := Except.ok.inj hresult
    have hsome := finish_of_isToken (l := next) (by simpa [next, apply] using htoken)
    rw [hfin] at hsome
    simp at hsome
  | case7 l quoted hdone c taken htake move skipped hskip next hcomplete ih =>
    have hhand := inHand_skipFor htake hskip
    have hleads := r.move_leads h.inRun hdone quoted c
    have hfree := hhand.pending.trans (tail_pending_of_held h.held)
    exact ih (consistent_apply (hhand.rules.trans h.rules) hfree hleads (by simpa using hcomplete)) hrun

/-- Reading a raw token does so too. -/
theorem Consistent.readToken {x : Except LexError (Option String)} (h : l.Consistent r)
    (hread : l.readToken = (x, m)) :
    m.Consistent r ∧
      ∀ result, x = .ok result → m.Resting ∧ (result = none → m.state = .done) := by
  unfold Lexer.readToken at hread
  rw [h.rules] at hread
  exact consistent_run h hread

/-! ## What every operation keeps -/

/-- A consistent lexer stays so when it suspends its source. -/
theorem Consistent.pushSource (h : l.Consistent r) (stream : Stream) (origin : Option Path) :
    (l.pushSource stream origin).Consistent r :=
  h.switch _ _ _

/-- And when it goes back to another one. -/
theorem Consistent.resume (h : l.Consistent r) (parent : Source) (rest : List Source) :
    (l.resume parent rest).Consistent r :=
  h.switch _ _ _

/-- And when it opens a source or cannot open it. -/
theorem Consistent.openInclusion {name : String} {x : Except LexError Unit} (h : l.Consistent r)
    (hopen : l.openInclusion name = (x, m)) : m.Consistent r := by
  rcases openInclusion_cases hopen with ⟨e, -, rfl⟩ | ⟨inclusion, left, -, -, -, rfl⟩
  · exact h.asking name
  · exact ((h.asking name).allowing left).pushSource _ _

/-- What the steps of a search keep, a search keeps. If there is no token, the last source has ended. -/
theorem search_keeps {P : Lexer → Prop} {x : Except LexError (Option String)}
    (hread : ∀ {l x m}, P l → l.readToken = (x, m) → P m)
    (hopen : ∀ {l keyword name x m}, P l → l.config.sourceKeyword = some keyword →
      l.openInclusion name = (x, m) → P m)
    (hresume : ∀ {l m} parent rest, P l → P m → l.readToken = (.ok none, m) →
      m.suspended = parent :: rest → P (m.resume parent rest))
    (hemit : ∀ {l} e, P l → P (l.notify e))
    (hdone : ∀ {l m}, P l → l.readToken = (.ok none, m) → P (m.setState .done))
    (h : P l) (hsearch : l.search = (x, m)) :
    P m ∧ (x = .ok none → ∃ before read, P before ∧ before.readToken = (.ok none, read) ∧
      read.suspended = [] ∧ m = (read.setState .done).notify (.tokenEmitted none)) := by
  fun_induction Lexer.search l with
  | case1 l e read hraw =>
    obtain ⟨rfl, rfl⟩ := Prod.mk.inj hsearch
    exact ⟨hread h hraw, by simp⟩
  | case2 l token read hraw hkey e named hname =>
    obtain ⟨rfl, rfl⟩ := Prod.mk.inj hsearch
    exact ⟨hread (hread h hraw) hname, by simp⟩
  | case3 l token read hraw hkey named hname ih => exact ih (hread (hread h hraw) hname) hsearch
  | case4 l token read hraw hkey name named hname e opened hopened =>
    obtain ⟨rfl, rfl⟩ := Prod.mk.inj hsearch
    rw [← (SameStack.of_readToken hname).config] at hkey
    exact ⟨hopen (hread (hread h hraw) hname) hkey hopened, by simp⟩
  | case5 l token read hraw hkey name named hname opened hopened ih =>
    rw [← (SameStack.of_readToken hname).config] at hkey
    exact ih (hopen (hread (hread h hraw) hname) hkey hopened) hsearch
  | case6 l token read hraw hkey =>
    obtain ⟨rfl, rfl⟩ := Prod.mk.inj hsearch
    exact ⟨hemit _ (hread h hraw), by simp⟩
  | case7 l read hraw parent rest hstack ih =>
    exact ih (hresume parent rest h (hread h hraw) hraw hstack) hsearch
  | case8 l read hraw hstack =>
    obtain ⟨rfl, rfl⟩ := Prod.mk.inj hsearch
    exact ⟨hemit _ (hdone h hraw), fun _ => ⟨l, read, h, hraw, hstack, rfl⟩⟩

/-- At the end of a source nothing changes when the lexer is told so. -/
theorem Consistent.setState_done (h : l.Consistent r) (hread : l.readToken = (.ok none, m)) :
    m.setState .done = m := by
  exact setState_of_state (((h.readToken hread).2 none rfl).2 rfl)

/-- A search keeps a lexer consistent. If there is no token, the last source has ended. -/
theorem consistent_search {x : Except LexError (Option String)} (h : l.Consistent r)
    (hsearch : l.search = (x, m)) :
    m.Consistent r ∧ (x = .ok none → m.state = .done ∧ m.token = "" ∧ m.suspended = []) := by
  obtain ⟨hm, hended⟩ := search_keeps (P := Consistent r) (fun h hread => (h.readToken hread).1)
    (fun h _ hopen => h.openInclusion hopen) (fun parent rest _ h _ _ => h.resume parent rest)
    (fun e h => h.notify e)
    (fun h hread => by rw [h.setState_done hread]; exact (h.readToken hread).1) h hsearch
  refine ⟨hm, fun hnone => ?_⟩
  obtain ⟨before, read, hbefore, hread, hstack, rfl⟩ := hended hnone
  have hresting := ((hbefore.readToken hread).2 none rfl).1
  exact ⟨rfl, by simpa using hresting.token, by simpa using hstack⟩

/-- Looking for the next token does so too. -/
theorem Consistent.nextToken {x : Except LexError (Option String)} (h : l.Consistent r)
    (hnext : l.nextToken = (x, m)) :
    m.Consistent r ∧ (x = .ok none → m.state = .done ∧ m.token = "" ∧ m.suspended = []) := by
  cases hwaiting : l.waiting with
  | nil =>
    rw [nextToken_of_no_waiting hwaiting] at hnext
    exact consistent_search h hnext
  | cons token rest =>
    rw [nextToken_of_waiting hwaiting] at hnext
    obtain ⟨rfl, rfl⟩ := Prod.mk.inj hnext
    exact ⟨⟨h.rules, h.held, h.pending, h.inRun, h.done⟩, by simp⟩

end Lexer

/-! ## Operations -/

/-- What can be asked of a lexer. -/
inductive Op where
  /-- The next token. -/
  | nextToken
  /-- The next token of the current source. -/
  | readToken
  /-- Whether there is another token. -/
  | hasNext
  /-- The next item of the iteration over the tokens. -/
  | iterate
  /-- To put a token back. -/
  | pushToken (token : String)
  /-- To suspend the current source and go on with another. -/
  | pushSource (stream : Stream) (origin : Option Path)
  /-- To close the current source and go on with the one suspended last. -/
  | popSource
  /-- To close all sources. -/
  | close

namespace Op

/-- What becomes of a lexer of which this is asked. -/
def perform (l : Lexer) : Op → Lexer
  | nextToken => l.nextToken.2
  | readToken => l.readToken.2
  | hasNext => l.hasNext.2
  | iterate => l.iterate.2
  | pushToken token => l.pushToken token
  | pushSource stream origin => l.pushSource stream origin
  | popSource => l.popSource.2
  | close => l.close

end Op

/-- What an operation returns. -/
inductive Answer where
  /-- A token, or none, or why there is no token. -/
  | token (result : Except LexError (Option String))
  /-- Whether there is another token, or why that cannot be told. -/
  | more (result : Except LexError Bool)
  /-- An item of the iteration, which may be an error, or its end. -/
  | item (result : Option (Except LexError String))
  /-- Nothing, or why no source could be closed. -/
  | closed (result : Except LexError Unit)
  /-- Nothing. -/
  | nothing

/-- The error that was returned, if any. -/
def Answer.error? : Answer → Option LexError
  | token (.error e) | more (.error e) | item (some (.error e)) | closed (.error e) => some e
  | _ => none

/-- What a lexer of which this is asked returns. -/
def Op.answer (l : Lexer) : Op → Answer
  | nextToken => .token l.nextToken.1
  | readToken => .token l.readToken.1
  | hasNext => .more l.hasNext.1
  | iterate => .item l.iterate.1
  | popSource => .closed l.popSource.1
  | pushToken _ | pushSource _ _ | close => .nothing

namespace Lexer

/-- A lexer of which all this has been asked, one after another. -/
def after (l : Lexer) (ops : List Op) : Lexer := ops.foldl Op.perform l

/-- A lexer that some operations lead to, whoever listens, and however much may be included. -/
inductive Reached : Lexer → Prop where
  | made (config : Config) (resolver : Resolver) (source : Source) (observer : Observer)
      (allowance : Nat) : Reached { ofSource config resolver source with observer, allowance }
  | perform {l : Lexer} (h : Reached l) (op : Op) : Reached (op.perform l)

/-- Further operations lead to a lexer that is reached. -/
theorem Reached.after {l : Lexer} (h : l.Reached) (ops : List Op) : (l.after ops).Reached := by
  induction ops generalizing l with
  | nil => exact h
  | cons op ops ih => exact ih (h.perform op)

/-- A lexer at the beginning of a source is reached without any operation. -/
theorem reached_ofSource (config : Config) (resolver : Resolver) (source : Source) :
    (ofSource config resolver source).Reached :=
  .made config resolver source _ _

/-- Asking whether there is another token reads it, and puts it back if there is. -/
theorem hasNext_cases (l : Lexer) :
    l.hasNext.2 = l.nextToken.2 ∨ ∃ token, l.hasNext.2 = l.nextToken.2.pushToken token := by
  unfold hasNext
  split <;> rename_i hnext <;> rw [hnext]
  · exact .inl rfl
  · exact .inl rfl
  · exact .inr ⟨_, rfl⟩

/-- An iteration reads the next token, unless it has failed. An error ends it. -/
theorem iterate_cases (l : Lexer) :
    l.iterate.2 = l ∨ l.iterate.2 = l.nextToken.2 ∨
      l.iterate.2 = { l.nextToken.2 with halted := true } := by
  unfold iterate
  split
  · exact .inl rfl
  · split <;> rename_i hnext <;> rw [hnext]
    · exact .inr (.inr rfl)
    · exact .inr (.inl rfl)
    · exact .inr (.inl rfl)

variable {r : Rules} {l : Lexer}

/-- Every operation keeps a lexer consistent. -/
theorem Consistent.perform (h : l.Consistent r) (op : Op) : (op.perform l).Consistent r := by
  cases op with
  | nextToken => exact (h.nextToken rfl).1
  | readToken => exact (h.readToken rfl).1
  | hasNext =>
    have hm := (h.nextToken rfl).1
    show l.hasNext.2.Consistent r
    rcases l.hasNext_cases with hsame | ⟨token, hsame⟩ <;> rw [hsame]
    · exact hm
    · exact ⟨hm.rules, hm.held, hm.pending, hm.inRun, hm.done⟩
  | iterate =>
    have hm := (h.nextToken rfl).1
    show l.iterate.2.Consistent r
    rcases l.iterate_cases with hsame | hsame | hsame <;> rw [hsame]
    · exact h
    · exact hm
    · exact ⟨hm.rules, hm.held, hm.pending, hm.inRun, hm.done⟩
  | pushToken token => exact ⟨h.rules, h.held, h.pending, h.inRun, h.done⟩
  | pushSource stream origin => exact h.pushSource stream origin
  | popSource =>
    show l.popSource.2.Consistent r
    unfold popSource
    split
    · exact h
    · exact h.resume _ _
  | close =>
    show l.close.Consistent r
    exact ⟨h.rules, by simp [close], by simp [close], by simp [close, Rules.InRun], fun _ => ⟨rfl, rfl⟩⟩

/-- Every lexer in use is consistent. -/
theorem Reached.consistent (h : l.Reached) : l.Consistent l.rules := by
  have hsome : ∃ r, l.Consistent r := by
    induction h with
    | made config resolver source observer allowance =>
      exact ⟨.ofConfig config, rfl, by simp [ofSource], by simp [ofSource], by simp [ofSource, Rules.InRun],
        by simp [ofSource]⟩
    | perform h op ih =>
      obtain ⟨r, hr⟩ := ih
      exact ⟨r, hr.perform op⟩
  obtain ⟨r, hr⟩ := hsome
  rw [hr.rules]
  exact hr

end Lexer
end ShellWords
