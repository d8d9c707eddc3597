import ShellWords.Proofs.Trace.Replay

/-!
# How much a log shows

A log writes down some of the events that its lexer tells, and its level says which (`Event.isShown`). What a lexer
tells does not depend on who listens. `Lexer.heardBy` gives a lexer another listener, and other options about
listening; whatever is done with it then has the same outcome, and there is one list of events that every listener
hears meanwhile. That is shown for reading a raw token (`utters_run`), for a turn of a search (`uttersTurn_turn`),
and for any operations (`exists_after_heardBy`). So all logs of one course are made of the same events, and a log is
one of a higher level with some records left out (`log_filters_trace`).
-/

namespace ShellWords

/-! ## What a level shows -/

namespace Event

/-- Whether the event is about a source, or about a token that is returned or put back. -/
def isOfSourcesOrTokens : Event → Bool
  | tokenEmitted _ | tokenPushed _ | sourcePushed _ _ | sourcePopped _ _ => true
  | _ => false

/-- Whether the event is about a raw token or a move. -/
def isOfAutomaton : Event → Bool
  | rawToken _ | stateChanged _ _ => true
  | _ => false

/-- Whether a log of this level shows the event: none at level 0, those about sources and tokens from level 1 on,
those about raw tokens and moves from level 2 on, and from level 3 on all. -/
def isShown (level : UInt8) (e : Event) : Bool :=
  if level = 0 then false
  else if level = 1 then e.isOfSourcesOrTokens
  else if level = 2 then e.isOfSourcesOrTokens || e.isOfAutomaton
  else true

/-- These are the levels from which on the events are shown. -/
theorem detail_le_iff (level : UInt8) (e : Event) : e.detail ≤ level.toNat ↔ e.isShown level = true := by
  have hne (n : UInt8) (h : level ≠ n) : level.toNat ≠ n.toNat := fun heq => h (UInt8.toNat_inj.1 heq)
  unfold isShown
  split_ifs with hzero hone htwo
  · subst hzero
    cases e <;> simp [detail]
  · subst hone
    cases e <;> simp [detail, isOfSourcesOrTokens]
  · subst htwo
    cases e <;> simp [detail, isOfSourcesOrTokens, isOfAutomaton]
  · have h0 : level.toNat ≠ 0 := hne 0 hzero
    have h1 : level.toNat ≠ 1 := hne 1 hone
    have h2 : level.toNat ≠ 2 := hne 2 htwo
    cases e <;> simp only [detail, iff_true] <;> omega

/-- What a level shows, a higher one shows. -/
theorem isShown_of_le {level more : UInt8} {e : Event} (hle : level ≤ more) (h : e.isShown level = true) :
    e.isShown more = true := by
  rw [← detail_le_iff] at h ⊢
  exact Nat.le_trans h (UInt8.le_iff_toNat_le.1 hle)

/-- From level 3 on everything is shown. -/
theorem isShown_of_three_le {level : UInt8} (hle : 3 ≤ level) (e : Event) : e.isShown level = true :=
  isShown_of_le hle rfl

/-- The records that a log of this level makes of these events. -/
def recorded (tag : String) (level : UInt8) (es : List Event) : List Record :=
  (es.filter (isShown level)).map (record tag)

/-- They are the records that a logger of this level keeps. -/
theorem filterMap_record? (tag : String) (level : UInt8) (es : List Event) :
    es.filterMap (record? tag level) = recorded tag level es := by
  unfold recorded
  induction es with
  | nil => rfl
  | cons e es ih =>
    by_cases hshown : e.isShown level = true
    · have hrecord : e.record? tag level = some (e.record tag) := if_pos ((detail_le_iff level e).2 hshown)
      rw [List.filterMap_cons_some hrecord, List.filter_cons_of_pos hshown, List.map_cons, ih]
    · have hnone : e.record? tag level = none := if_neg (mt (detail_le_iff level e).1 hshown)
      rw [List.filterMap_cons_none hnone, List.filter_cons_of_neg hshown, ih]

end Event

/-- A log goes on with the records of what it is told, behind those that it has. -/
theorem Observer.notify_logging (tag : String) (level : UInt8) (rs : Array Record) (es : List Event) :
    es.foldl notify (logging tag level rs) =
      logging tag level (rs ++ (es.filterMap (Event.record? tag level)).toArray) := by
  induction es generalizing rs with
  | nil => simp
  | cons e es ih =>
    rw [List.foldl_cons, notify]
    cases hrecord : e.record? tag level with
    | none => rw [ih, List.filterMap_cons_none hrecord]
    | some r => rw [ih, List.filterMap_cons_some hrecord]; simp

/-- A logger that has written nothing before keeps the records of its level. -/
theorem Observer.records_logger (tag : String) (level : UInt8) (es : List Event) :
    (es.foldl notify (logger tag level)).records = Event.recorded tag level es := by
  rw [logger, notify_logging, ← Event.filterMap_record?]
  simp [records]

/-- Where nobody listens, nothing is kept. -/
theorem Observer.notify_silent (es : List Event) : es.foldl notify silent = silent := by
  induction es with
  | nil => rfl
  | cons e es ih => exact ih

/-! ## Another listener -/

/-- The turn with another lexer after it. -/
def Turn.map (f : Lexer → Lexer) : Turn → Turn
  | .failed e after => .failed e (f after)
  | .ended after => .ended (f after)
  | .handed token after => .handed token (f after)
  | .passed after => .passed (f after)

namespace Lexer

/-- The lexer with this listener, and with these options about listening. -/
def heardBy (l : Lexer) (o : Observer) (level : UInt8) (tag : String) : Lexer :=
  { l with config := { l.config with debugLevel := level, tag }, observer := o }

/-- What becomes of a listener that hears these events. -/
abbrev hearing (o : Observer) (es : List Event) : Observer := es.foldl Observer.notify o

/-- Whoever listens, work on the lexer has this outcome, and there are events that the listener hears meanwhile. -/
def Utters {α : Type} (work : Lexer → α × Lexer) (l : Lexer) (outcome : α × Lexer) : Prop :=
  ∃ es, ∀ o level tag,
    work (l.heardBy o level tag) = (outcome.1, outcome.2.heardBy (hearing o es) level tag)

/-- What is heard in two parts is heard one after the other. -/
theorem hearing_append (o : Observer) (es fs : List Event) : hearing o (es ++ fs) = hearing (hearing o es) fs :=
  List.foldl_append

variable {l m taken skipped read : Lexer}

/-- What a move to this state tells. -/
def toldBy (l : Lexer) (s : State) : List Event := if l.state = s then [] else [.stateChanged l.state s]

section
variable (o : Observer) (level : UInt8) (tag : String)

/-- Another listener does not change the suspended sources. -/
@[simp] theorem heardBy_suspended : (l.heardBy o level tag).suspended = l.suspended := rfl

/-- Another listener does not change the tokens that were put back. -/
@[simp] theorem heardBy_waiting : (l.heardBy o level tag).waiting = l.waiting := rfl

/-- Another listener does not change the resolver. -/
@[simp] theorem heardBy_resolver : (l.heardBy o level tag).resolver = l.resolver := rfl

/-- Another listener does not change the file. -/
@[simp] theorem heardBy_origin : (l.heardBy o level tag).origin = l.origin := rfl

/-- Another listener does not change the allowance. -/
@[simp] theorem heardBy_allowance : (l.heardBy o level tag).allowance = l.allowance := rfl

/-- Another listener does not change whether the iteration has ended. -/
@[simp] theorem heardBy_halted : (l.heardBy o level tag).halted = l.halted := rfl

/-- Taking a character is the same whoever listens. -/
theorem takeChar_heardBy {x : Except ReadError (Option Char)} (h : l.takeChar = (x, taken)) :
    (l.heardBy o level tag).takeChar = (x, taken.heardBy o level tag) := by
  unfold takeChar at h ⊢
  cases hpending : l.pending with
  | nil =>
    rw [hpending] at h
    obtain ⟨rfl, rfl⟩ := Prod.mk.inj h
    rw [show (l.heardBy o level tag).pending = [] from hpending]
    rfl
  | cons c rest =>
    rw [hpending] at h
    obtain ⟨rfl, rfl⟩ := Prod.mk.inj h
    rw [show (l.heardBy o level tag).pending = c :: rest from hpending]
    rfl

/-- So is discarding the rest of a line. -/
theorem skipFor_heardBy {move : Move} {u : Except ReadError Unit} (h : l.skipFor move = (u, skipped)) :
    (l.heardBy o level tag).skipFor move = (u, skipped.heardBy o level tag) := by
  unfold skipFor at h ⊢
  split_ifs at h ⊢
  · obtain ⟨rfl, rfl⟩ := Prod.mk.inj h
    rfl
  · obtain ⟨rfl, rfl⟩ := Prod.mk.inj h
    rfl

/-- The line may be skipped behind an event. -/
theorem notify_skipFor_heardBy {e : Event} {move : Move} {u : Except ReadError Unit}
    (h : (l.notify e).skipFor move = (u, skipped)) :
    ((l.heardBy o level tag).notify e).skipFor move = (u, skipped.heardBy (o.notify e) level tag) :=
  skipFor_heardBy (l := l.notify e) (o.notify e) level tag h

/-- The end of a token, as a run reports it. -/
theorem finish_heardBy {r : Rules} {quoted : Bool} {result : Option String} (h : finish r quoted l = (result, m)) :
    ((.ok (finish r quoted (l.heardBy o level tag)).1 : Except LexError (Option String)),
      (finish r quoted (l.heardBy o level tag)).2) =
        (.ok result, m.heardBy (o.notify (.rawToken result)) level tag) := by
  unfold finish at h ⊢
  obtain ⟨rfl, rfl⟩ := Prod.mk.inj h
  rfl

variable (l)

/-- The automaton moves in the same way whoever listens, and every listener is told the same. -/
theorem setState_heardBy (s : State) :
    (l.heardBy o level tag).setState s = (l.setState s).heardBy (hearing o (l.toldBy s)) level tag := by
  unfold setState toldBy
  by_cases hstate : l.state = s
  · rw [if_pos hstate, if_pos hstate, if_pos (show (l.heardBy o level tag).state = s from hstate)]
    rfl
  · rw [if_neg hstate, if_neg hstate, if_neg (show ¬(l.heardBy o level tag).state = s from hstate)]
    rfl

/-- So does a lexer that carries out a move. -/
theorem apply_heardBy (move : Move) (c : Char) :
    (l.heardBy o level tag).apply move c =
      (l.apply move c).heardBy (hearing o (l.toldBy move.state)) level tag := by
  exact setState_heardBy { l with
    token := move.token
    pending := if move.held = .char then c :: l.pending else l.pending
    waiting := if move.held = .token then String.singleton c :: l.waiting else l.waiting } o level tag move.state

/-- So does one that goes on with another source. -/
theorem switch_heardBy (source : Source) (suspended : List Source) (e : Event) :
    (l.heardBy o level tag).switch source suspended e =
      (l.switch source suspended e).heardBy (hearing o (e :: l.toldBy .start)) level tag := by
  exact setState_heardBy (notify { l with source, suspended } e) (o.notify e) level tag .start

end

/-! ### Reading tokens -/

/-- Reading a raw token tells every listener the same. -/
theorem utters_run {r : Rules} {quoted : Bool} {x : Except LexError (Option String)}
    (h : run r l quoted = (x, m)) : Utters (fun l => run r l quoted) l (x, m) := by
  fun_induction Lexer.run r l quoted with
  | case1 l quoted hdone result m' hfin =>
    obtain ⟨rfl, rfl⟩ := Prod.mk.inj h
    refine ⟨[.rawToken result], fun o level tag => ?_⟩
    exact (run_of_done (l := l.heardBy o level tag) hdone).trans (finish_heardBy o level tag hfin)
  | case2 l quoted hdone e taken htake =>
    obtain ⟨rfl, rfl⟩ := Prod.mk.inj h
    refine ⟨[], fun o level tag => ?_⟩
    exact run_of_takeChar_error (l := l.heardBy o level tag) hdone (takeChar_heardBy o level tag htake)
  | case3 l quoted hdone taken htake told hopen =>
    obtain ⟨rfl, rfl⟩ := Prod.mk.inj h
    refine ⟨[.charRead l.state none], fun o level tag => ?_⟩
    exact run_of_end_open (l := l.heardBy o level tag) (takeChar_heardBy o level tag htake) hopen
  | case4 l quoted hdone taken htake told hopen result m' hfin =>
    obtain ⟨rfl, rfl⟩ := Prod.mk.inj h
    refine ⟨.charRead l.state none :: (told.toldBy .done ++ [.rawToken result]), fun o level tag => ?_⟩
    have hclosed : (l.heardBy o level tag).state.isOpen = false := Bool.eq_false_iff.2 hopen
    have hfin' := finish_heardBy (hearing (o.notify (.charRead l.state none)) (told.toldBy .done)) level tag hfin
    rw [← setState_heardBy] at hfin'
    have hend : run r (l.heardBy o level tag) quoted = _ :=
      run_of_end (l := l.heardBy o level tag) hdone (takeChar_heardBy o level tag htake) hclosed
    refine hend.trans (hfin'.trans ?_)
    simp [hearing]
  | case5 l quoted hdone c taken htake move e skipped hskip =>
    obtain ⟨rfl, rfl⟩ := Prod.mk.inj h
    refine ⟨[.charRead l.state (some c)], fun o level tag => ?_⟩
    exact run_of_skip_error (l := l.heardBy o level tag) hdone (takeChar_heardBy o level tag htake)
      (notify_skipFor_heardBy o level tag hskip)
  | case6 l quoted hdone c taken htake move skipped hskip next hcomplete result m' hfin =>
    obtain ⟨rfl, rfl⟩ := Prod.mk.inj h
    refine ⟨.charRead l.state (some c) :: (skipped.toldBy move.state ++ [.rawToken result]), fun o level tag => ?_⟩
    have hmove := run_of_move (l := l.heardBy o level tag) hdone (takeChar_heardBy o level tag htake)
      (notify_skipFor_heardBy o level tag hskip)
    have hfin' := finish_heardBy (hearing (o.notify (.charRead l.state (some c))) (skipped.toldBy move.state))
      level tag hfin
    rw [← apply_heardBy] at hfin'
    refine (hmove.trans (if_pos hcomplete)).trans (hfin'.trans ?_)
    simp [hearing]
  | case7 l quoted hdone c taken htake move skipped hskip next hcomplete ih =>
    obtain ⟨es, hes⟩ := ih h
    refine ⟨.charRead l.state (some c) :: (skipped.toldBy move.state ++ es), fun o level tag => ?_⟩
    have hmove := run_of_move (l := l.heardBy o level tag) hdone (takeChar_heardBy o level tag htake)
      (notify_skipFor_heardBy o level tag hskip)
    have hrest := hes (hearing (o.notify (.charRead l.state (some c))) (skipped.toldBy move.state)) level tag
    rw [← apply_heardBy] at hrest
    refine (hmove.trans (if_neg hcomplete)).trans (hrest.trans ?_)
    simp [hearing]

/-- So does a call for a raw token. -/
theorem utters_readToken {x : Except LexError (Option String)} (h : l.readToken = (x, m)) :
    Utters readToken l (x, m) := utters_run h

/-! ### Turns of a search -/

/-- A lexer suspends its source in the same way whoever listens. -/
theorem pushSource_heardBy (l : Lexer) (stream : Stream) (origin : Option Path) (o : Observer) (level : UInt8)
    (tag : String) :
    (l.heardBy o level tag).pushSource stream origin =
      (l.pushSource stream origin).heardBy
        (hearing o (.sourcePushed origin (l.depth + 1) :: l.toldBy .start)) level tag := by
  rw [pushSource_eq_switch, pushSource_eq_switch]
  exact switch_heardBy l o level tag _ _ _

/-- And it goes back to another one in the same way. -/
theorem resume_heardBy (l : Lexer) (parent : Source) (rest : List Source) (o : Observer) (level : UInt8)
    (tag : String) :
    (l.heardBy o level tag).resume parent rest =
      (l.resume parent rest).heardBy
        (hearing o (.sourcePopped l.origin rest.length :: l.toldBy .start)) level tag := by
  rw [resume_eq_switch, resume_eq_switch]
  exact switch_heardBy l o level tag _ _ _

/-- What a name includes does not depend on who listens. -/
theorem utters_openInclusion {name : String} {x : Except LexError Unit} (h : l.openInclusion name = (x, m)) :
    Utters (fun l => l.openInclusion name) l (x, m) := by
  unfold openInclusion at h
  cases hresolve : l.resolver.answer name l.origin with
  | error e =>
    rw [hresolve] at h
    obtain ⟨rfl, rfl⟩ := Prod.mk.inj h
    refine ⟨[], fun o level tag => ?_⟩
    simp only [openInclusion, heardBy_resolver, heardBy_origin, hresolve]
    rfl
  | ok inclusion =>
    rw [hresolve] at h
    cases hleft : l.allowance with
    | zero =>
      simp only [hleft] at h
      obtain ⟨rfl, rfl⟩ := Prod.mk.inj h
      refine ⟨[], fun o level tag => ?_⟩
      simp only [openInclusion, heardBy_resolver, heardBy_origin, hresolve, heardBy_allowance, hleft]
      rfl
    | succ left =>
      simp only [hleft] at h
      obtain ⟨rfl, rfl⟩ := Prod.mk.inj h
      refine ⟨.sourcePushed inclusion.origin (l.depth + 1) :: l.toldBy .start, fun o level tag => ?_⟩
      simp only [openInclusion, heardBy_resolver, heardBy_origin, hresolve, heardBy_allowance, hleft]
      exact congrArg (Prod.mk _) (pushSource_heardBy ((l.asking name).allowing left) _ _ o level tag)

/-- Whoever listens, the lexer takes the same turn, and there are events that the listener hears meanwhile. -/
def UttersTurn (work : Lexer → Turn) (l : Lexer) : Prop :=
  ∃ es, ∀ o level tag, work (l.heardBy o level tag) = (work l).map fun m => m.heardBy (hearing o es) level tag

/-- Whoever listens, the same source is left. -/
theorem uttersTurn_leave (l : Lexer) : UttersTurn leave l := by
  unfold UttersTurn leave
  cases hstack : l.suspended with
  | cons parent rest =>
    refine ⟨.sourcePopped l.origin rest.length :: l.toldBy .start, fun o level tag => ?_⟩
    rw [heardBy_suspended, hstack]
    exact congrArg Turn.passed (resume_heardBy l parent rest o level tag)
  | nil =>
    refine ⟨l.toldBy .done ++ [.tokenEmitted none], fun o level tag => ?_⟩
    rw [heardBy_suspended, hstack, setState_heardBy]
    simp [Turn.map, hearing]
    rfl

/-- The same follows the keyword. -/
theorem uttersTurn_follow (l : Lexer) : UttersTurn follow l := by
  rcases hname : l.readToken with ⟨e | _ | name, named⟩
  · obtain ⟨es, hes⟩ := utters_readToken hname
    refine ⟨es, fun o level tag => ?_⟩
    rw [follow, follow, hes, hname]
    rfl
  · obtain ⟨es, hes⟩ := utters_readToken hname
    refine ⟨es, fun o level tag => ?_⟩
    rw [follow, follow, hes, hname]
    rfl
  · obtain ⟨es, hes⟩ := utters_readToken hname
    rcases hopen : named.openInclusion name with ⟨x, opened⟩
    obtain ⟨fs, hfs⟩ := utters_openInclusion hopen
    refine ⟨es ++ fs, fun o level tag => ?_⟩
    have hopened := hfs (hearing o es) level tag
    dsimp only at hopened
    rw [follow, follow, hes, hname]
    dsimp only
    rw [hopened, hopen]
    cases x <;> simp [Turn.map, hearing]

/-- So the turn is the same. -/
theorem uttersTurn_turn (l : Lexer) : UttersTurn turn l := by
  rcases hraw : l.readToken with ⟨e | _ | token, read⟩
  · obtain ⟨es, hes⟩ := utters_readToken hraw
    refine ⟨es, fun o level tag => ?_⟩
    rw [turn_of_error hraw, turn_of_error (hes o level tag)]
    rfl
  · obtain ⟨es, hes⟩ := utters_readToken hraw
    obtain ⟨fs, hfs⟩ := uttersTurn_leave read
    refine ⟨es ++ fs, fun o level tag => ?_⟩
    rw [turn_of_none hraw, turn_of_none (hes o level tag)]
    simp [hfs, hearing]
  · obtain ⟨es, hes⟩ := utters_readToken hraw
    by_cases hkey : read.config.sourceKeyword = some token
    · obtain ⟨fs, hfs⟩ := uttersTurn_follow read
      refine ⟨es ++ fs, fun o level tag => ?_⟩
      rw [turn_of_keyword hraw hkey, turn_of_keyword (hes o level tag) hkey]
      simp [hfs, hearing]
    · refine ⟨es ++ [.tokenEmitted (some token)], fun o level tag => ?_⟩
      rw [turn_of_token hraw hkey, turn_of_token (hes o level tag) hkey]
      simp [Turn.map, hearing]
      rfl

/-- A search tells every listener the same, turn by turn. -/
theorem utters_search (l : Lexer) : Utters search l l.search := by
  induction l using hasLess_induction with
  | step l ih =>
    have hspends := spends_turn l
    obtain ⟨es, hes⟩ := uttersTurn_turn l
    have hsearch := search_eq_turn l
    have hheard (o : Observer) (level : UInt8) (tag : String) := search_eq_turn (l.heardBy o level tag)
    simp only [hes] at hheard
    generalize l.turn = t at *
    cases t with
    | failed e after => exact ⟨es, fun o level tag => by rw [hheard, hsearch]; rfl⟩
    | ended after => exact ⟨es, fun o level tag => by rw [hheard, hsearch]; rfl⟩
    | handed token after => exact ⟨es, fun o level tag => by rw [hheard, hsearch]; rfl⟩
    | passed after =>
      obtain ⟨fs, hfs⟩ := ih after hspends
      refine ⟨es ++ fs, fun o level tag => ?_⟩
      rw [hheard, hsearch, hearing_append]
      exact hfs _ level tag

/-! ### Operations -/

/-- And so is a call for the next token. -/
theorem utters_nextToken (l : Lexer) : Utters nextToken l l.nextToken := by
  cases hwaiting : l.waiting with
  | nil =>
    obtain ⟨es, hes⟩ := l.utters_search
    refine ⟨es, fun o level tag => ?_⟩
    rw [nextToken_of_no_waiting hwaiting, nextToken_of_no_waiting ((heardBy_waiting o level tag).trans hwaiting), hes]
  | cons token rest =>
    refine ⟨[.tokenEmitted (some token)], fun o level tag => ?_⟩
    rw [nextToken_of_waiting hwaiting, nextToken_of_waiting ((heardBy_waiting o level tag).trans hwaiting)]
    rfl

/-- A token is put back in the same way whoever listens. -/
theorem pushToken_heardBy (l : Lexer) (token : String) (o : Observer) (level : UInt8) (tag : String) :
    (l.heardBy o level tag).pushToken token =
      (l.pushToken token).heardBy (hearing o [.tokenPushed token]) level tag := rfl

/-- Whatever is asked of a lexer, it tells every listener the same, and does the same whoever listens. -/
theorem exists_perform_heardBy (l : Lexer) (op : Op) :
    ∃ es, ∀ o level tag,
      op.perform (l.heardBy o level tag) = (op.perform l).heardBy (hearing o es) level tag := by
  obtain ⟨es, hnext⟩ := l.utters_nextToken
  cases op with
  | nextToken => exact ⟨es, fun o level tag => congrArg Prod.snd (hnext o level tag)⟩
  | readToken =>
    obtain ⟨es, hes⟩ := utters_readToken (l := l) rfl
    exact ⟨es, fun o level tag => congrArg Prod.snd (hes o level tag)⟩
  | hasNext =>
    rcases hl : l.nextToken with ⟨e | _ | token, m⟩
    · refine ⟨es, fun o level tag => ?_⟩
      have := hnext o level tag
      simp only [Op.perform, Lexer.hasNext, hnext, hl]
    · refine ⟨es, fun o level tag => ?_⟩
      simp only [Op.perform, Lexer.hasNext, hnext, hl]
    · refine ⟨es ++ [.tokenPushed token], fun o level tag => ?_⟩
      simp only [Op.perform, Lexer.hasNext, hnext, hl, hearing_append]
      rfl
  | iterate =>
    cases hhalted : l.halted with
    | true =>
      refine ⟨[], fun o level tag => ?_⟩
      simp only [Op.perform, Lexer.iterate, heardBy_halted, hhalted]
      rfl
    | false =>
      refine ⟨es, fun o level tag => ?_⟩
      simp only [Op.perform, Lexer.iterate, heardBy_halted, hhalted, hnext]
      rcases l.nextToken with ⟨e | _ | token, m⟩ <;> rfl
  | pushToken token => exact ⟨_, pushToken_heardBy l token⟩
  | pushSource stream origin => exact ⟨_, pushSource_heardBy l stream origin⟩
  | popSource =>
    cases hstack : l.suspended with
    | nil =>
      refine ⟨[], fun o level tag => ?_⟩
      simp only [Op.perform, Lexer.popSource, heardBy_suspended, hstack]
      rfl
    | cons parent rest =>
      refine ⟨.sourcePopped l.origin rest.length :: l.toldBy .start, fun o level tag => ?_⟩
      simp only [Op.perform, Lexer.popSource, heardBy_suspended, hstack]
      exact resume_heardBy l parent rest o level tag
  | close => exact ⟨[], fun o level tag => rfl⟩

/-- So do many operations. -/
theorem exists_after_heardBy (l : Lexer) (ops : List Op) :
    ∃ es, ∀ o level tag, (l.heardBy o level tag).after ops = (l.after ops).heardBy (hearing o es) level tag := by
  induction ops generalizing l with
  | nil => exact ⟨[], fun o level tag => rfl⟩
  | cons op ops ih =>
    obtain ⟨es, hes⟩ := l.exists_perform_heardBy op
    obtain ⟨fs, hfs⟩ := ih (op.perform l)
    refine ⟨es ++ fs, fun o level tag => ?_⟩
    show (op.perform (l.heardBy o level tag)).after ops = ((op.perform l).after ops).heardBy _ level tag
    rw [hes, hfs, hearing_append]

/-! ## Logs -/

/-- The log of this tag and level that is written while all this is asked of a lexer, from the beginning of its
source on. -/
def logged (config : Config) (resolver : Resolver) (source : Source) (allowance : Nat) (ops : List Op)
    (tag : String) (level : UInt8) : List Record :=
  ({ ofSource config resolver source with observer := .logger tag level, allowance }.after ops).observer.records

/-- The log that is written if the options ask for it and nobody else listens. -/
def loggedByOptions (config : Config) (resolver : Resolver) (source : Source) (allowance : Nat) (ops : List Op)
    (tag : String) (level : UInt8) : List Record :=
  ({ ofSource { config with debugLevel := level, tag } resolver source with allowance }.after ops).observer.records

end Lexer

/-- Of these events, the log of every level shows those of its level, and only those. -/
structure Filters (es : List Event) (tag : String) (log : UInt8 → List Record) : Prop where
  /-- From level 3 on there is a record of every event. -/
  whole : ∀ level, 3 ≤ level → log level = es.map (Event.record tag)
  /-- Below, the same records are there of the events that the level shows, and no others. -/
  part : ∀ level, log level = (es.filter (Event.isShown level)).map (Event.record tag)
  /-- So a log is one of a higher level with some records left out. -/
  sublist : ∀ level more, level ≤ more → (log level).Sublist (log more)
  /-- A logger that is set to the level lets every record pass. -/
  admitted : ∀ level, ∀ r ∈ log level, (LevelFilter.ofLevel level).admits r.severity = true

/-- The records that a level shows are such a log. -/
theorem filters_recorded (tag : String) (es : List Event) :
    Filters es tag fun level => Event.recorded tag level es where
  whole level hle := by
    have hall : es.filter (Event.isShown level) = es :=
      List.filter_eq_self.2 fun e _ => Event.isShown_of_three_le hle e
    rw [Event.recorded, hall]
  part level := rfl
  sublist level more hle := by
    have hfilter : (es.filter (Event.isShown more)).filter (Event.isShown level) =
        es.filter (Event.isShown level) := by
      rw [List.filter_filter]
      refine List.filter_congr fun e _ => ?_
      cases hshown : e.isShown level with
      | false => rfl
      | true => exact Event.isShown_of_le hle hshown
    rw [Event.recorded, ← hfilter]
    exact List.filter_sublist.map _
  admitted level r hr := by
    rw [← Event.filterMap_record?, List.mem_filterMap] at hr
    obtain ⟨e, -, hrecord⟩ := hr
    exact LevelFilter.admits_record? hrecord

namespace Lexer

/-- All logs of what is asked of a lexer show the events that a recorder hears meanwhile, each log those of its
level, whether a logger was attached or the options ask for the log. -/
theorem log_filters_trace (config : Config) (resolver : Resolver) (source : Source) (allowance : Nat)
    (ops : List Op) (tag : String) :
    Filters ((recorded config resolver source allowance).after ops).observer.events tag
      (logged config resolver source allowance ops tag) ∧
    loggedByOptions config resolver source allowance ops tag =
      logged config resolver source allowance ops tag := by
  let l : Lexer := { ofSource config resolver source with allowance }
  obtain ⟨es, hes⟩ := l.exists_after_heardBy ops
  -- Whoever listens, and whatever the options say about listening, these events are heard.
  have hheard (o : Observer) (level : UInt8) (tag : String) :
      ((l.heardBy o level tag).after ops).observer = hearing o es := by rw [hes]; rfl
  have htrace : ((recorded config resolver source allowance).after ops).observer.events = es := by
    have hrecorder := hheard .recorder config.debugLevel config.tag
    show ((l.heardBy .recorder config.debugLevel config.tag).after ops).observer.events = es
    rw [hrecorder]
    show (es.foldl Observer.notify (.recording #[])).events = es
    rw [Observer.notify_recording]
    simp [Observer.events]
  have hlog : logged config resolver source allowance ops tag = fun level => Event.recorded tag level es := by
    funext level
    show ((l.heardBy (.logger tag level) config.debugLevel config.tag).after ops).observer.records = _
    rw [hheard, Observer.records_logger]
  have hoptions : loggedByOptions config resolver source allowance ops tag =
      fun level => Event.recorded tag level es := by
    funext level
    let observer := defaultObserver { config with debugLevel := level, tag }
    show ((l.heardBy observer level tag).after ops).observer.records = _
    rw [hheard]
    by_cases hzero : level = 0
    · have hsilent : observer = .silent := if_pos hzero
      rw [hsilent, hearing, Observer.notify_silent, hzero]
      simp [Observer.records, Event.recorded, Event.isShown]
    · have hlogger : observer = .logger tag level := if_neg hzero
      rw [hlogger, Observer.records_logger]
  rw [htrace, hlog, hoptions]
  exact ⟨filters_recorded tag es, rfl⟩

/-- A word of one character is one record at level 1. At level 2 there are also the raw token and the moves, and at
level 3 the character and the end of the source. -/
theorem log_filters_trace_word :
    logged {} .refusing ⟨.ofText "a", none, 1⟩ 0 [.nextToken] "shlex" 0 = [] ∧
    logged {} .refusing ⟨.ofText "a", none, 1⟩ 0 [.nextToken] "shlex" 1 =
      [⟨.debug, "shlex: token=\"a\""⟩] ∧
    logged {} .refusing ⟨.ofText "a", none, 1⟩ 0 [.nextToken] "shlex" 2 =
      [⟨.trace, "shlex: start -> word"⟩, ⟨.trace, "shlex: word -> done"⟩, ⟨.debug, "shlex: raw token=\"a\""⟩,
        ⟨.debug, "shlex: token=\"a\""⟩] ∧
    (logged {} .refusing ⟨.ofText "a", none, 1⟩ 0 [.nextToken] "shlex" 3).length = 6 ∧
    (logged {} .refusing ⟨.ofText "a", none, 1⟩ 0 [.nextToken] "shlex" 2).Sublist
      (logged {} .refusing ⟨.ofText "a", none, 1⟩ 0 [.nextToken] "shlex" 3) := by
  have hnext : (nextTokenWithin 10 (recorded {} .refusing ⟨.ofText "a", none, 1⟩ 0)).map
      (fun x => x.2.observer.events) =
        some [.charRead .start (some 'a'), .stateChanged .start .word, .charRead .word none,
          .stateChanged .word .done, .rawToken (some "a"), .tokenEmitted (some "a")] := by decide +kernel
  obtain ⟨x, hx, htrace⟩ := Option.map_eq_some_iff.1 hnext
  rw [← nextToken_of_nextTokenWithin hx] at htrace
  have hfilters := (log_filters_trace {} .refusing ⟨.ofText "a", none, 1⟩ 0 [.nextToken] "shlex").1
  rw [show ((recorded {} .refusing ⟨.ofText "a", none, 1⟩ 0).after [.nextToken]).observer.events = _ from htrace]
    at hfilters
  have hsublist := hfilters.sublist 2 3 (by decide)
  refine ⟨?_, ?_, ?_, ?_, hsublist⟩
  · rw [hfilters.part]
    decide
  · rw [hfilters.part]
    decide
  · rw [hfilters.part]
    decide
  · rw [hfilters.whole 3 (by decide)]
    rfl

end Lexer
end ShellWords
