import ShellWords.Proofs.Inclusion.Within
import ShellWords.Proofs.Lexing.Operations

/-!
# Replaying a trace

The events that a lexer tells are enough to follow it. A `Replay` knows a state and a number of suspended sources,
and takes event by event: a character is read in the state that it knows, a move leads from there to another
state, and a source is put on top of the others or taken off. An event that does not fit is not taken
(`Replay.take`), so a replay that comes through to the end has checked the whole trace.

`Lexer.Tells` says that a lexer has told some events on its way to another one, and that a replay that starts where
the first stands takes them and ends where the second does. The state and the stack change in few places: when a
move is carried out (`works_setState`) and when a source is opened or left (`works_switch`). All that reading a raw
token does is made of these (`works_run`), a search says once and last that a token has been returned
(`announces_search`), and every operation but `close`, which tells nothing, is followed (`exists_tells`).
-/

namespace ShellWords

/-- What is known of a lexer from its trace. -/
structure Replay where
  /-- Where the automaton stands. -/
  state : State := .start
  /-- The number of suspended sources. -/
  depth : Nat := 0
  deriving DecidableEq, Repr

namespace Replay

/-- What is known after one more event, if the event fits to what is known before it. -/
def take (p : Replay) : Event → Option Replay
  | .charRead state _ => if state = p.state then some p else none
  | .stateChanged before after =>
    if before = p.state ∧ after ≠ before then some { p with state := after } else none
  | .sourcePushed _ depth => if depth = p.depth + 1 then some { p with depth } else none
  | .sourcePopped _ depth => if depth + 1 = p.depth then some { p with depth } else none
  | .rawToken _ | .tokenEmitted _ | .tokenPushed _ => some p

/-- What is known after these events, if each of them fits. -/
def takeAll (p : Replay) (events : List Event) : Option Replay := events.foldlM take p

/-- Events can be replayed in two parts. -/
theorem takeAll_append (p : Replay) (es fs : List Event) :
    p.takeAll (es ++ fs) = (p.takeAll es).bind fun q => q.takeAll fs := List.foldlM_append

end Replay

/-- A recorder keeps the events that it is told, behind those that it has heard before. -/
theorem Observer.notify_recording (heard : Array Event) (es : List Event) :
    es.foldl notify (recording heard) = recording (heard ++ es) := by
  induction es generalizing heard with
  | nil => simp
  | cons e es ih =>
    rw [List.foldl_cons]
    show es.foldl notify (recording (heard.push e)) = _
    rw [ih]
    simp

namespace Lexer

variable {l m n : Lexer} {es fs : List Event}

/-- What a replay of its trace should know of a lexer. -/
def replay (l : Lexer) : Replay := ⟨l.state, l.depth⟩

/-- The first lexer has told these events on its way to the second, and a replay takes them from the one to the
other. -/
structure Tells (l : Lexer) (es : List Event) (m : Lexer) : Prop where
  observer : m.observer = es.foldl Observer.notify l.observer
  follows : l.replay.takeAll es = some m.replay

/-- What is told on one way and then on another is told on both. -/
theorem Tells.trans (h : l.Tells es m) (k : m.Tells fs n) : l.Tells (es ++ fs) n where
  observer := by rw [k.observer, h.observer, List.foldl_append]
  follows := by rw [Replay.takeAll_append, h.follows, Option.bind_some, k.follows]

/-- One event is told. -/
theorem Tells.of_notify {e : Event} (hobserver : m.observer = l.observer.notify e)
    (htake : l.replay.take e = some m.replay) : l.Tells [e] m where
  observer := hobserver
  follows := by
    show ((l.replay.take e).bind fun q => q.takeAll []) = some m.replay
    rw [htake]
    rfl

/-! ## Work that returns no token -/

/-- On the way from the first lexer to the second, nothing has been told of a token that was returned. -/
def Works (l m : Lexer) : Prop := ∃ es, l.Tells es m ∧ ∀ e ∈ es, ∀ t, e ≠ .tokenEmitted t

/-- Nothing has been told at all. -/
theorem Works.of_silent (hobserver : m.observer = l.observer) (hreplay : m.replay = l.replay) :
    l.Works m :=
  ⟨[], ⟨hobserver, congrArg some hreplay.symm⟩, by simp⟩

/-- Where nothing happens, nothing is told. -/
theorem Works.refl (l : Lexer) : l.Works l := .of_silent rfl rfl

/-- Two pieces of work are one. -/
theorem Works.trans (h : l.Works m) (k : m.Works n) : l.Works n := by
  obtain ⟨es, htells, hes⟩ := h
  obtain ⟨fs, htells', hfs⟩ := k
  exact ⟨es ++ fs, htells.trans htells', List.forall_mem_append.2 ⟨hes, hfs⟩⟩

/-- One event is told, which is not about a token that was returned. -/
theorem Works.of_notify {e : Event} (hobserver : m.observer = l.observer.notify e)
    (htake : l.replay.take e = some m.replay) (he : ∀ t, e ≠ .tokenEmitted t) : l.Works m :=
  ⟨[e], .of_notify hobserver htake, by simpa using he⟩

/-- A move is told if it leads to another state. -/
theorem works_setState (l : Lexer) (s : State) : l.Works (l.setState s) := by
  by_cases hstate : l.state = s
  · rw [setState_of_state hstate]
    exact .refl l
  · refine .of_notify (e := .stateChanged l.state s) ?_ ?_ (by simp)
    · rw [setState, if_neg hstate]
      rfl
    · have hmoves : s ≠ l.state := fun h => hstate h.symm
      simp [Replay.take, replay, depth, hmoves]

/-- A lexer that goes on with another source says how many are suspended then. -/
theorem works_switch {source : Source} {suspended : List Source} {e : Event}
    (htake : l.replay.take e = some ⟨l.state, suspended.length⟩) (he : ∀ t, e ≠ .tokenEmitted t) :
    l.Works (l.switch source suspended e) := by
  have htold : l.Works (notify { l with source, suspended } e) := .of_notify rfl htake he
  exact htold.trans (works_setState _ .start)

/-- Suspending a source for another is such work. -/
theorem works_pushSource (l : Lexer) (stream : Stream) (origin : Option Path) :
    l.Works (l.pushSource stream origin) := by
  rw [pushSource_eq_switch]
  exact works_switch (by simp [Replay.take, replay, depth]) (by simp)

/-- Going back to a source is. -/
theorem works_resume {parent : Source} {rest : List Source} (h : l.suspended = parent :: rest) :
    l.Works (l.resume parent rest) := by
  rw [resume_eq_switch]
  exact works_switch (by simp [Replay.take, replay, depth, h]) (by simp)

/-- Opening a source is, and so is failing to. -/
theorem works_openInclusion {name : String} {x : Except LexError Unit}
    (h : l.openInclusion name = (x, m)) : l.Works m := by
  rcases openInclusion_cases h with ⟨e, -, rfl⟩ | ⟨inclusion, left, -, -, -, rfl⟩
  · exact .of_silent rfl rfl
  · have hasked : l.Works ((l.asking name).allowing left) := .of_silent rfl rfl
    exact hasked.trans (works_pushSource _ _ _)

/-! ## Reading a raw token -/

/-- Taking a character is. -/
theorem works_takeChar (l : Lexer) : l.Works l.takeChar.2 := by
  unfold takeChar
  split <;> exact .of_silent rfl rfl

/-- A character is told in the state that it is read in. -/
theorem works_charRead {x : Except ReadError (Option Char)} {taken : Lexer} (c : Option Char)
    (htake : l.takeChar = (x, taken)) : l.Works (taken.notify (.charRead l.state c)) := by
  have htaken := l.works_takeChar
  have hstate := l.takeChar_state
  rw [htake] at htaken hstate
  refine htaken.trans (.of_notify rfl ?_ (by simp))
  have hsame : taken.replay.state = l.state := hstate
  rw [Replay.take, if_pos hsame.symm]
  rfl

/-- Discarding the rest of a line is. -/
theorem works_skipFor (l : Lexer) (move : Move) : l.Works (l.skipFor move).2 := by
  unfold skipFor
  split <;> exact .of_silent rfl rfl

/-- So is a character whose line is skipped. -/
theorem works_skipped {c : Char} {x : Except ReadError (Option Char)} {taken skipped : Lexer} {move : Move}
    {u : Except ReadError Unit} (htake : l.takeChar = (x, taken))
    (hskip : (taken.notify (.charRead l.state (some c))).skipFor move = (u, skipped)) : l.Works skipped := by
  have hskipped := (taken.notify (.charRead l.state (some c))).works_skipFor move
  rw [hskip] at hskipped
  exact (works_charRead (some c) htake).trans hskipped

/-- Carrying out a move is. -/
theorem works_apply (l : Lexer) (move : Move) (c : Char) : l.Works (l.apply move c) := by
  refine .trans (m := { l with
    token := move.token
    pending := if move.held = .char then c :: l.pending else l.pending
    waiting := if move.held = .token then String.singleton c :: l.waiting else l.waiting }) ?_ ?_
  · exact .of_silent rfl rfl
  · exact works_setState _ _

/-- Ending a token is. -/
theorem works_finish {r : Rules} {quoted : Bool} {result : Option String}
    (h : finish r quoted l = (result, m)) : l.Works m := by
  unfold finish at h
  obtain ⟨-, rfl⟩ := Prod.mk.inj h
  exact .of_notify rfl rfl (by simp)

/-- Reading a raw token says nothing of a token that was returned. -/
theorem works_run (r : Rules) (l : Lexer) (quoted : Bool) : l.Works (run r l quoted).2 := by
  fun_induction run r l quoted with
  | case1 l quoted hdone result m hfin =>
    have hforgets : l.Works { l with token := "" } := .of_silent rfl rfl
    exact hforgets.trans (works_finish hfin)
  | case2 l quoted hdone e taken htake => simpa [htake] using l.works_takeChar
  | case3 l quoted hdone taken htake told hopen => exact works_charRead none htake
  | case4 l quoted hdone taken htake told hopen result m hfin =>
    exact ((works_charRead none htake).trans (works_setState _ _)).trans (works_finish hfin)
  | case5 l quoted hdone c taken htake move e skipped hskip => exact works_skipped htake hskip
  | case6 l quoted hdone c taken htake move skipped hskip next hcomplete result l' hfin =>
    exact ((works_skipped htake hskip).trans (works_apply _ _ _)).trans (works_finish hfin)
  | case7 l quoted hdone c taken htake move skipped hskip next hcomplete ih =>
    exact ((works_skipped htake hskip).trans (works_apply _ _ _)).trans ih

/-- So reading a raw token is such work. -/
theorem works_readToken {x : Except LexError (Option String)} (h : l.readToken = (x, m)) : l.Works m := by
  have hrun := works_run l.rules l false
  rw [show run l.rules l false = (x, m) from h] at hrun
  exact hrun

/-! ## Returning a token -/

/-- An attempt to return a token says so last, and once, if it succeeds; and not at all if it fails. -/
def Announces (l : Lexer) : Except LexError (Option String) × Lexer → Prop
  | (.error _, m) => l.Works m
  | (.ok result, m) => ∃ done, l.Works done ∧ m = done.notify (.tokenEmitted result)

/-- What was done before does not matter. -/
theorem Works.announces {x : Except LexError (Option String) × Lexer} (h : l.Works m)
    (k : m.Announces x) : l.Announces x := by
  obtain ⟨e | result, n⟩ := x
  · exact h.trans k
  · obtain ⟨done, hworks, rfl⟩ := k
    exact ⟨done, h.trans hworks, rfl⟩

/-- A search says that it returns a token if it does. -/
theorem announces_search (l : Lexer) : l.Announces l.search := by
  fun_induction search l with
  | case1 l e read hraw => exact works_readToken hraw
  | case2 l token read hraw hkey e named hname =>
    exact (works_readToken hraw).trans (works_readToken hname)
  | case3 l token read hraw hkey named hname ih =>
    exact ((works_readToken hraw).trans (works_readToken hname)).announces ih
  | case4 l token read hraw hkey name named hname e opened hopen =>
    exact ((works_readToken hraw).trans (works_readToken hname)).trans (works_openInclusion hopen)
  | case5 l token read hraw hkey name named hname opened hopen ih =>
    have hopened := ((works_readToken hraw).trans (works_readToken hname)).trans (works_openInclusion hopen)
    exact hopened.announces ih
  | case6 l token read hraw hkey => exact ⟨read, works_readToken hraw, rfl⟩
  | case7 l read hraw parent rest hstack ih =>
    exact ((works_readToken hraw).trans (works_resume hstack)).announces ih
  | case8 l read hraw hstack =>
    exact ⟨read.setState .done, (works_readToken hraw).trans (works_setState _ _), rfl⟩

/-- So does a call for the next token. -/
theorem announces_nextToken (l : Lexer) : l.Announces l.nextToken := by
  cases hwaiting : l.waiting with
  | nil =>
    rw [nextToken_of_no_waiting hwaiting]
    exact l.announces_search
  | cons token rest =>
    rw [nextToken_of_waiting hwaiting]
    exact ⟨{ l with waiting := rest }, .of_silent rfl rfl, rfl⟩

/-- The events of a call that returns a token, or none at the end of the input. -/
theorem exists_tells_of_nextToken {result : Option String} (h : l.nextToken = (.ok result, m)) :
    ∃ work, l.Tells (work ++ [.tokenEmitted result]) m ∧ ∀ e ∈ work, ∀ t, e ≠ .tokenEmitted t := by
  have hannounces := l.announces_nextToken
  rw [h] at hannounces
  obtain ⟨done, ⟨work, htells, hwork⟩, rfl⟩ := hannounces
  exact ⟨work, htells.trans (.of_notify rfl rfl), hwork⟩

/-! ## Operations -/

/-- A call for the next token tells some events, or none. -/
theorem exists_tells_nextToken (l : Lexer) : ∃ es, l.Tells es l.nextToken.2 := by
  rcases hnext : l.nextToken with ⟨e | result, m⟩
  · have hannounces := l.announces_nextToken
    rw [hnext] at hannounces
    obtain ⟨es, htells, -⟩ := hannounces
    exact ⟨es, htells⟩
  · obtain ⟨work, htells, -⟩ := exists_tells_of_nextToken hnext
    exact ⟨_, htells⟩

/-- Whatever is asked of a lexer, short of closing it, its events tell what becomes of it. -/
theorem exists_tells (l : Lexer) {op : Op} (h : op ≠ .close) : ∃ es, l.Tells es (op.perform l) := by
  have hworks {m : Lexer} (h : l.Works m) : ∃ es, l.Tells es m := by
    obtain ⟨es, htells, -⟩ := h
    exact ⟨es, htells⟩
  obtain ⟨es, hnext⟩ := l.exists_tells_nextToken
  cases op with
  | nextToken => exact ⟨es, hnext⟩
  | readToken => exact hworks (works_run l.rules l false)
  | hasNext =>
    show ∃ es, l.Tells es l.hasNext.2
    rcases l.hasNext_cases with hsame | ⟨token, hsame⟩ <;> rw [hsame]
    · exact ⟨es, hnext⟩
    · exact ⟨es ++ [.tokenPushed token], hnext.trans (.of_notify rfl rfl)⟩
  | iterate =>
    show ∃ es, l.Tells es l.iterate.2
    rcases l.iterate_cases with hsame | hsame | hsame <;> rw [hsame]
    · exact hworks (.refl l)
    · exact ⟨es, hnext⟩
    · exact ⟨es, hnext.observer, hnext.follows⟩
  | pushToken token => exact ⟨[.tokenPushed token], .of_notify rfl rfl⟩
  | pushSource stream origin => exact hworks (l.works_pushSource stream origin)
  | popSource =>
    show ∃ es, l.Tells es l.popSource.2
    unfold popSource
    split
    · exact hworks (.refl l)
    · rename_i parent rest hsuspended
      exact hworks (works_resume hsuspended)
  | close => exact (h rfl).elim

/-- So do the events of many operations. -/
theorem exists_tells_after (l : Lexer) (ops : List Op) (h : Op.close ∉ ops) :
    ∃ es, l.Tells es (l.after ops) := by
  induction ops generalizing l with
  | nil => exact ⟨[], rfl, rfl⟩
  | cons op ops ih =>
    rw [List.mem_cons, not_or] at h
    obtain ⟨es, hop⟩ := l.exists_tells (Ne.symm h.1)
    obtain ⟨fs, hops⟩ := ih (op.perform l) h.2
    exact ⟨es ++ fs, hop.trans hops⟩

/-- A recorder goes on to record, and has heard all that was told. -/
theorem Tells.recording {heard : Array Event} (h : l.Tells es m) (hl : l.observer = .recording heard) :
    m.observer = .recording (heard ++ es) := by
  rw [h.observer, hl, Observer.notify_recording]

/-- A lexer at the beginning of a source, with a recorder that has heard nothing. -/
def recorded (config : Config) (resolver : Resolver) (source : Source) (allowance : Nat) : Lexer :=
  { ofSource config resolver source with observer := .recorder, allowance }

/-- The trace of the lexer can be followed, and it shows what a call for the next token returns. -/
structure Traced (l : Lexer) : Prop where
  /-- Every event fits to those before it, and they lead from the beginning to where the lexer stands. -/
  replays : Replay.takeAll {} l.observer.events = some ⟨l.state, l.depth⟩
  /-- A call that returns a token, or none at the end of the input, says so in its last event and in no other. -/
  emits : ∀ result m, l.nextToken = (.ok result, m) →
    ∃ work, m.observer.events = l.observer.events ++ work ++ [.tokenEmitted result] ∧
      ∀ e ∈ work, ∀ t, e ≠ .tokenEmitted t
  /-- A call that fails speaks of no token that was returned. -/
  fails : ∀ e m, l.nextToken = (.error e, m) →
    ∃ work, m.observer.events = l.observer.events ++ work ∧ ∀ e ∈ work, ∀ t, e ≠ .tokenEmitted t

/-- Whatever has been asked of a lexer from its beginning on, short of closing it, its trace can be followed from
the beginning to the state and the depth that it has, and shows every token that is returned. -/
theorem trace_replays (config : Config) (resolver : Resolver) (source : Source) (allowance : Nat)
    (ops : List Op) (hclose : Op.close ∉ ops) :
    ((recorded config resolver source allowance).after ops).Traced := by
  obtain ⟨es, htells⟩ := exists_tells_after (recorded config resolver source allowance) ops hclose
  have hrecording := htells.recording (rfl : _ = Observer.recording #[])
  have hfollows := htells.follows
  generalize (recorded config resolver source allowance).after ops = l at *
  have hevents {fs : List Event} {m : Lexer} (h : l.Tells fs m) :
      m.observer.events = l.observer.events ++ fs := by
    rw [h.recording hrecording, hrecording]
    simp [Observer.events]
  refine ⟨?_, ?_, ?_⟩
  · have hheard : l.observer.events = es := by simp [hrecording, Observer.events]
    rw [hheard]
    exact hfollows
  · intro result m hnext
    obtain ⟨work, hwork, hquiet⟩ := exists_tells_of_nextToken hnext
    exact ⟨work, by rw [hevents hwork, List.append_assoc], hquiet⟩
  · intro e m hnext
    have hannounces := l.announces_nextToken
    rw [hnext] at hannounces
    obtain ⟨work, hwork, hquiet⟩ := hannounces
    exact ⟨work, hevents hwork, hquiet⟩

/-- A lexer that has been asked for a word, and has found it in an included file, is followed into that file. -/
theorem trace_replays_inclusion :
    Op.close ∉ [Op.nextToken] ∧
      Replay.takeAll {} ((recorded earlyInclusion oneFile ⟨.ofText "source inc:x", none, 1⟩ 10).after
        [.nextToken]).observer.events = some ⟨.start, 1⟩ := by
  have hclose : Op.close ∉ [Op.nextToken] := by simp
  have hnext : (nextTokenWithin 20 (recorded earlyInclusion oneFile ⟨.ofText "source inc:x", none, 1⟩ 10)).map
      (fun x => x.2.replay) = some ⟨.start, 1⟩ := by decide +kernel
  obtain ⟨x, hx, hreplay⟩ := Option.map_eq_some_iff.1 hnext
  refine ⟨hclose, ?_⟩
  rw [(trace_replays earlyInclusion oneFile ⟨.ofText "source inc:x", none, 1⟩ 10 _ hclose).replays, ← hreplay,
    ← nextToken_of_nextTokenWithin hx]
  rfl

end Lexer
end ShellWords
