import Mathlib.Data.List.Induction
import ShellWords.Proofs.Lexing.Ending
import ShellWords.Proofs.Lexing.Words
import ShellWords.Proofs.Trace.Replay

/-!
# Stacks of sources

Sources that are pushed one on another are read from the top, each to its end, as if it were alone. A lexer that
reads the topmost source is compared with one that has nothing else to read (`Lexer.Above`). Both return the same
tokens, and while they do so the sources below stay where they are (`Above.nextToken_of_token`). Where the one that
is alone comes to the end of its input, nothing is left over of the source: no token in progress, no character and no
token put back (`Above.readToken_of_end`). The other closes it and stands at the beginning of the next
(`Above.resumes`).

`Lexer.Pops` keeps account of the sources that are closed on the way, as a listener is told of them. By induction on
the stack, all words are returned with the depth of their source, and every pushed source is closed once
(`stack_in_turn`).
-/

namespace ShellWords

/-- Which source an event says was closed, and how many were still suspended. -/
def Event.popped? : Event → Option (Option Path × Nat)
  | .sourcePopped origin depth => some (origin, depth)
  | _ => none

namespace Lexer

variable {l m n read : Lexer}

/-- What so many calls for the next token return, each with the number of sources that are suspended behind it, and
the lexer behind them all. -/
def calls (l : Lexer) : Nat → List (Except LexError (Option String) × Nat) × Lexer
  | 0 => ([], l)
  | n + 1 => ((l.nextToken.1, l.nextToken.2.depth) :: (l.nextToken.2.calls n).1, (l.nextToken.2.calls n).2)

/-- The first call returns this, and the others go on behind it. -/
theorem calls_succ {x : Except LexError (Option String)} (h : l.nextToken = (x, m)) (n : Nat) :
    l.calls (n + 1) = ((x, m.depth) :: (m.calls n).1, (m.calls n).2) := by
  rw [calls, h]

/-- Calls go on where others have ended. -/
theorem calls_add {j k : Nat} {out out' : List (Except LexError (Option String) × Nat)}
    (h : l.calls j = (out, m)) (h' : m.calls k = (out', n)) : l.calls (j + k) = (out ++ out', n) := by
  induction j generalizing l out with
  | zero =>
    obtain ⟨rfl, rfl⟩ := Prod.mk.inj h
    rw [Nat.zero_add]
    exact h'
  | succ j ih =>
    rw [calls] at h
    obtain ⟨rfl, hlast⟩ := Prod.mk.inj h
    rw [Nat.succ_add, calls, ih (Prod.ext rfl hlast)]
    rfl

/-- What the next token is decides what all calls return. -/
theorem calls_congr (h : l.nextToken = m.nextToken) (k : Nat) : l.calls (k + 1) = m.calls (k + 1) := by
  rw [calls, calls, h]

/-! ## Sources that are closed -/

/-- On the way from the first lexer to the second, a listener is told that these sources were closed. -/
def Pops (l : Lexer) (pops : List (Option Path × Nat)) (m : Lexer) : Prop :=
  ∃ es : List Event, m.observer = es.foldl Observer.notify l.observer ∧ es.filterMap Event.popped? = pops

variable {pops pops' : List (Option Path × Nat)}

/-- What is closed on one way and then on another is closed on both. -/
theorem Pops.trans (h : l.Pops pops m) (k : m.Pops pops' n) : l.Pops (pops ++ pops') n := by
  obtain ⟨es, hes, rfl⟩ := h
  obtain ⟨fs, hfs, rfl⟩ := k
  refine ⟨es ++ fs, ?_, List.filterMap_append⟩
  rw [hfs, hes, List.foldl_append]

/-- If none was closed before, only those count that are closed then. -/
theorem Pops.behind (h : l.Pops [] m) (k : m.Pops pops n) : l.Pops pops n := h.trans k

/-- Nothing is told. -/
theorem Pops.of_silent (h : m.observer = l.observer) : l.Pops [] m := ⟨[], h, rfl⟩

/-- A lexer closes nothing by itself. -/
theorem Pops.refl (l : Lexer) : l.Pops [] l := .of_silent rfl

/-- One event is told. -/
theorem Pops.of_notify {e : Event} (h : m.observer = l.observer.notify e) (he : e.popped?.toList = pops) :
    l.Pops pops m := by
  refine ⟨[e], h, ?_⟩
  rw [← he]
  cases hpopped : e.popped? <;> simp [hpopped]

/-- Moving the automaton closes nothing. -/
theorem pops_setState (l : Lexer) (s : State) : l.Pops [] (l.setState s) := by
  unfold setState
  split
  · exact .of_silent rfl
  · have htold : l.Pops [] (l.notify (.stateChanged l.state s)) := .of_notify rfl rfl
    exact htold.behind (.of_silent rfl)

/-- Going on with another source closes the sources that a listener is told of. -/
theorem pops_switch {source : Source} {suspended : List Source} {e : Event} (he : e.popped?.toList = pops) :
    l.Pops pops (l.switch source suspended e) := by
  have htold : l.Pops pops (notify { l with source, suspended } e) := .of_notify rfl he
  rw [← List.append_nil pops]
  exact htold.trans (pops_setState _ .start)

/-- Opening a source closes none. -/
theorem pops_pushSource (l : Lexer) (stream : Stream) (origin : Option Path) :
    l.Pops [] (l.pushSource stream origin) := pops_switch rfl

/-- Going on with a suspended source closes the one in front of it. -/
theorem pops_resume (l : Lexer) (parent : Source) (rest : List Source) :
    l.Pops [(l.origin, rest.length)] (l.resume parent rest) := pops_switch rfl

/-- Taking a character closes nothing. -/
theorem pops_takeChar {x : Except ReadError (Option Char)} (h : l.takeChar = (x, m)) : l.Pops [] m := by
  unfold takeChar at h
  split at h <;>
  · obtain ⟨-, rfl⟩ := Prod.mk.inj h
    exact .of_silent rfl

/-- Nor does telling that it was taken. -/
theorem pops_charRead {x : Except ReadError (Option Char)} {taken : Lexer} (htake : l.takeChar = (x, taken))
    (c : Option Char) : l.Pops [] (taken.notify (.charRead l.state c)) := by
  have htold : taken.Pops [] (taken.notify (.charRead l.state c)) := .of_notify rfl rfl
  exact (pops_takeChar htake).behind htold

/-- Nor does skipping its line. -/
theorem pops_skipped {c : Char} {x : Except ReadError (Option Char)} {taken skipped : Lexer} {move : Move}
    {u : Except ReadError Unit} (htake : l.takeChar = (x, taken))
    (hskip : (taken.notify (.charRead l.state (some c))).skipFor move = (u, skipped)) : l.Pops [] skipped := by
  refine (pops_charRead htake (some c)).behind (.of_silent ?_)
  unfold skipFor at hskip
  split at hskip <;>
  · obtain ⟨-, rfl⟩ := Prod.mk.inj hskip
    rfl

/-- Nor does carrying out a move. -/
theorem pops_apply (l : Lexer) (move : Move) (c : Char) : l.Pops [] (l.apply move c) :=
  Pops.behind (.of_silent rfl) (pops_setState _ move.state)

/-- Nor does ending a token. -/
theorem pops_finish {r : Rules} {quoted : Bool} {result : Option String} (h : finish r quoted l = (result, m)) :
    l.Pops [] m := by
  unfold finish at h
  obtain ⟨-, rfl⟩ := Prod.mk.inj h
  exact .of_notify rfl rfl

/-- Reading a raw token closes no source. -/
theorem pops_run (r : Rules) (l : Lexer) (quoted : Bool) : l.Pops [] (run r l quoted).2 := by
  fun_induction run r l quoted with
  | case1 l quoted hdone result m hfin =>
    have hforgets : l.Pops [] { l with token := "" } := .of_silent rfl
    exact hforgets.behind (pops_finish hfin)
  | case2 l quoted hdone e taken htake => exact pops_takeChar htake
  | case3 l quoted hdone taken htake told hopen => exact pops_charRead htake none
  | case4 l quoted hdone taken htake told hopen result m hfin =>
    exact ((pops_charRead htake none).behind (pops_setState _ _)).behind (pops_finish hfin)
  | case5 l quoted hdone c taken htake move e skipped hskip => exact pops_skipped htake hskip
  | case6 l quoted hdone c taken htake move skipped hskip next hcomplete result l' hfin =>
    exact ((pops_skipped htake hskip).behind (pops_apply _ _ _)).behind (pops_finish hfin)
  | case7 l quoted hdone c taken htake move skipped hskip next hcomplete ih =>
    exact ((pops_skipped htake hskip).behind (pops_apply _ _ _)).behind ih

/-- So reading a raw token closes nothing. -/
theorem pops_readToken {x : Except LexError (Option String)} (h : l.readToken = (x, m)) : l.Pops [] m := by
  have hrun := pops_run l.rules l false
  rw [show run l.rules l false = (x, m) from h] at hrun
  exact hrun

/-! ## One source above others -/

/-- A text that is read as a source, and its words. -/
structure Layer (config : Config) (resolver : Resolver) where
  /-- The text. -/
  text : String
  /-- The file that it is said to come from, if any. -/
  origin : Option Path
  /-- The words that it is split into when nothing else is read. -/
  words : List String
  splits : splitWith config resolver text = .ok words

variable {config : Config} {resolver : Resolver} {s t : Layer config resolver} {below : List (Layer config resolver)}

/-- A layer as a source that nothing has been read of. -/
def Layer.source (s : Layer config resolver) : Source := ⟨.ofText s.text, s.origin, 1⟩

/-- A lexer at the beginning of a layer, with nothing else to read. -/
def Layer.alone (s : Layer config resolver) : Lexer := ofSource config resolver s.source

/-- The first lexer reads a source above others, which were pushed in this order. The second reads the same source
and has no other. -/
structure Above (below : List (Layer config resolver)) (s : Layer config resolver) (l m : Lexer) : Prop where
  alike : Alike [] [] l m
  resting : l.Resting
  suspended : l.suspended = (below.map Layer.source).reverse ∧ m.suspended = []
  config : l.config = config ∧ m.config = config
  origin : l.origin = s.origin

/-- The same tokens wait in both. -/
theorem Above.waiting (h : Above below s l m) : m.waiting = l.waiting := by
  obtain ⟨put, hl, hm⟩ := h.alike.waiting
  rw [hl, hm]

/-- As many sources are suspended as are below. -/
theorem Above.depth (h : Above below s l m) : l.depth = below.length := by
  rw [Lexer.depth, h.suspended.1, List.length_reverse, List.length_map]

/-- They have told different events, and stand at the same place. -/
theorem Above.notify (h : Above below s l m) (e f : Event) : Above below s (l.notify e) (m.notify f) :=
  ⟨h.alike.notify e f, h.resting.notify e, h.suspended, h.config, h.origin⟩

/-- Both read the same raw token. -/
theorem Above.readToken (h : Above below s l m) {result : Option String} {own : Lexer}
    (hread : m.readToken = (.ok result, own)) :
    ∃ read, l.readToken = (.ok result, read) ∧ Above below s read own ∧ Settled l.rules l read result := by
  obtain ⟨read, hread', halike⟩ := h.alike.symm.readToken hread
  have hsettled := settled_readToken h.resting hread'
  have hsame := SameStack.of_readToken hread'
  have hsame' := SameStack.of_readToken hread
  have horigin := run_origin l.rules l false
  rw [show run l.rules l false = (.ok result, read) from hread'] at horigin
  refine ⟨read, hread', ⟨halike.symm, hsettled.resting, ?_, ?_, horigin.trans h.origin⟩, hsettled⟩
  · rw [hsame.suspended, hsame'.suspended]
    exact h.suspended
  · rw [hsame.config, hsame'.config]
    exact h.config

/-- A lexer with nothing left over that goes on with a source stands at its beginning. -/
theorem above_switch {suspended : List Source} (hconfig : l.config = config) (htoken : l.token = "")
    (hpending : l.pending = []) (hwaiting : l.waiting = [])
    (hsuspended : suspended = (below.map Layer.source).reverse) (s : Layer config resolver) (e : Event) :
    Above below s (l.switch s.source suspended e) s.alone where
  alike := by
    refine ⟨?_, switch_source _ _ _ |>.symm, rfl, ?_, ?_, [], ?_, rfl⟩
    · rw [switch_rules]
      show Rules.ofConfig config = Rules.ofConfig l.config
      rw [hconfig]
    · rw [switch_token, htoken]
      rfl
    · rw [switch_pending, hpending]
      rfl
    · rw [switch_waiting, hwaiting]
      rfl
  resting := ⟨by rw [switch_token, htoken], by rw [switch_pending, hpending]; exact Nat.zero_le _, .inl rfl⟩
  suspended := ⟨by rw [switch_suspended, hsuspended], rfl⟩
  config := ⟨by rw [switch_config, hconfig], rfl⟩
  origin := congrArg Source.origin (switch_source _ _ _)

/-- Where the second lexer returns a token, the first returns it too, and closes no source. -/
theorem Above.nextToken_of_token (hkeyword : config.sourceKeyword = none) (h : Above below s l m)
    {token : String} {own : Lexer} (hnext : m.nextToken = (.ok (some token), own)) :
    ∃ after, l.nextToken = (.ok (some token), after) ∧ Above below s after own ∧ l.Pops [] after := by
  cases hwaiting : l.waiting with
  | cons first rest =>
    rw [nextToken_of_waiting (h.waiting.trans hwaiting)] at hnext
    obtain ⟨hfirst, rfl⟩ := Prod.mk.inj hnext
    obtain rfl : first = token := by simpa using hfirst
    refine ⟨_, nextToken_of_waiting hwaiting, Above.notify ?_ _ _, .of_notify rfl rfl⟩
    have halike := h.alike
    exact ⟨⟨halike.rules, halike.source, halike.state, halike.token, halike.pending, rest, by simp, by simp⟩,
      ⟨h.resting.token, h.resting.held, h.resting.state⟩, h.suspended, h.config, h.origin⟩
  | nil =>
    have hnone : m.config.sourceKeyword = none := h.config.2 ▸ hkeyword
    rw [nextToken_eq_handed hnone h.suspended.2 (h.waiting.trans hwaiting)] at hnext
    rcases hraw : m.readToken with ⟨e | _ | raw, own'⟩ <;> rw [hraw] at hnext
    · simp [handed] at hnext
    · simp [handed] at hnext
    · obtain ⟨hraw', rfl⟩ := Prod.mk.inj hnext
      obtain rfl : raw = token := by simpa using hraw'
      obtain ⟨read, hread, habove, -⟩ := h.readToken hraw
      have hkey : read.config.sourceKeyword ≠ some raw := by simp [habove.config.1, hkeyword]
      rw [nextToken_of_no_waiting hwaiting, search_of_token hread hkey]
      have htold : read.Pops [] (read.notify (.tokenEmitted (some raw))) := .of_notify rfl rfl
      exact ⟨_, rfl, habove.notify _ _, (pops_readToken hread).behind htold⟩

/-- The words of the source are returned at its depth, and then the second lexer has none left. -/
theorem Above.calls_words (hkeyword : config.sourceKeyword = none) (h : Above below s l m) {ws : List String}
    (hwords : m.words = .ok ws) :
    ∃ after own, l.calls ws.length = (ws.map fun w => (.ok (some w), below.length), after) ∧
      Above below s after own ∧ own.words = .ok [] ∧ l.Pops [] after := by
  induction ws generalizing l m with
  | nil => exact ⟨l, m, rfl, h, hwords, .refl l⟩
  | cons w ws ih =>
    obtain ⟨own, hown, hrest⟩ := words_eq_cons_iff.1 hwords
    obtain ⟨next, hnext, habove, hpops⟩ := h.nextToken_of_token hkeyword hown
    obtain ⟨after, own', hcalls, hafter, hended, hpops'⟩ := ih habove hrest
    refine ⟨after, own', ?_, hafter, hended, hpops.behind hpops'⟩
    rw [List.length_cons, calls_succ hnext, hcalls, habove.depth, List.map_cons]

/-! ## The end of a source -/

/-- Where the second lexer has no words left, the first has come to the end of the source, and nothing is left over
of it. -/
theorem Above.readToken_of_end (hkeyword : config.sourceKeyword = none) (h : Above below s l m)
    (hwords : m.words = .ok []) :
    ∃ read own, l.readToken = (.ok none, read) ∧ Above below s read own ∧ l.waiting = [] ∧ read.waiting = [] ∧
      read.state = .done ∧ read.Exhausted := by
  obtain ⟨last, hnext⟩ := words_eq_nil_iff.1 hwords
  have hnone : m.config.sourceKeyword = none := h.config.2 ▸ hkeyword
  cases hwaiting : l.waiting with
  | cons first rest =>
    rw [nextToken_of_waiting (h.waiting.trans hwaiting)] at hnext
    simp at hnext
  | nil =>
    rw [nextToken_eq_handed hnone h.suspended.2 (h.waiting.trans hwaiting)] at hnext
    rcases hraw : m.readToken with ⟨e | _ | raw, own⟩ <;> rw [hraw] at hnext
    · simp [handed] at hnext
    · obtain ⟨read, hread, habove, hsettled⟩ := h.readToken hraw
      obtain ⟨hdone, hput⟩ := hsettled.ended rfl
      exact ⟨read, own, hread, habove, rfl, hput.trans hwaiting, hdone, hsettled.resting.exhausted hdone⟩
    · simp [handed] at hnext

/-- Where a lexer comes to the end of its last source, calls return no token, and close nothing. -/
theorem AtEnd.calls (hended : read.AtEnd []) (hread : l.readToken = (.ok none, read)) (hwaiting : l.waiting = [])
    (k : Nat) : ∃ last, l.calls k = (List.replicate k (.ok none, 0), last) ∧ l.Pops [] last := by
  induction k generalizing l read with
  | zero => exact ⟨l, rfl, .refl l⟩
  | succ k ih =>
    have hnext := search_of_ended hread hended.suspended
    rw [setState_of_state hended.state, ← nextToken_of_no_waiting hwaiting] at hnext
    have hafter := hended.notify (.tokenEmitted none)
    obtain ⟨read', hread', hended'⟩ := hafter.readToken
    obtain ⟨last, hcalls, hpops⟩ := ih hended' hread' hafter.waiting
    have htold : read.Pops [] (read.notify (.tokenEmitted none)) := .of_notify rfl rfl
    have hdepth : (read.notify (.tokenEmitted none)).depth = 0 := congrArg List.length hafter.suspended
    refine ⟨last, ?_, ((pops_readToken hread).behind htold).behind hpops⟩
    rw [calls_succ hnext, hcalls, hdepth, List.replicate_succ]

/-- At the end of the first source there is no token, however often it is asked for. -/
theorem Above.calls_end (hkeyword : config.sourceKeyword = none) (h : Above [] s l m) (hwords : m.words = .ok [])
    (k : Nat) : ∃ last, l.calls k = (List.replicate k (.ok none, 0), last) ∧ l.Pops [] last := by
  obtain ⟨read, own, hread, habove, hwaiting, hput, hdone, hexhausted⟩ := h.readToken_of_end hkeyword hwords
  have hended : read.AtEnd [] := ⟨hdone, habove.resting.token, habove.suspended.1, hexhausted, hput⟩
  exact hended.calls hread hwaiting k

/-- At the end of another source, that one is closed, and the source below it is read from its beginning. -/
theorem Above.resumes (hkeyword : config.sourceKeyword = none) (h : Above (below ++ [t]) s l m)
    (hwords : m.words = .ok []) :
    ∃ next, l.nextToken = next.nextToken ∧ Above below t next t.alone ∧
      l.Pops [(s.origin, below.length)] next := by
  obtain ⟨read, own, hread, habove, hwaiting, hput, hdone, hexhausted⟩ := h.readToken_of_end hkeyword hwords
  have hstack : read.suspended = t.source :: (below.map Layer.source).reverse := by
    rw [habove.suspended.1]
    simp
  have hbegins : Above below t (read.resume t.source (below.map Layer.source).reverse) t.alone :=
    above_switch habove.config.1 habove.resting.token hexhausted.1 hput rfl t _
  have hsearch : l.search = (read.resume t.source (below.map Layer.source).reverse).search := by
    rw [search_eq_turn, turn_of_none hread, leave, hstack]
  have hpops := pops_resume read t.source (below.map Layer.source).reverse
  rw [habove.origin, List.length_reverse, List.length_map] at hpops
  refine ⟨_, ?_, hbegins, (pops_readToken hread).behind hpops⟩
  rw [nextToken_of_no_waiting hwaiting, hsearch, nextToken_of_no_waiting hbegins.waiting.symm]

/-! ## All sources -/

/-- A layer read alone has the words that it was said to have, whatever file it comes from. -/
theorem Layer.words_alone (hkeyword : config.sourceKeyword = none) (s : Layer config resolver) :
    s.alone.words = .ok s.words := by
  have hwords := (splitWith_eq_ok_iff hkeyword resolver).1 s.splits
  have halone : s.alone.words = _ := words_ofSource_text hkeyword resolver s.text s.origin
  rw [halone, hwords]
  rfl

/-- What is to be returned of sources that were pushed in this order: the words of the last one first, each with the
index of its source. -/
def inTurn (sources : List (Layer config resolver)) : List (Except LexError (Option String) × Nat) :=
  (sources.zipIdx.map fun (s, i) => s.words.map fun w => (.ok (some w), i)).reverse.flatten

/-- The closings that a listener is to be told of: every source but the first one, the last one first, with the
number of those that are suspended then. -/
def closings (sources : List (Layer config resolver)) : List (Option Path × Nat) :=
  (sources.tail.zipIdx.map fun (s, i) => (s.origin, i)).reverse

/-- Where nothing was pushed, nothing is returned. -/
theorem inTurn_nil : inTurn ([] : List (Layer config resolver)) = [] := rfl

/-- The words of the source that was pushed last come first. -/
theorem inTurn_concat (sources : List (Layer config resolver)) (s : Layer config resolver) :
    inTurn (sources ++ [s]) = (s.words.map fun w => (.ok (some w), sources.length)) ++ inTurn sources := by
  simp [inTurn, List.zipIdx_append]

/-- And that source is the first to be closed. -/
theorem closings_concat (sources : List (Layer config resolver)) (t s : Layer config resolver) :
    closings (sources ++ [t] ++ [s]) = (s.origin, sources.length) :: closings (sources ++ [t]) := by
  have htail : (sources ++ [t] ++ [s]).tail = (sources ++ [t]).tail ++ [s] :=
    List.tail_append_of_ne_nil (by simp)
  rw [closings, htail, List.zipIdx_append]
  simp [closings]

/-- A lexer at the beginning of a source above others returns the words of all of them. -/
theorem Above.calls_in_turn (hkeyword : config.sourceKeyword = none) (h : Above below s l s.alone) (k : Nat) :
    ∃ last, l.calls ((inTurn (below ++ [s])).length + (k + 1)) =
        (inTurn (below ++ [s]) ++ List.replicate (k + 1) (.ok none, 0), last) ∧
      l.Pops (closings (below ++ [s])) last := by
  induction below using List.reverseRecOn generalizing l s with
  | nil =>
    obtain ⟨after, own, hcalls, hafter, hended, hpops⟩ := h.calls_words hkeyword (s.words_alone hkeyword)
    obtain ⟨last, hrest, hpops'⟩ := hafter.calls_end hkeyword hended (k + 1)
    refine ⟨last, ?_, hpops.behind hpops'⟩
    rw [inTurn_concat, inTurn_nil, List.append_nil, List.length_map]
    exact calls_add hcalls hrest
  | append_singleton below t ih =>
    obtain ⟨after, own, hcalls, hafter, hended, hpops⟩ := h.calls_words hkeyword (s.words_alone hkeyword)
    obtain ⟨next, hnext, habove, hpops'⟩ := hafter.resumes hkeyword hended
    obtain ⟨last, hrest, hpops''⟩ := ih habove
    refine ⟨last, ?_, ?_⟩
    · rw [inTurn_concat, List.length_append, List.length_map, Nat.add_assoc, List.append_assoc]
      refine calls_add hcalls ?_
      rw [← Nat.add_assoc, calls_congr hnext, Nat.add_assoc]
      exact hrest
    · rw [closings_concat]
      exact hpops.behind (hpops'.trans hpops'')

/-- A lexer on which these sources were pushed, one after another. -/
def pushAll (l : Lexer) (pushed : List (Layer config resolver)) : Lexer :=
  pushed.foldl (fun l s => l.pushSource (.ofText s.text) s.origin) l

/-- Pushing a source suspends one that nothing has been read of. -/
theorem Above.push (h : Above below s l s.alone) (t : Layer config resolver) :
    Above (below ++ [s]) t (l.pushSource (.ofText t.text) t.origin) t.alone := by
  have hsuspended : l.source :: l.suspended = ((below ++ [s]).map Layer.source).reverse := by
    have hsource : l.source = s.source := h.alike.source.symm
    simp [hsource, h.suspended.1]
  exact above_switch h.config.1 h.alike.token.symm h.alike.pending.symm h.waiting.symm hsuspended t _

/-- Pushing many sources closes none, and leaves the last one above the others. -/
theorem Above.pushAll (h : Above below s l s.alone) (pushed : List (Layer config resolver)) :
    ∃ below' s', below' ++ [s'] = below ++ [s] ++ pushed ∧ Above below' s' (l.pushAll pushed) s'.alone ∧
      l.Pops [] (l.pushAll pushed) := by
  induction pushed generalizing below s l with
  | nil => exact ⟨below, s, by simp, h, .refl l⟩
  | cons t pushed ih =>
    obtain ⟨below', s', hstack, habove, hpops⟩ := ih (h.push t)
    exact ⟨below', s', by simpa using hstack, habove, (pops_pushSource _ _ _).behind hpops⟩

/-- Sources that are pushed one after another are read one after another, the last one first and each to its end: the
calls for the next token return the words of each source, with the index of that source as the depth, and then that
there is none. A listener is told once for each pushed source that it was closed. -/
theorem stack_in_turn (hkeyword : config.sourceKeyword = none) (outer : Layer config resolver)
    (pushed : List (Layer config resolver)) (k : Nat) :
    (∀ observer : Observer, (((outer.alone.withObserver observer).pushAll pushed).calls
        ((inTurn (outer :: pushed)).length + (k + 1))).1 =
      inTurn (outer :: pushed) ++ List.replicate (k + 1) (.ok none, 0)) ∧
    (((outer.alone.withObserver .recorder).pushAll pushed).calls
        ((inTurn (outer :: pushed)).length + (k + 1))).2.observer.events.filterMap Event.popped? =
      closings (outer :: pushed) := by
  have hlast (observer : Observer) : ∃ last, ((outer.alone.withObserver observer).pushAll pushed).calls
      ((inTurn (outer :: pushed)).length + (k + 1)) =
        (inTurn (outer :: pushed) ++ List.replicate (k + 1) (.ok none, 0), last) ∧
      (outer.alone.withObserver observer).Pops (closings (outer :: pushed)) last := by
    have hfirst : Above [] outer (outer.alone.withObserver observer) outer.alone :=
      ⟨⟨rfl, rfl, rfl, rfl, rfl, [], rfl, rfl⟩, ⟨rfl, Nat.zero_le _, .inl rfl⟩, ⟨rfl, rfl⟩, ⟨rfl, rfl⟩, rfl⟩
    obtain ⟨below, top, hstack, habove, hpops⟩ := hfirst.pushAll pushed
    obtain ⟨last, hcalls, hpops'⟩ := habove.calls_in_turn hkeyword k
    rw [hstack] at hcalls hpops'
    exact ⟨last, hcalls, hpops.behind hpops'⟩
  constructor
  · intro observer
    obtain ⟨last, hcalls, -⟩ := hlast observer
    rw [hcalls]
  · obtain ⟨last, hcalls, es, hes, hpops⟩ := hlast .recorder
    have hheard : last.observer = .recording (#[] ++ es) := hes.trans (Observer.notify_recording #[] es)
    rw [hcalls, ← hpops]
    simp [hheard, Observer.events]

/-- A character that ends a word and is a token of its own comes out before its source is closed. -/
theorem stack_in_turn_colon :
    ∃ outer inner : Layer { whitespaceSplit := false } Resolver.refusing,
      outer.text = "a:" ∧ inner.text = "b:" ∧
      (((outer.alone.withObserver .silent).pushAll [inner]).calls 5).1 =
        [(.ok (some "b"), 1), (.ok (some ":"), 1), (.ok (some "a"), 0), (.ok (some ":"), 0), (.ok none, 0)] ∧
      (((outer.alone.withObserver .recorder).pushAll [inner]).calls 5).2.observer.events.filterMap
        Event.popped? = [(some ⟨"inner"⟩, 0)] := by
  have houter : (Rules.ofConfig { whitespaceSplit := false }).wordsFrom .start "" false "a:".toList =
      some ["a", ":"] := Rules.wordsFrom_of_wordsWithin 5 (by decide +kernel)
  have hinner : (Rules.ofConfig { whitespaceSplit := false }).wordsFrom .start "" false "b:".toList =
      some ["b", ":"] := Rules.wordsFrom_of_wordsWithin 5 (by decide +kernel)
  refine ⟨⟨"a:", none, ["a", ":"], splitWith_of_wordsFrom rfl _ houter⟩,
    ⟨"b:", some ⟨"inner"⟩, ["b", ":"], splitWith_of_wordsFrom rfl _ hinner⟩, rfl, rfl, ?_⟩
  exact (stack_in_turn rfl _ [_] 0).imp (fun hcalls => hcalls .silent) id

end Lexer
end ShellWords
