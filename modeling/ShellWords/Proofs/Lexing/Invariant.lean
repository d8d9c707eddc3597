import ShellWords.Proofs.Lexing.Causality
import ShellWords.Proofs.Lexing.Operations

/-!
# What every lexer in use keeps

A lexer is in use from the moment it is made: operations are asked of it in any order, whether they fail or not, and
the resolver and the listener may be exchanged in between (`Lexer.InUse`). What is known of it all the time follows
from its being consistent (`InUse.consistent`).

A character is put back only when it has just been taken, and the next one to be taken is the one that was put back.
So there is never a second one, though nothing but that keeps them from piling up. And the automaton is done only
where nothing of its source is left (`Drained`). So no search leaves a source, or reports the end of the input, while
there is something to read (`Consistent.drained_of_readToken`, `Consistent.drained_of_nextToken`). `Sound` says all
this of one lexer, and `sound_of_inUse` that it holds.
-/

namespace ShellWords.Lexer

variable {r : Rules} {l m taken skipped : Lexer} {quoted : Bool}

/-! ## Tokens -/

/-- What ends as a token is one. -/
theorem isToken_of_finish {t : String} (h : finish r quoted l = (some t, m)) : r.isToken t quoted = true := by
  unfold finish at h
  obtain ⟨hresult, -⟩ := Prod.mk.inj h
  split_ifs at hresult with htoken
  obtain rfl := Option.some.inj hresult
  exact htoken

/-- What a run returns is a token. -/
theorem exists_isToken_of_run {t : String} (h : run r l quoted = (.ok (some t), m)) :
    ∃ quoted', r.isToken t quoted' = true := by
  fun_induction Lexer.run r l quoted with
  | case1 l quoted hdone result l' hfin =>
    obtain ⟨hresult, rfl⟩ := Prod.mk.inj h
    obtain rfl := Except.ok.inj hresult
    exact ⟨_, isToken_of_finish hfin⟩
  | case2 l quoted hdone e taken htake => simp at h
  | case3 l quoted hdone taken htake told hopen => simp at h
  | case4 l quoted hdone taken htake told hopen result l' hfin =>
    obtain ⟨hresult, rfl⟩ := Prod.mk.inj h
    obtain rfl := Except.ok.inj hresult
    exact ⟨_, isToken_of_finish hfin⟩
  | case5 l quoted hdone c taken htake move e skipped hskip => simp at h
  | case6 l quoted hdone c taken htake move skipped hskip next hcomplete result l' hfin =>
    obtain ⟨hresult, rfl⟩ := Prod.mk.inj h
    obtain rfl := Except.ok.inj hresult
    exact ⟨_, isToken_of_finish hfin⟩
  | case7 l quoted hdone c taken htake move skipped hskip next hcomplete ih => exact ih h

/-- Where quotes are kept, no token is empty. -/
theorem ne_empty_of_readToken (hposix : l.config.posix = false) {result : Option String}
    (h : l.readToken = (.ok result, m)) : result ≠ some "" := by
  rintro rfl
  obtain ⟨quoted, htoken⟩ := exists_isToken_of_run h
  have hrules : l.rules.posix = false := hposix
  simp [Rules.isToken, hrules] at htoken

/-! ## The ends of sources -/

/-- A lexer has come to the end of its source: no character is put back, no byte is unread, and nothing more comes. -/
structure Drained (l : Lexer) : Prop where
  pending : l.pending = []
  unread : l.source.unread = 0
  ended : l.source.readChar = (.ok none, l.source)

/-- A lexer at the end of its source has nothing left of it. -/
theorem Exhausted.drained (h : l.Exhausted) : l.Drained where
  pending := h.1
  unread := List.length_eq_zero_iff.2 (bytes_of_takeChar_none (takeChar_of_exhausted h))
  ended := h.2

/-- A turn of a search keeps a lexer consistent. -/
theorem Consistent.of_passed (h : l.Consistent r) (hturn : l.turn = .passed m) : m.Consistent r := by
  rcases passed_cases hturn with ⟨read, parent, rest, hraw, -, rfl⟩ | ⟨keyword, read, hraw, hname⟩ |
    ⟨keyword, read, name, named, hraw, hname, hopen⟩
  · exact (h.readToken hraw).1.resume parent rest
  · exact ((h.readToken hraw).1.readToken hname).1
  · exact ((h.readToken hraw).1.readToken hname).1.openInclusion hopen

/-- So does one that hands out a token. -/
theorem Consistent.of_handed {token : String} (h : l.Consistent r) (hturn : l.turn = .handed token m) :
    m.Consistent r := by
  obtain ⟨read, hraw, rfl⟩ := handed_cases hturn
  exact (h.readToken hraw).1.notify _

/-- And so do all turns of a search. -/
theorem Consistent.of_visits (h : l.Consistent r) (hvisits : l.Visits m) : m.Consistent r := by
  induction hvisits with
  | refl => exact h
  | tail _ hturn ih => exact ih.of_passed hturn

/-- A search asks the other lexer for a raw token, either first in a turn or for the name behind the keyword. -/
def AsksRaw (l m : Lexer) : Prop :=
  l.Visits m ∨ ∃ k keyword, l.Visits k ∧ k.readToken = (.ok (some keyword), m) ∧ m.config.sourceKeyword = some keyword

/-- So is every lexer that a search asks for a raw token. -/
theorem Consistent.of_asksRaw (h : l.Consistent r) (hasks : l.AsksRaw m) : m.Consistent r := by
  rcases hasks with hvisits | ⟨k, keyword, hvisits, hread, -⟩
  · exact h.of_visits hvisits
  · exact ((h.of_visits hvisits).readToken hread).1

/-- Fewer sources are suspended only when one has been left that gave no more tokens. -/
theorem readToken_of_depth_lt (hturn : l.turn = .passed m) (hlt : m.depth < l.depth) :
    ∃ read, l.readToken = (.ok none, read) := by
  have hdepth {k read : Lexer} {x : Except LexError (Option String)} (h : k.readToken = (x, read)) :
      read.depth = k.depth := congrArg List.length (SameStack.of_readToken h).suspended
  rcases passed_cases hturn with ⟨read, parent, rest, hraw, -, -⟩ | ⟨keyword, read, hraw, hname⟩ |
    ⟨keyword, read, name, named, hraw, hname, hopen⟩
  · exact ⟨read, hraw⟩
  · rw [hdepth hname, hdepth hraw] at hlt
    exact (Nat.lt_irrefl _ hlt).elim
  · rcases openInclusion_cases hopen with ⟨e, hok, -⟩ | ⟨inclusion, left, -, -, -, rfl⟩
    · cases hok
    · have hpushed : (((named.asking name).allowing left).pushSource inclusion.stream inclusion.origin).depth =
          named.depth + 1 := by simp [pushSource_eq_switch, depth]
      rw [hpushed, hdepth hname, hdepth hraw] at hlt
      omega

/-- A source that gives no more tokens has ended. -/
theorem Consistent.drained_of_readToken (h : l.Consistent r) (hread : l.readToken = (.ok none, m)) : m.Drained := by
  obtain ⟨hm, hresult⟩ := h.readToken hread
  exact (hm.done ((hresult none rfl).2 rfl)).drained

/-- So has the last one where the end of the input is reported. -/
theorem Consistent.drained_of_nextToken (h : l.Consistent r) (hnext : l.nextToken = (.ok none, m)) :
    m.Drained ∧ m.suspended = [] := by
  obtain ⟨hm, hresult⟩ := h.nextToken hnext
  obtain ⟨hdone, -, hstack⟩ := hresult rfl
  exact ⟨(hm.done hdone).drained, hstack⟩

/-! ## Lexers in use -/

/-- A lexer that has been made, and then used in any way: all operations may have been asked of it, and the resolver,
the listener and the allowance may have been exchanged at any time. -/
inductive InUse : Lexer → Prop where
  | made (config : Config) (resolver : Resolver) (source : Source) : InUse (ofSource config resolver source)
  | perform {l : Lexer} (h : InUse l) (op : Op) : InUse (op.perform l)
  | equip {l : Lexer} (h : InUse l) (resolver : Resolver) (observer : Observer) (allowance : Nat) :
    InUse { l with resolver, observer, allowance }

/-- A lexer in use is consistent. -/
theorem InUse.consistent (h : l.InUse) : l.Consistent l.rules := by
  have hsome : ∃ r, l.Consistent r := by
    induction h with
    | made config resolver source => exact ⟨_, (reached_ofSource config resolver source).consistent⟩
    | perform h op ih =>
      obtain ⟨r, hr⟩ := ih
      exact ⟨r, hr.perform op⟩
    | equip h resolver observer allowance ih =>
      obtain ⟨r, hr⟩ := ih
      exact ⟨r, hr.rules, hr.held, hr.pending, hr.inRun, hr.done⟩
  obtain ⟨r, hr⟩ := hsome
  rw [hr.rules]
  exact hr

/-- What can be relied on whenever a lexer is in use. -/
structure Sound (l : Lexer) : Prop where
  /-- One character at most is put back. -/
  held : l.pending.length ≤ 1
  /-- A character is put back only with operators, between tokens, and it is neither skipped nor starts a comment. -/
  pending : ∀ c ∈ l.pending, l.rules.classes.punctuationActive = true ∧ l.state = .start ∧
    l.rules.classes.isWhitespace c = false ∧ l.rules.classes.isComment c = false
  /-- The automaton is done only where the source has ended. -/
  done : l.state = .done → l.Drained
  /-- A search leaves a source, wherever it has come to, only when that has ended. -/
  leaves : ∀ k next, l.Visits k → k.turn = .passed next → next.depth < k.depth → k.readToken.2.Drained
  /-- The end of the input is reported only where the last source has ended. -/
  ends : ∀ m, l.nextToken = (.ok none, m) → m.Drained ∧ m.suspended = []
  /-- Behind a raw token, whether a search has read it or not, nothing is in progress. If there is none, the source has
  ended, and where quotes are kept, none is empty. -/
  reads : ∀ k result m, l.AsksRaw k → k.readToken = (.ok result, m) → m.token = "" ∧
    (m.state = .start ∨ m.state = .done) ∧ (result = none → m.state = .done) ∧
    (k.config.posix = false → result ≠ some "")

/-- Every lexer in use is sound. -/
theorem sound_of_inUse (h : l.InUse) : l.Sound := by
  constructor
  case held => exact h.consistent.held
  case pending =>
    intro c hc
    obtain ⟨hstate, -, hactive, hspace, hcomment⟩ := h.consistent.pending c hc
    exact ⟨hactive, hstate, hspace, hcomment⟩
  case done => exact fun hdone => (h.consistent.done hdone).drained
  case leaves =>
    intro k next hvisits hturn hlt
    obtain ⟨read, hread⟩ := readToken_of_depth_lt hturn hlt
    rw [hread]
    exact (h.consistent.of_visits hvisits).drained_of_readToken hread
  case ends => exact fun m hnext => h.consistent.drained_of_nextToken hnext
  case reads =>
    intro k result m hasks hread
    obtain ⟨hresting, hnone⟩ := ((h.consistent.of_asksRaw hasks).readToken hread).2 result rfl
    have hstate : m.state = .start ∨ m.state = .done := hresting.state.imp id And.left
    exact ⟨hresting.token, hstate, hnone, fun hposix => ne_empty_of_readToken hposix hread⟩

set_option maxRecDepth 4000 in
/-- Behind a word an operator is put back. -/
theorem sound_of_inUse_semicolon :
    (ofText { punctuation := .shell } Resolver.refusing "x;").readToken.2.pending = [';'] ∧
      (ofText { punctuation := .shell } Resolver.refusing "x;").readToken.2.state = .start ∧
      (ofText { punctuation := .shell } Resolver.refusing "x;").readToken.2.Sound := by
  have hinUse : (ofText { punctuation := .shell } Resolver.refusing "x;").readToken.2.InUse :=
    (InUse.made _ _ _).perform .readToken
  have hsound := sound_of_inUse hinUse
  have hread : (ofText { punctuation := .shell } Resolver.refusing "x;").readToken =
      (.ok (some "x"), { ofText { punctuation := .shell } Resolver.refusing "" with pending := [';'] }) :=
    run_of_runWithin 10 rfl
  have hpending := congrArg (fun x => x.2.pending) hread
  exact ⟨hpending, (hsound.pending ';' (hpending ▸ List.mem_singleton_self _)).2.1, hsound⟩

end ShellWords.Lexer
