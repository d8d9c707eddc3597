import ShellWords.Proofs.Lexing.Operations

/-!
# Whoever listens

A lexer tells its observer what it does, and two of its options say who that is and what is written down. None of
this gets back into the lexer. Two lexers that differ in nothing else are `Lexer.Unheard`. They read the same raw
tokens because they are alike, they take the same turns of every search (`Unheard.turn`), and every operation
returns the same from both and leaves them so (`Unheard.perform`). By induction on the operations, nothing that
can be seen of a lexer tells who listens (`transcript_listening`).
-/

namespace ShellWords

/-- What can be seen of a lexer between two operations. -/
structure View where
  /-- Where the automaton stands. -/
  state : State
  /-- The number of suspended sources. -/
  depth : Nat
  /-- The line that the current source is at. -/
  line : Nat
  /-- The file that the current source comes from, if any. -/
  origin : Option Path
  deriving DecidableEq, Repr

namespace Lexer

/-- What can be seen of a lexer. -/
def view (l : Lexer) : View := ⟨l.state, l.depth, l.line, l.origin⟩

/-- What these operations return, one after another, and what can be seen of the lexer after each. -/
def transcript (l : Lexer) : List Op → List (Answer × View)
  | [] => []
  | op :: ops => (op.answer l, (op.perform l).view) :: (op.perform l).transcript ops

/-- Two lexers differ in nothing but their listeners and what their options say about them. -/
structure Unheard (l m : Lexer) : Prop where
  alike : Alike [] [] l m
  keyword : m.config.sourceKeyword = l.config.sourceKeyword
  suspended : m.suspended = l.suspended
  resolver : m.resolver = l.resolver
  allowance : m.allowance = l.allowance
  halted : m.halted = l.halted

/-- Both turns end in the same way, with lexers that differ in nothing else. -/
inductive SameTurn : Turn → Turn → Prop where
  | failed {e : LexError} {a b : Lexer} (h : Unheard a b) : SameTurn (.failed e a) (.failed e b)
  | ended {a b : Lexer} (h : Unheard a b) : SameTurn (.ended a) (.ended b)
  | handed {token : String} {a b : Lexer} (h : Unheard a b) :
    SameTurn (.handed token a) (.handed token b)
  | passed {a b : Lexer} (h : Unheard a b) : SameTurn (.passed a) (.passed b)

namespace Unheard

variable {l m : Lexer}

/-- The same tokens wait in both. -/
theorem waiting (h : Unheard l m) : m.waiting = l.waiting := by
  obtain ⟨put, hl, hm⟩ := h.alike.waiting
  rw [hl, hm]

/-- The same tokens may be put in the place of those that wait. -/
theorem setWaiting (h : Unheard l m) (waiting : List String) :
    Unheard { l with waiting } { m with waiting } where
  alike := ⟨h.alike.rules, h.alike.source, h.alike.state, h.alike.token, h.alike.pending, waiting,
    (List.append_nil _).symm, (List.append_nil _).symm⟩
  keyword := h.keyword
  suspended := h.suspended
  resolver := h.resolver
  allowance := h.allowance
  halted := h.halted

/-- Whatever they tell, they differ in nothing else. -/
theorem notify (h : Unheard l m) (e f : Event) : Unheard (l.notify e) (m.notify f) :=
  ⟨h.alike.notify e f, h.keyword, h.suspended, h.resolver, h.allowance, h.halted⟩

/-- They differ in nothing else when the automaton has moved. -/
theorem setState (h : Unheard l m) (s : State) : Unheard (l.setState s) (m.setState s) where
  alike := h.alike.setState s
  keyword := by simpa using h.keyword
  suspended := by simpa using h.suspended
  resolver := by simpa using h.resolver
  allowance := by simpa using h.allowance
  halted := by simpa using h.halted

/-- Nor when the same token has been put back. -/
theorem pushToken (h : Unheard l m) (token : String) : Unheard (l.pushToken token) (m.pushToken token) := by
  have hpushed := (h.notify (.tokenPushed token) (.tokenPushed token)).setWaiting (token :: l.waiting)
  unfold Lexer.pushToken
  rw [h.waiting]
  exact hpushed

/-! ## The stack of sources -/

/-- Nor when both have gone on with the same source. -/
theorem pushSource (h : Unheard l m) (stream : Stream) (origin : Option Path) :
    Unheard (l.pushSource stream origin) (m.pushSource stream origin) where
  alike := h.alike.pushSource stream origin
  keyword := by simpa [Lexer.pushSource] using h.keyword
  suspended := by simp [Lexer.pushSource, h.suspended, h.alike.source]
  resolver := by simpa [Lexer.pushSource] using h.resolver
  allowance := by simpa [Lexer.pushSource] using h.allowance
  halted := by simpa [Lexer.pushSource] using h.halted

/-- Nor when both have gone back to the same source. -/
theorem resume (h : Unheard l m) (parent : Source) (rest : List Source) :
    Unheard (l.resume parent rest) (m.resume parent rest) where
  alike := h.alike.resume parent rest rest
  keyword := by simpa [Lexer.resume] using h.keyword
  suspended := by simp [Lexer.resume]
  resolver := by simpa [Lexer.resume] using h.resolver
  allowance := by simpa [Lexer.resume] using h.allowance
  halted := by simpa [Lexer.resume] using h.halted

/-- Both close their source, or neither has one to go back to. -/
theorem popSource (h : Unheard l m) :
    m.popSource.1 = l.popSource.1 ∧ Unheard l.popSource.2 m.popSource.2 := by
  unfold Lexer.popSource
  rw [h.suspended]
  cases l.suspended with
  | nil => exact ⟨rfl, h⟩
  | cons parent rest => exact ⟨rfl, h.resume parent rest⟩

/-- Nor when both have closed all sources. -/
theorem close (h : Unheard l m) : Unheard l.close m.close where
  alike := ⟨h.alike.rules, rfl, rfl, h.alike.token, rfl, [], rfl, rfl⟩
  keyword := h.keyword
  suspended := rfl
  resolver := h.resolver
  allowance := h.allowance
  halted := h.halted

/-- Both resolvers remember the same request. -/
theorem asking (h : Unheard l m) (name : String) : Unheard (l.asking name) (m.asking name) where
  alike := h.alike.asking name name
  keyword := h.keyword
  suspended := h.suspended
  resolver := by rw [Lexer.asking, Lexer.asking, h.resolver, origin, origin, h.alike.source]
  allowance := h.allowance
  halted := h.halted

/-- The same may be allowed to both. -/
theorem allowing (h : Unheard l m) (allowance : Nat) : Unheard (l.allowing allowance) (m.allowing allowance) :=
  ⟨h.alike.allowing allowance allowance, h.keyword, h.suspended, h.resolver, rfl, h.halted⟩

/-- Both include the same source, or neither includes any. -/
theorem openInclusion (h : Unheard l m) (name : String) :
    (m.openInclusion name).1 = (l.openInclusion name).1 ∧
      Unheard (l.openInclusion name).2 (m.openInclusion name).2 := by
  have hname : m.resolver.answer name m.origin = l.resolver.answer name l.origin := by
    rw [h.resolver, origin, origin, h.alike.source]
  have hasked := h.asking name
  unfold Lexer.openInclusion
  rw [hname, h.allowance]
  cases l.resolver.answer name l.origin with
  | error e => exact ⟨rfl, hasked⟩
  | ok inclusion =>
    cases l.allowance with
    | zero => exact ⟨rfl, hasked⟩
    | succ left => exact ⟨rfl, (hasked.allowing left).pushSource inclusion.stream inclusion.origin⟩

/-! ## Reading tokens -/

/-- Both read the same raw token. -/
theorem readToken (h : Unheard l m) :
    m.readToken.1 = l.readToken.1 ∧ Unheard l.readToken.2 m.readToken.2 := by
  obtain ⟨read, hread, halike⟩ := h.alike.readToken (x := l.readToken.1) rfl
  have hsame := l.sameStack_readToken
  have hsame' := SameStack.of_readToken hread
  rw [hread]
  refine ⟨rfl, halike, ?_, ?_, ?_, ?_, ?_⟩
  · rw [hsame.config, hsame'.config]
    exact h.keyword
  · exact hsame'.suspended.trans (h.suspended.trans hsame.suspended.symm)
  · exact hsame'.resolver.trans (h.resolver.trans hsame.resolver.symm)
  · exact hsame'.allowance.trans (h.allowance.trans hsame.allowance.symm)
  · exact hsame'.halted.trans (h.halted.trans hsame.halted.symm)

/-- Both leave the same source. -/
theorem leave (h : Unheard l m) : SameTurn l.leave m.leave := by
  unfold Lexer.leave
  rw [h.suspended]
  cases l.suspended with
  | nil => exact .ended ((h.setState .done).notify _ _)
  | cons parent rest => exact .passed (h.resume parent rest)

/-- Behind the keyword, both go on with the same name. -/
theorem follow (h : Unheard l m) : SameTurn l.follow m.follow := by
  obtain ⟨hresult, hnamed⟩ := h.readToken
  rcases hl : l.readToken with ⟨x, named⟩
  rcases hm : m.readToken with ⟨y, named'⟩
  rw [hl, hm] at hresult hnamed
  obtain rfl : y = x := hresult
  rw [Lexer.follow, Lexer.follow, hl, hm]
  cases y with
  | error e => exact .failed hnamed
  | ok name =>
    cases name with
    | none => exact .passed hnamed
    | some name =>
      obtain ⟨hresult, hopened⟩ := hnamed.openInclusion name
      rcases hl' : named.openInclusion name with ⟨x, opened⟩
      rcases hm' : named'.openInclusion name with ⟨y, opened'⟩
      rw [hl', hm'] at hresult hopened
      obtain rfl : y = x := hresult
      dsimp only
      rw [hl', hm']
      cases y with
      | error e => exact .failed hopened
      | ok _ => exact .passed hopened

/-- Both take the same turn. -/
theorem turn (h : Unheard l m) : SameTurn l.turn m.turn := by
  obtain ⟨hresult, hread⟩ := h.readToken
  rcases hl : l.readToken with ⟨x, read⟩
  rcases hm : m.readToken with ⟨y, read'⟩
  rw [hl, hm] at hresult hread
  obtain rfl : y = x := hresult
  cases y with
  | error e =>
    rw [turn_of_error hl, turn_of_error hm]
    exact .failed hread
  | ok token =>
    cases token with
    | none =>
      rw [turn_of_none hl, turn_of_none hm]
      exact hread.leave
    | some token =>
      by_cases hkey : read.config.sourceKeyword = some token
      · rw [turn_of_keyword hl hkey, turn_of_keyword hm (hread.keyword.trans hkey)]
        exact hread.follow
      · rw [turn_of_token hl hkey, turn_of_token hm (by rw [hread.keyword]; exact hkey)]
        exact .handed (hread.notify _ _)

/-- Both find the same token, turn by turn. -/
theorem search (h : Unheard l m) : m.search.1 = l.search.1 ∧ Unheard l.search.2 m.search.2 := by
  induction l using hasLess_induction generalizing m with
  | step l ih =>
    have hspends := spends_turn l
    have hturn := h.turn
    rw [search_eq_turn l, search_eq_turn m]
    generalize l.turn = t at *
    generalize m.turn = u at *
    cases hturn with
    | failed hab => exact ⟨rfl, hab⟩
    | ended hab => exact ⟨rfl, hab⟩
    | handed hab => exact ⟨rfl, hab⟩
    | passed hab => exact ih _ hspends hab

/-- Both return the same next token. -/
theorem nextToken (h : Unheard l m) :
    m.nextToken.1 = l.nextToken.1 ∧ Unheard l.nextToken.2 m.nextToken.2 := by
  cases hwaiting : l.waiting with
  | nil =>
    rw [nextToken_of_no_waiting hwaiting, nextToken_of_no_waiting (h.waiting.trans hwaiting)]
    exact h.search
  | cons token rest =>
    rw [nextToken_of_waiting hwaiting, nextToken_of_waiting (h.waiting.trans hwaiting)]
    exact ⟨rfl, (h.setWaiting rest).notify _ _⟩

/-- Both find another token, or none. -/
theorem hasNext (h : Unheard l m) :
    m.hasNext.1 = l.hasNext.1 ∧ Unheard l.hasNext.2 m.hasNext.2 := by
  obtain ⟨hresult, hnext⟩ := h.nextToken
  rcases hl : l.nextToken with ⟨x, next⟩
  rcases hm : m.nextToken with ⟨y, next'⟩
  rw [hl, hm] at hresult hnext
  obtain rfl : y = x := hresult
  unfold Lexer.hasNext
  rw [hl, hm]
  rcases y with e | _ | token
  · exact ⟨rfl, hnext⟩
  · exact ⟨rfl, hnext⟩
  · exact ⟨rfl, hnext.pushToken token⟩

/-- The iteration goes on with the same item, or has ended for both. -/
theorem iterate (h : Unheard l m) :
    m.iterate.1 = l.iterate.1 ∧ Unheard l.iterate.2 m.iterate.2 := by
  obtain ⟨hresult, hnext⟩ := h.nextToken
  rcases hl : l.nextToken with ⟨x, next⟩
  rcases hm : m.nextToken with ⟨y, next'⟩
  rw [hl, hm] at hresult hnext
  obtain rfl : y = x := hresult
  unfold Lexer.iterate
  rw [h.halted, hl, hm]
  cases l.halted with
  | true => exact ⟨rfl, h⟩
  | false =>
    rcases y with e | _ | token
    · have hhalted : Unheard { next with halted := true } { next' with halted := true } :=
        ⟨⟨hnext.alike.rules, hnext.alike.source, hnext.alike.state, hnext.alike.token,
          hnext.alike.pending, hnext.alike.waiting⟩, hnext.keyword, hnext.suspended, hnext.resolver,
          hnext.allowance, rfl⟩
      exact ⟨rfl, hhalted⟩
    · exact ⟨rfl, hnext⟩
    · exact ⟨rfl, hnext⟩

/-! ## Operations -/

/-- Every operation returns the same from both, and they differ in nothing else after it. -/
theorem perform (h : Unheard l m) (op : Op) :
    op.answer m = op.answer l ∧ Unheard (op.perform l) (op.perform m) := by
  cases op with
  | nextToken => exact ⟨congrArg Answer.token h.nextToken.1, h.nextToken.2⟩
  | readToken => exact ⟨congrArg Answer.token h.readToken.1, h.readToken.2⟩
  | hasNext => exact ⟨congrArg Answer.more h.hasNext.1, h.hasNext.2⟩
  | iterate => exact ⟨congrArg Answer.item h.iterate.1, h.iterate.2⟩
  | pushToken token => exact ⟨rfl, h.pushToken token⟩
  | pushSource stream origin => exact ⟨rfl, h.pushSource stream origin⟩
  | popSource => exact ⟨congrArg Answer.closed h.popSource.1, h.popSource.2⟩
  | close => exact ⟨rfl, h.close⟩

/-- The same can be seen of both. -/
theorem view (h : Unheard l m) : m.view = l.view := by
  simp only [Lexer.view, depth, line, origin, h.alike.state, h.suspended, h.alike.source]

/-- Operations, one after another, show no difference. -/
theorem transcript (h : Unheard l m) (ops : List Op) : m.transcript ops = l.transcript ops := by
  induction ops generalizing l m with
  | nil => rfl
  | cons op ops ih =>
    obtain ⟨hanswer, hperformed⟩ := h.perform op
    rw [Lexer.transcript, Lexer.transcript, hanswer, hperformed.view, ih hperformed]

end Unheard

/-- Nothing that can be seen of a lexer, whatever is asked of it, depends on who listens or on the options that
are about listening. -/
theorem transcript_listening (config : Config) (level : UInt8) (tag : String) (resolver : Resolver)
    (source : Source) (allowance : Nat) (observer observer' : Observer) (ops : List Op) :
    transcript { ofSource config resolver source with observer, allowance } ops =
      transcript
        { ofSource { config with debugLevel := level, tag } resolver source with
          observer := observer', allowance } ops := by
  have h : Unheard { ofSource config resolver source with observer, allowance }
      { ofSource { config with debugLevel := level, tag } resolver source with
        observer := observer', allowance } :=
    ⟨⟨rfl, rfl, rfl, rfl, rfl, [], rfl, rfl⟩, rfl, rfl, rfl, rfl, rfl⟩
  exact (h.transcript ops).symm

end Lexer
end ShellWords
