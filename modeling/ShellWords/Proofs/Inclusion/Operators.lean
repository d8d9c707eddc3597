import ShellWords.Proofs.Inclusion.Runs
import ShellWords.Proofs.Inclusion.Within

/-!
# Inclusion next to operators

Where there are operators, a character that ends a name without belonging to it is put back, and it belongs
to the lexer, not to the source that it comes from. So it is read in front of the included source, and it is
missing in the rest (`delivers_pushSource`). What comes out is the included source on its own and then the
rest, if no character was put back. No token is ever put back there, so the results of a lexer say all of its
course (`Quiet.runs_iff`).
-/

namespace ShellWords.Lexer

/-- The same lexer with another resolver. -/
def resolving (l : Lexer) (resolver : Resolver) : Lexer := { l with resolver }

/-! ## No token is put back -/

/-- A lexer with these options is between tokens, and no token waits in it. -/
structure Quiet (config : Config) (l : Lexer) : Prop where
  config : l.config = config
  waiting : l.waiting = []
  resting : l.Resting

variable {config : Config} {l read named : Lexer} {stream : Stream} {origin : Option Path}
  {own rest y : Yield (Except LexError String)} {c : Char}

/-- At the beginning of a source a lexer is quiet. -/
theorem quiet_ofSource (config : Config) (resolver : Resolver) (source : Source) :
    Quiet config (ofSource config resolver source) :=
  ⟨rfl, rfl, resting_ofSource config resolver source⟩

namespace Quiet

/-- It stays quiet with another resolver. -/
theorem resolving (h : Quiet config l) (resolver : Resolver) : Quiet config (l.resolving resolver) :=
  ⟨h.config, h.waiting, h.resting.token, h.resting.held, h.resting.state⟩

/-- It stays quiet when it has asked for a name. -/
theorem asking (h : Quiet config l) (name : String) : Quiet config (l.asking name) :=
  ⟨h.config, h.waiting, h.resting.asking name⟩

/-- It stays quiet with another allowance. -/
theorem allowing (h : Quiet config l) (allowance : Nat) : Quiet config (l.allowing allowance) :=
  ⟨h.config, h.waiting, h.resting.allowing allowance⟩

/-- It stays quiet without the character that was put back. -/
theorem dropPending (h : Quiet config l) : Quiet config l.dropPending :=
  ⟨h.config, h.waiting, h.resting.dropPending⟩

/-- The included source on its own leaves it quiet. -/
theorem alone (h : Quiet config l) (stream : Stream) (origin : Option Path) :
    Quiet config (l.alone stream origin) :=
  ⟨h.config, rfl, rfl, h.resting.held, .inl rfl⟩

/-- A quiet lexer is quiet at the beginning of a source that it goes on with. -/
theorem pushSource (h : Quiet config l) (stream : Stream) (origin : Option Path) :
    Quiet config (l.pushSource stream origin) where
  config := by simpa [Lexer.pushSource] using h.config
  waiting := by simpa [Lexer.pushSource] using h.waiting
  resting := h.resting.pushSource stream origin

/-- So it is when it goes back to a source. -/
theorem resume (h : Quiet config l) (parent : Source) (rest : List Source) :
    Quiet config (l.resume parent rest) where
  config := by simpa [Lexer.resume] using h.config
  waiting := by simpa [Lexer.resume] using h.waiting
  resting := h.resting.resume parent rest

/-- So it is when it opens a source or cannot open it. -/
theorem openInclusion (h : Quiet config l) {name : String} {x : Except LexError Unit}
    (hopen : l.openInclusion name = (x, read)) : Quiet config read := by
  rcases openInclusion_cases hopen with ⟨e, -, rfl⟩ | ⟨inclusion, left, -, -, -, rfl⟩
  · exact h.asking name
  · exact ((h.asking name).allowing left).pushSource inclusion.stream inclusion.origin

/-- So it is when it leaves a source that has ended. -/
theorem leave (h : Quiet config l) : l.leave.Leaves (Quiet config) := by
  unfold Lexer.leave
  split
  · exact h.resume _ _
  · trivial

end Quiet

section
variable (hactive : config.punctuation.isActive = true)
include hactive

/-- Where there are operators, no token is put back. -/
theorem Quiet.readToken (h : Quiet config l) {x : Option String}
    (hread : l.readToken = (.ok x, read)) : Quiet config read := by
  have hsettled := settled_readToken h.resting hread
  have hoperators : l.rules.classes.punctuationActive = true := by
    rw [rules, h.config]
    exact hactive
  refine ⟨(SameStack.of_readToken hread).config.trans h.config, ?_, hsettled.resting⟩
  exact (hsettled.waiting_of_active hoperators).trans h.waiting

/-- So it is whatever comes behind the keyword. -/
theorem quiet_follow (h : Quiet config l) : l.follow.Leaves (Quiet config) := by
  unfold follow
  split <;> rename_i hname
  · intro hrefusal
    exact (not_isRefusal_of_run hname hrefusal).elim
  · exact h.readToken hactive hname
  · have hnamed := h.readToken hactive hname
    split <;> rename_i hopen
    · intro _
      exact hnamed.openInclusion hopen
    · exact hnamed.openInclusion hopen

/-- So it stays from turn to turn. -/
theorem quiet_turn (h : Quiet config l) : l.turn.Leaves (Quiet config) := by
  unfold turn
  split <;> rename_i hread
  · intro hrefusal
    exact (not_isRefusal_of_run hread hrefusal).elim
  · exact (h.readToken hactive hread).leave
  · have hquiet := h.readToken hactive hread
    split
    · exact quiet_follow hactive hquiet
    · exact ⟨hquiet.config, hquiet.waiting, hquiet.resting.notify _⟩

/-- The course of a lexer is its results, each handed out at once. -/
theorem exists_course_eq_outs (l : Lexer) : Quiet config l → ∃ y, l.course = Yield.outs y := by
  induction l using hasLess_induction with
  | step l ih =>
    intro h
    have hspends := spends_turn l
    have hquiet := quiet_turn hactive h
    rw [course_eq, bare_eq h.waiting]
    generalize l.turn = t at *
    cases t with
    | failed e a =>
      cases hrefusal : e.isRefusal with
      | true =>
        obtain ⟨y, hy⟩ := ih a (hspends hrefusal) (hquiet hrefusal)
        refine ⟨y.behind [.error e], ?_⟩
        rw [courseBehind_of_refusal hrefusal, (hquiet hrefusal).waiting, hy, Yield.outs_behind]
        rfl
      | false => exact ⟨⟨[], some e⟩, courseBehind_of_failure hrefusal⟩
    | ended a => exact ⟨.empty, rfl⟩
    | handed token a =>
      obtain ⟨y, hy⟩ := ih a hspends hquiet
      refine ⟨y.behind [.ok token], ?_⟩
      rw [courseBehind, Quiet.waiting hquiet, hy, Yield.outs_behind]
      rfl
    | passed a =>
      obtain ⟨y, hy⟩ := ih a hspends hquiet
      refine ⟨y, ?_⟩
      rw [courseBehind, Quiet.waiting hquiet, hy]
      rfl

/-- The results of a lexer say what course it takes. -/
theorem Quiet.course_eq (h : Quiet config l) : l.course = l.results.outs := by
  -- A course that hands out everything at once can be read off the results.
  obtain ⟨y, hy⟩ := exists_course_eq_outs hactive l h
  rw [results_eq_flushed h.resting, h.waiting, hy, Yield.flushed_outs]
  rfl

/-- A lexer takes the course of the results that it delivers. -/
theorem Quiet.runs_iff (h : Quiet config l) : l.Runs y.outs ↔ l.Delivers y := by
  constructor
  · intro hruns
    have hdelivers := hruns.delivers h.resting
    rw [Yield.flushed_outs, h.waiting] at hdelivers
    exact hdelivers
  · rintro ⟨bound, hbound⟩
    refine ⟨bound, ?_⟩
    intro allowance hallowance
    rw [(h.allowing allowance).course_eq hactive, hbound allowance hallowance]

/-! ## What comes out behind a name -/

/-- A lexer that goes on with another source returns what that source holds, read with the character in
front of it that was put back, and then what is left of its own, without that character. -/
theorem delivers_pushSource (h : Quiet config l) (hforgets : l.resolver.Memoryless)
    (hown : (l.alone stream origin).Delivers own) (hrest : l.dropPending.Delivers rest) :
    (l.pushSource stream origin).Delivers (own.andThen rest) := by
  rw [← (h.alone stream origin).runs_iff hactive] at hown
  rw [← h.dropPending.runs_iff hactive] at hrest
  rw [← (h.pushSource stream origin).runs_iff hactive, Yield.outs_andThen]
  exact runs_pushSource h.resting hforgets stream origin hown hrest

/-- Reading ends with an error. -/
theorem Quiet.delivers_of_error (h : Quiet config l) {e : LexError}
    (hread : l.readToken = (.error e, read)) : l.Delivers ⟨[], some e⟩ := by
  rw [← bare_eq h.waiting] at hread
  exact (h.runs_iff hactive).1 (Runs.of_error hread)

/-- The last source ends. -/
theorem Quiet.delivers_of_ended (h : Quiet config l) (hread : l.readToken = (.ok none, read))
    (hsuspended : l.suspended = []) : l.Delivers .empty := by
  rw [← bare_eq h.waiting] at hread
  exact (h.runs_iff hactive).1 (Runs.of_ended hread hsuspended)

/-- A token is returned. -/
theorem Quiet.delivers_of_token (h : Quiet config l) {token : String}
    (hread : l.readToken = (.ok (some token), read)) (hkey : config.sourceKeyword ≠ some token)
    (hrest : read.Delivers rest) : l.Delivers (rest.behind [.ok token]) := by
  have hquiet := h.readToken hactive hread
  rw [← bare_eq h.waiting] at hread
  rw [← h.config] at hkey
  rw [← hquiet.runs_iff hactive] at hrest
  have hruns := Runs.of_token h.resting hread hkey hrest
  rw [hquiet.waiting] at hruns
  rw [← h.runs_iff hactive, Yield.outs_behind]
  exact hruns

/-- Reading the name behind the keyword ends with an error. -/
theorem Quiet.delivers_of_name_error (h : Quiet config l) {e : LexError} {keyword : String}
    (hread : l.readToken = (.ok (some keyword), read)) (hkey : config.sourceKeyword = some keyword)
    (hname : read.readToken = (.error e, named)) : l.Delivers ⟨[], some e⟩ := by
  rw [← bare_eq h.waiting] at hread
  rw [← h.config] at hkey
  exact (h.runs_iff hactive).1 (Runs.of_name_error hread hkey hname)

/-- A name is refused. -/
theorem Quiet.delivers_of_refused (h : Quiet config l) {e : LexError} {keyword name : String}
    (hread : l.readToken = (.ok (some keyword), read)) (hkey : config.sourceKeyword = some keyword)
    (hname : read.readToken = (.ok (some name), named))
    (hresolve : named.resolver.answer name named.origin = .error e) (hrefusal : e.isRefusal = true)
    (hrest : (named.asking name).Delivers rest) : l.Delivers (rest.behind [.error e]) := by
  have hquiet := (h.readToken hactive hread).readToken hactive hname
  rw [← bare_eq h.waiting] at hread
  rw [← h.config] at hkey
  rw [← (hquiet.asking name).runs_iff hactive] at hrest
  have hruns := Runs.of_refused h.resting hread hkey hname hresolve hrefusal hrest
  rw [hquiet.waiting] at hruns
  rw [← h.runs_iff hactive, Yield.outs_behind]
  exact hruns

end

/-- A lexer that knows no name delivers something. -/
theorem Quiet.exists_delivers (h : Quiet config l) :
    ∃ y, (l.resolving Resolver.refusing).Delivers y := by
  have hruns : (l.resolving Resolver.refusing).Runs _ := Runs.of_knowsNothing Resolver.knowsNothing_refusing
  exact ⟨_, hruns.delivers (h.resolving Resolver.refusing).resting⟩

end ShellWords.Lexer
