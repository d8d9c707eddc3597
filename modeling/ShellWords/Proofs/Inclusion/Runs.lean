import ShellWords.Proofs.Inclusion.Results

/-!
# The course of a lexer, turn by turn

The course that a lexer takes with a large enough allowance follows from the raw tokens that it reads. There
is one lemma for each way in which a turn can end: `Runs.of_error`, `Runs.of_ended` and `Runs.of_token` without the
keyword, and behind the keyword `Runs.of_name_error`, `Runs.of_no_name`, `Runs.of_refused`, `Runs.of_failed` and
`Runs.of_opened`.

What one lexer does, its twins do: those that differ from it in nothing but the allowance and the listener
(`Twin.turn`).
-/

namespace ShellWords.Lexer

/-- Two lexers differ in nothing but their allowances and their listeners. -/
structure Twin (l m : Lexer) : Prop where
  alike : Alike [] [] l m
  config : m.config = l.config
  resolver : m.resolver = l.resolver
  suspended : m.suspended = l.suspended

variable {l m read named : Lexer} {c : Yield (Signal (Except LexError String))} {e : LexError}
  {token name : String}

namespace Twin

/-- A lexer with another allowance is a twin. -/
theorem of_allowing (l : Lexer) (allowance : Nat) : Twin l (l.allowing allowance) where
  alike := ⟨rfl, rfl, rfl, rfl, rfl, l.waiting, (List.append_nil _).symm, (List.append_nil _).symm⟩
  config := rfl
  resolver := rfl
  suspended := rfl

/-- The same tokens wait in both. -/
theorem waiting (h : Twin l m) : m.waiting = l.waiting := by
  obtain ⟨put, hl, hm⟩ := h.alike.waiting
  rw [hl, hm]

/-- They are twins without the tokens that wait. -/
theorem bare (h : Twin l m) : Twin l.bare m.bare where
  alike := ⟨h.alike.rules, h.alike.source, h.alike.state, h.alike.token, h.alike.pending, [], rfl, rfl⟩
  config := h.config
  resolver := h.resolver
  suspended := h.suspended

/-- They are twins whatever the second tells. -/
theorem notify (h : Twin l m) (f : Event) : Twin l (m.notify f) where
  alike := ⟨h.alike.rules, h.alike.source, h.alike.state, h.alike.token, h.alike.pending,
    h.alike.waiting⟩
  config := h.config
  resolver := h.resolver
  suspended := h.suspended

/-- They are twins whatever the second is allowed. -/
theorem allowing (h : Twin l m) (allowance : Nat) : Twin l (m.allowing allowance) where
  alike := h.alike.allowing l.allowance allowance
  config := h.config
  resolver := h.resolver
  suspended := h.suspended

/-- Both read the same raw token, and neither uses up its allowance. -/
theorem readToken (h : Twin l m) {x : Except LexError (Option String)} (hread : l.readToken = (x, read)) :
    ∃ read', m.readToken = (x, read') ∧ Twin read read' ∧ read'.allowance = m.allowance := by
  obtain ⟨read', hread', halike⟩ := h.alike.readToken hread
  have hsame := SameStack.of_readToken hread
  have hsame' := SameStack.of_readToken hread'
  refine ⟨read', hread', ⟨halike, ?_, ?_, ?_⟩, hsame'.allowance⟩
  · exact hsame'.config.trans (h.config.trans hsame.config.symm)
  · exact hsame'.resolver.trans (h.resolver.trans hsame.resolver.symm)
  · exact hsame'.suspended.trans (h.suspended.trans hsame.suspended.symm)

/-- Both resolve the same name, from the same file. -/
theorem answer_eq (h : Twin l m) (name : String) :
    m.resolver.answer name m.origin = l.resolver.answer name l.origin := by
  rw [h.resolver, origin, origin, h.alike.source]

/-- They are twins when both have asked for the same name. -/
theorem asking (h : Twin l m) (name : String) : Twin (l.asking name) (m.asking name) where
  alike := h.alike.asking name name
  config := h.config
  resolver := by simp [Lexer.asking, origin, h.resolver, h.alike.source]
  suspended := h.suspended

/-- Both go on with the same included source. -/
theorem pushSource (h : Twin l m) (stream : Stream) (origin : Option Path) :
    Twin (l.pushSource stream origin) (m.pushSource stream origin) where
  alike := h.alike.pushSource stream origin
  config := by simpa [Lexer.pushSource] using h.config
  resolver := by simpa [Lexer.pushSource] using h.resolver
  suspended := by simp [Lexer.pushSource, h.suspended, h.alike.source]

/-- Both go back to the same source. -/
theorem resume (h : Twin l m) (parent : Source) (rest : List Source) :
    Twin (l.resume parent rest) (m.resume parent rest) where
  alike := h.alike.resume parent rest rest
  config := by simpa [Lexer.resume] using h.config
  resolver := by simpa [Lexer.resume] using h.resolver
  suspended := by simp [Lexer.resume]

/-- With the same allowance the one does what the other does. -/
theorem mirrors (h : Twin l m) (hresting : l.Resting) :
    Mirrors (.level l.config l.resolver) [] [] (l.allowing m.allowance) m :=
  ⟨h.alike.allowing _ m.allowance, ⟨rfl, h.config⟩, h.resolver, .inl rfl,
    h.suspended.trans (List.append_nil _).symm, rfl, hresting.allowing _⟩

/-- Both take the same course with the same allowance. -/
theorem course_eq (h : Twin l m) (hresting : l.Resting) :
    m.course = (l.allowing m.allowance).course := (h.mirrors hresting).course_eq

/-- Both have the same results from a call under way on, with the same allowance. -/
theorem onward_eq (h : Twin l m) (hresting : l.Resting) :
    m.onward = (l.allowing m.allowance).onward := by
  have hmirrors := h.mirrors hresting
  rw [onward_eq_flushed hmirrors.resting', onward_eq_flushed hmirrors.resting, h.course_eq hresting, h.waiting]
  rfl

end Twin

/-- Twins, the second of which may include so many sources more. -/
structure Wider (extra : Nat) (l m : Lexer) : Prop extends Twin l m where
  allowance : m.allowance = l.allowance + extra

/-- Two turns that end in the same way, with lexers of which the second may include so many sources more. -/
inductive TurnWider (extra : Nat) : Turn → Turn → Prop where
  | failed {e : LexError} {a b : Lexer} (h : Wider extra a b) : TurnWider extra (.failed e a) (.failed e b)
  | ended {a b : Lexer} (h : Wider extra a b) : TurnWider extra (.ended a) (.ended b)
  | handed {token : String} {a b : Lexer} (h : Wider extra a b) :
    TurnWider extra (.handed token a) (.handed token b)
  | passed {a b : Lexer} (h : Wider extra a b) : TurnWider extra (.passed a) (.passed b)

namespace Wider

variable {extra : Nat}

/-- Twins of which the second may include so many sources more. -/
theorem of_twin (h : Twin l m) (hallowance : m.allowance = l.allowance + extra) : Wider extra l m where
  toTwin := h
  allowance := hallowance

/-- Without the tokens that wait, the second may still include so many more. -/
theorem bare (h : Wider extra l m) : Wider extra l.bare m.bare := .of_twin h.toTwin.bare h.allowance

/-- So it may when both have asked for the same name. -/
theorem asking (h : Wider extra l m) (name : String) : Wider extra (l.asking name) (m.asking name) :=
  .of_twin (h.toTwin.asking name) h.allowance

/-- Both read the same raw token. -/
theorem readToken (h : Wider extra l m) {x : Except LexError (Option String)}
    (hread : l.readToken = (x, read)) : ∃ read', m.readToken = (x, read') ∧ Wider extra read read' := by
  obtain ⟨read', hread', htwin, hsame⟩ := h.toTwin.readToken hread
  refine ⟨read', hread', .of_twin htwin ?_⟩
  rw [hsame, h.allowance, (SameStack.of_readToken hread).allowance]

/-- Both leave the same source. -/
theorem leave (h : Wider extra l m) : TurnWider extra l.leave m.leave := by
  unfold Lexer.leave
  rw [h.suspended]
  cases l.suspended with
  | nil =>
    refine .ended (.of_twin ⟨(h.alike.setState .done).notify _ _, ?_, ?_, ?_⟩ ?_)
    · simpa using h.config
    · simpa using h.resolver
    · simpa using h.suspended
    · simpa using h.allowance
  | cons parent rest =>
    refine .passed (.of_twin (h.toTwin.resume parent rest) ?_)
    rw [allowance_resume, allowance_resume, h.allowance]

/-- Both open the same source, where the first may open one or there is none. -/
theorem openInclusion (h : Wider extra l m) (hfree : 0 < l.allowance ∨ l.resolver.KnowsNothing) (name : String) :
    (∃ e, l.openInclusion name = (.error e, l.asking name) ∧ m.openInclusion name = (.error e, m.asking name)) ∨
      ∃ a b, l.openInclusion name = (.ok (), a) ∧ m.openInclusion name = (.ok (), b) ∧ Wider extra a b := by
  unfold Lexer.openInclusion
  rw [h.answer_eq]
  cases hanswer : l.resolver.answer name l.origin with
  | error e => exact .inl ⟨e, rfl, rfl⟩
  | ok inclusion =>
    have hallowed : 0 < l.allowance := by
      refine hfree.resolve_right fun hnothing => ?_
      obtain ⟨e, he⟩ := hnothing name l.origin []
      rw [Resolver.answer, he] at hanswer
      cases hanswer
    obtain ⟨left, hleft⟩ := Nat.exists_eq_add_of_lt hallowed
    rw [Nat.zero_add] at hleft
    rw [h.allowance, hleft, Nat.add_right_comm]
    refine .inr ⟨_, _, rfl, rfl, .of_twin (Twin.pushSource ?_ _ _) (by simp [Lexer.pushSource])⟩
    exact ⟨(h.asking name).alike.allowing _ _, h.config, (h.asking name).resolver, h.suspended⟩

/-- Both read the same name behind the keyword. -/
theorem follow (h : Wider extra l m) (hfree : 0 < l.allowance ∨ l.resolver.KnowsNothing) :
    TurnWider extra l.follow m.follow := by
  unfold Lexer.follow
  rcases hname : l.readToken with ⟨e | _ | name, named⟩ <;> obtain ⟨named', hname', hnamed⟩ := h.readToken hname
  · rw [hname']
    exact .failed hnamed
  · rw [hname']
    exact .passed hnamed
  · have hsame := SameStack.of_readToken hname
    rw [← hsame.allowance, ← hsame.resolver] at hfree
    rw [hname']
    dsimp only
    rcases hnamed.openInclusion hfree name with ⟨e, ha, hb⟩ | ⟨a, b, ha, hb, hab⟩
    · rw [ha, hb]
      exact .failed (hnamed.asking name)
    · rw [ha, hb]
      exact .passed hab

/-- Both take the same turn, where the first may include a source or there is none to include. -/
theorem turn (h : Wider extra l m) (hfree : 0 < l.allowance ∨ l.resolver.KnowsNothing) :
    TurnWider extra l.turn m.turn := by
  rcases hread : l.readToken with ⟨e | _ | token, read⟩ <;> obtain ⟨read', hread', hnext⟩ := h.readToken hread
  · rw [turn_of_error hread, turn_of_error hread']
    exact .failed hnext
  · rw [turn_of_none hread, turn_of_none hread']
    exact hnext.leave
  · have hsame := SameStack.of_readToken hread
    rw [← hsame.allowance, ← hsame.resolver] at hfree
    by_cases hkey : read.config.sourceKeyword = some token
    · rw [turn_of_keyword hread hkey, turn_of_keyword hread' (by rw [hnext.config]; exact hkey)]
      exact hnext.follow hfree
    · rw [turn_of_token hread hkey, turn_of_token hread' (by rw [hnext.config]; exact hkey)]
      exact .handed (.of_twin ⟨hnext.alike.notify _ _, hnext.config, hnext.resolver, hnext.suspended⟩
        hnext.allowance)

end Wider

namespace Runs

/-- A lexer takes a course when each of its twins does so that is allowed enough. -/
theorem of_twins (bound : Nat)
    (htwins : ∀ m, Twin l.bare m → bound ≤ m.allowance → courseBehind m.turn = c) : l.Runs c := by
  refine ⟨bound, ?_⟩
  intro allowance hallowance
  rw [Lexer.course_eq]
  exact htwins _ (Twin.of_allowing l allowance).bare hallowance

/-- Where reading fails, that is all of the course. -/
theorem of_error (hread : l.bare.readToken = (.error e, read)) :
    l.Runs ⟨[], some e⟩ := by
  refine of_twins 0 ?_
  intro m hm _
  obtain ⟨read', hread', -⟩ := hm.readToken hread
  rw [turn_of_error hread', courseBehind_of_failure (isRefusal_of_run hread)]

/-- At the end of the last source the course is empty. -/
theorem of_ended (hread : l.bare.readToken = (.ok none, read))
    (hsuspended : l.suspended = []) : l.Runs .empty := by
  refine of_twins 0 ?_
  intro m hm _
  obtain ⟨read', hread', -⟩ := hm.readToken hread
  have hsame := SameStack.of_readToken hread'
  have hstack : read'.suspended = [] := hsame.suspended.trans (hm.suspended.trans hsuspended)
  rw [turn_of_none hread', leave, hstack]
  rfl

/-- A token is handed out, what was put back waits, and the course goes on. -/
theorem of_token (h : l.Resting) (hread : l.bare.readToken = (.ok (some token), read))
    (hkey : l.config.sourceKeyword ≠ some token) (hc : read.Runs c) :
    l.Runs (c.behind (putBack read.waiting ++ [.out (.ok token)])) := by
  obtain ⟨bound, hbound⟩ := hc
  have hresting := (settled_readToken h.bare hread).resting
  refine of_twins bound ?_
  intro m hm hallowance
  obtain ⟨read', hread', htwin, hsame⟩ := hm.readToken hread
  have hconfig := (SameStack.of_readToken hread').config
  have hkey' : read'.config.sourceKeyword ≠ some token := by
    rw [hconfig, hm.config]
    exact hkey
  rw [turn_of_token hread' hkey', courseBehind, (htwin.notify _).course_eq hresting, notify_allowance, hsame,
    hbound _ hallowance, notify_waiting, htwin.waiting]

/-! ## Behind the keyword -/

/-- Behind the keyword, a twin reads what follows. -/
theorem turn_of_twin (hread : l.readToken = (.ok (some token), read))
    (hkey : l.config.sourceKeyword = some token) (hm : Twin l m) :
    ∃ read', m.turn = read'.follow ∧ Twin read read' ∧ read'.allowance = m.allowance := by
  obtain ⟨read', hread', htwin, hsame⟩ := hm.readToken hread
  have hconfig := (SameStack.of_readToken hread').config
  refine ⟨read', turn_of_keyword hread' ?_, htwin, hsame⟩
  rw [hconfig, hm.config]
  exact hkey

/-- Where the name behind the keyword cannot be read, that is all of the course. -/
theorem of_name_error (hread : l.bare.readToken = (.ok (some token), read))
    (hkey : l.config.sourceKeyword = some token) (hname : read.readToken = (.error e, named)) :
    l.Runs ⟨[], some e⟩ := by
  refine of_twins 0 ?_
  intro m hm _
  obtain ⟨read', hturn, htwin, -⟩ := turn_of_twin hread hkey hm
  obtain ⟨named', hname', -⟩ := htwin.readToken hname
  rw [hturn, follow, hname', courseBehind_of_failure (isRefusal_of_run hname)]

/-- Where there is no name, the course goes on without the keyword. -/
theorem of_no_name (h : l.Resting) (hread : l.bare.readToken = (.ok (some token), read))
    (hkey : l.config.sourceKeyword = some token) (hname : read.readToken = (.ok none, named))
    (hc : named.Runs c) : l.Runs (c.behind (putBack named.waiting)) := by
  obtain ⟨bound, hbound⟩ := hc
  have hresting := (settled_readToken (settled_readToken h.bare hread).resting hname).resting
  refine of_twins bound ?_
  intro m hm hallowance
  obtain ⟨read', hturn, htwin, hsame⟩ := turn_of_twin hread hkey hm
  obtain ⟨named', hname', htwin', hsame'⟩ := htwin.readToken hname
  rw [hturn, follow, hname']
  show named'.course.behind (putBack named'.waiting) = _
  rw [htwin'.course_eq hresting, htwin'.waiting, hsame', hsame, hbound _ hallowance]

/-- A refused name is handed out as an error, and the course goes on. -/
theorem of_refused (h : l.Resting) (hread : l.bare.readToken = (.ok (some token), read))
    (hkey : l.config.sourceKeyword = some token) (hname : read.readToken = (.ok (some name), named))
    (hresolve : named.resolver.answer name named.origin = .error e) (hrefusal : e.isRefusal = true)
    (hc : (named.asking name).Runs c) :
    l.Runs (c.behind (putBack named.waiting ++ [.out (.error e)])) := by
  obtain ⟨bound, hbound⟩ := hc
  have hresting := (settled_readToken (settled_readToken h.bare hread).resting hname).resting
  refine of_twins bound ?_
  intro m hm hallowance
  obtain ⟨read', hturn, htwin, hsame⟩ := turn_of_twin hread hkey hm
  obtain ⟨named', hname', htwin', hsame'⟩ := htwin.readToken hname
  have hopen : named'.openInclusion name = (.error e, named'.asking name) := by
    rw [openInclusion, htwin'.answer_eq, hresolve]
  have hallowed : (named'.asking name).allowance = m.allowance := hsame'.trans hsame
  rw [hturn, follow, hname']
  dsimp only
  rw [hopen]
  dsimp only
  rw [courseBehind_of_refusal hrefusal, (htwin'.asking name).course_eq (hresting.asking name), hallowed,
    hbound _ hallowance, asking_waiting, htwin'.waiting]

/-- Any other error of the resolver is all of the course. -/
theorem of_failed (hread : l.bare.readToken = (.ok (some token), read))
    (hkey : l.config.sourceKeyword = some token) (hname : read.readToken = (.ok (some name), named))
    (hresolve : named.resolver.answer name named.origin = .error e) (hfailure : e.isRefusal = false) :
    l.Runs ⟨[], some e⟩ := by
  refine of_twins 0 ?_
  intro m hm _
  obtain ⟨read', hturn, htwin, -⟩ := turn_of_twin hread hkey hm
  obtain ⟨named', hname', htwin', -⟩ := htwin.readToken hname
  have hopen : named'.openInclusion name = (.error e, named'.asking name) := by
    rw [openInclusion, htwin'.answer_eq, hresolve]
  rw [hturn, follow, hname']
  dsimp only
  rw [hopen]
  dsimp only
  rw [courseBehind_of_failure hfailure]

/-- Behind the keyword and a name, a twin that may include a source goes on with it. -/
theorem turn_of_opened {inclusion : Inclusion} {left : Nat}
    (hread : l.readToken = (.ok (some token), read)) (hkey : l.config.sourceKeyword = some token)
    (hname : read.readToken = (.ok (some name), named))
    (hresolve : named.resolver.answer name named.origin = .ok inclusion) (hm : Twin l m)
    (hallowance : m.allowance = left + 1) :
    ∃ pushed, m.turn = .passed pushed ∧
      Twin ((named.asking name).pushSource inclusion.stream inclusion.origin) pushed ∧
      pushed.allowance = left := by
  obtain ⟨read', hturn, htwin, hsame⟩ := turn_of_twin hread hkey hm
  obtain ⟨named', hname', htwin', hsame'⟩ := htwin.readToken hname
  have hallowed : named'.allowance = left + 1 := hsame'.trans (hsame.trans hallowance)
  have hopen : named'.openInclusion name =
      (.ok (), ((named'.asking name).allowing left).pushSource inclusion.stream inclusion.origin) := by
    rw [openInclusion, htwin'.answer_eq, hresolve]
    dsimp only
    rw [hallowed]
  refine ⟨_, ?_, ((htwin'.asking name).allowing left).pushSource inclusion.stream inclusion.origin, ?_⟩
  · rw [hturn, follow, hname']
    dsimp only
    rw [hopen]
  · simp [Lexer.pushSource]

/-- Behind a resolved name it is the course of the lexer that has opened the included source. -/
theorem of_opened {inclusion : Inclusion} (h : l.Resting)
    (hread : l.bare.readToken = (.ok (some token), read))
    (hkey : l.config.sourceKeyword = some token) (hname : read.readToken = (.ok (some name), named))
    (hresolve : named.resolver.answer name named.origin = .ok inclusion)
    (hc : ((named.asking name).pushSource inclusion.stream inclusion.origin).Runs c) :
    l.Runs (c.behind (putBack named.waiting)) := by
  obtain ⟨bound, hbound⟩ := hc
  have hresting := (settled_readToken (settled_readToken h.bare hread).resting hname).resting
  have hpushed := (hresting.asking name).pushSource inclusion.stream inclusion.origin
  -- One inclusion more than what the rest needs.
  refine of_twins (bound + 1) ?_
  intro m hm hallowance
  obtain ⟨left, hleft⟩ := Nat.exists_eq_add_of_lt (show bound < m.allowance by omega)
  obtain ⟨pushed, hturn, htwin, hsame⟩ := turn_of_opened hread hkey hname hresolve hm hleft
  have hwaiting : pushed.waiting = named.waiting := by
    rw [htwin.waiting]
    simp [Lexer.pushSource]
  rw [hturn, courseBehind, htwin.course_eq hpushed, hsame, hwaiting, hbound _ (Nat.le_add_right ..)]

/-- A call that meets the keyword and a name returns what it returns when it goes on with the included
source. -/
theorem deliversOnward_of_opened {inclusion : Inclusion} {y : Yield (Except LexError String)}
    (h : l.Resting) (hread : l.readToken = (.ok (some token), read))
    (hkey : l.config.sourceKeyword = some token) (hname : read.readToken = (.ok (some name), named))
    (hresolve : named.resolver.answer name named.origin = .ok inclusion)
    (hy : ((named.asking name).pushSource inclusion.stream inclusion.origin).DeliversOnward y) :
    l.DeliversOnward y := by
  obtain ⟨bound, hbound⟩ := hy
  have hresting := (settled_readToken (settled_readToken h hread).resting hname).resting
  have hpushed := (hresting.asking name).pushSource inclusion.stream inclusion.origin
  refine ⟨bound + 1, ?_⟩
  intro allowance hallowance
  obtain ⟨left, hleft⟩ := Nat.exists_eq_add_of_lt (show bound < allowance by omega)
  obtain ⟨pushed, hturn, htwin, hsame⟩ := turn_of_opened hread hkey hname hresolve
    (Twin.of_allowing l allowance) hleft
  rw [onward, search_eq_turn, hturn]
  show pushed.onward = y
  rw [htwin.onward_eq hpushed, hsame, hbound _ (Nat.le_add_right ..)]

end Runs

/-! ## Lexers that include nothing -/

/-- Where nothing can be included, it does not matter how much is allowed. -/
theorem course_of_knowsNothing {extra : Nat} (l : Lexer) :
    ∀ {m : Lexer}, l.resolver.KnowsNothing → Wider extra l m → m.course = l.course := by
  have hafter : ∀ (r : Resolver) name current, r.KnowsNothing → (r.after name current).KnowsNothing :=
    fun r name current h name' current' earlier => h name' current' _
  induction l using hasLess_induction with
  | step l ih =>
    intro m hnothing h
    have hspends := spends_turn l.bare
    have hkept := resolver_turn (l := l.bare) hafter hnothing
    have hturn := h.bare.turn (.inr hnothing)
    rw [course_eq l, course_eq m]
    generalize l.bare.turn = t at *
    generalize m.bare.turn = u at *
    cases hturn with
    | @failed e a b hab =>
      cases hrefusal : e.isRefusal with
      | true =>
        have hrec := ih a (hspends hrefusal).of_bare (hkept hrefusal) hab
        rw [courseBehind_of_refusal hrefusal, courseBehind_of_refusal hrefusal, hab.waiting, hrec]
      | false => rw [courseBehind_of_failure hrefusal, courseBehind_of_failure hrefusal]
    | ended hab => rfl
    | @handed token a b hab =>
      rw [courseBehind, courseBehind, hab.waiting, ih a hspends.of_bare hkept hab]
    | @passed a b hab =>
      rw [courseBehind, courseBehind, hab.waiting, ih a hspends.of_bare hkept hab]

/-- A lexer that includes nothing takes one course, whatever it is allowed. -/
theorem Runs.of_knowsNothing (h : l.resolver.KnowsNothing) : l.Runs (l.allowing 0).course := by
  refine ⟨0, ?_⟩
  intro allowance _
  have hwider : Wider allowance (l.allowing 0) (l.allowing allowance) :=
    .of_twin ((Twin.of_allowing (l.allowing 0) 0).allowing allowance) (by simp)
  exact course_of_knowsNothing (l.allowing 0) h hwider

end ShellWords.Lexer
