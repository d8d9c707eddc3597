import ShellWords.Proofs.Inclusion.Yield
import ShellWords.Proofs.Lexing.Resting
import ShellWords.Proofs.Lexing.Search

/-!
# The course of a lexer

`Lexer.course` is everything that a lexer would read from here on, as signals: turn after turn, over all
sources, what is handed out and what is put back. It does not say when what was put back is handed out, so
the course over an included source and what comes after it is the course of the one and then the course of
the other (`course_mirrors`), although their results may be mixed.

`Mirrors` relates a lexer to one that does the same on top of more suspended sources and with a larger
allowance. What the second does when the first has come to its end is given as a course, so nothing needs
to be said of the lexer that it has become by then.
-/

namespace ShellWords.Lexer

/-- The lexer with no token put back. -/
def bare (l : Lexer) : Lexer := { l with waiting := [] }

/-- A lexer in which no token waits is the same without tokens that wait. -/
theorem bare_eq {l : Lexer} (h : l.waiting = []) : l.bare = l := by
  rw [bare, ← h]

/-- The tokens that wait do not matter to whether a lexer rests. -/
theorem Resting.bare {l : Lexer} (h : l.Resting) : l.bare.Resting := ⟨h.token, h.held, h.state⟩

/-- A lexer with no token put back has no more to do. -/
theorem HasLess.of_bare {l m : Lexer} (h : HasLess m l.bare) : HasLess m l := by
  have hwork : l.bare.workload ≤ l.workload := by
    refine Nat.add_le_add_right ?_ _
    show 3 * l.remaining + l.state.rank + 0 ≤ 3 * l.remaining + l.state.rank + l.waiting.length
    omega
  have hallowance : l.bare.allowance = l.allowance := rfl
  unfold HasLess at *
  omega

/-- The signals that tokens were put back, the first of them first. -/
def putBack (tokens : List String) : List (Signal (Except LexError String)) :=
  (tokens.map Except.ok).reverse.map .held

/-- Everything that a lexer would read from here on. After a refused name it goes on. -/
def course (l : Lexer) : Yield (Signal (Except LexError String)) :=
  match _h : l.bare.turn with
  | .failed e after =>
    if e.isRefusal then after.course.behind (putBack after.waiting ++ [.out (.error e)])
    else ⟨[], some e⟩
  | .ended _ => .empty
  | .handed token after => after.course.behind (putBack after.waiting ++ [.out (.ok token)])
  | .passed after => after.course.behind (putBack after.waiting)
termination_by (l.allowance, l.workload)
decreasing_by
  all_goals
    have hspends := spends_turn l.bare
    rw [_h] at hspends
  · rename_i hrefusal
    exact (hspends hrefusal).of_bare.lex
  · exact hspends.of_bare.lex
  · exact hspends.of_bare.lex

/-- The course behind a turn. -/
def courseBehind : Turn → Yield (Signal (Except LexError String))
  | .failed e after =>
    if e.isRefusal then after.course.behind (putBack after.waiting ++ [.out (.error e)])
    else ⟨[], some e⟩
  | .ended _ => .empty
  | .handed token after => after.course.behind (putBack after.waiting ++ [.out (.ok token)])
  | .passed after => after.course.behind (putBack after.waiting)

/-- Behind a refused name the course goes on. -/
theorem courseBehind_of_refusal {e : LexError} {after : Lexer} (h : e.isRefusal = true) :
    courseBehind (.failed e after) =
      after.course.behind (putBack after.waiting ++ [.out (.error e)]) := by
  rw [courseBehind, if_pos h]

/-- Any other error ends the course. -/
theorem courseBehind_of_failure {e : LexError} {after : Lexer} (h : e.isRefusal = false) :
    courseBehind (.failed e after) = ⟨[], some e⟩ := by
  rw [courseBehind, if_neg (by simp [h])]

/-- The course of a lexer is that behind its next turn. -/
theorem course_eq (l : Lexer) : l.course = courseBehind l.bare.turn := by
  rw [course]
  split <;> rename_i h <;> rw [h] <;> rfl

/-! ## Lexers that do the same on top of others -/

/-- What a lexer stands on that does the same as another on its own: the options that both have, the sources
suspended below and the resolver they are read on with, and how much larger its allowance is. -/
structure Ground where
  config : Config
  resolver : Resolver
  below : List Source
  extra : Nat

/-- The second lexer stands where the first does, but on this ground, and so it does the same until the
first has come to its end. -/
structure Mirrors (g : Ground) (w v : List String) (l m : Lexer) : Prop where
  alike : Alike w v l m
  config : l.config = g.config ∧ m.config = g.config
  resolver : m.resolver = l.resolver
  /-- A resolver that the first leaves behind to those below is what it was. -/
  kept : g.below = [] ∨ l.resolver = g.resolver ∧ g.resolver.Memoryless
  suspended : m.suspended = l.suspended ++ g.below
  allowance : m.allowance = l.allowance + g.extra
  resting : l.Resting

/-- The second turn is what the first is, on this ground. At the end of the first the
second leaves a source, and where the first uses up its allowance, the second may do anything. -/
inductive TurnMirrors (g : Ground) (w v : List String) : Turn → Turn → Prop where
  | failed {e : LexError} {a b : Lexer} (h : e.isRefusal = true → Mirrors g w v a b) :
    TurnMirrors g w v (.failed e a) (.failed e b)
  | limited {name : String} {a : Lexer} {t : Turn} (h : 0 < g.extra) :
    TurnMirrors g w v (.failed (.inclusionLimit name) a) t
  | ended {a b c : Lexer} (h : Mirrors g w v a b) (hsuspended : a.suspended = [])
    (hdone : a.state = .done) (hwaiting : b.waiting = v) : TurnMirrors g w v (.ended c) b.leave
  | handed {token : String} {a b : Lexer} (h : Mirrors g w v a b) :
    TurnMirrors g w v (.handed token a) (.handed token b)
  | passed {a b : Lexer} (h : Mirrors g w v a b) :
    TurnMirrors g w v (.passed a) (.passed b)

namespace Mirrors

variable {g : Ground} {w v : List String} {l m read : Lexer}

/-- What the two tell makes no difference. -/
theorem notify (h : Mirrors g w v l m) (e f : Event) :
    Mirrors g w v (l.notify e) (m.notify f) :=
  ⟨h.alike.notify e f, h.config, h.resolver, h.kept, h.suspended, h.allowance, h.resting.notify e⟩

/-- Both read the same raw token. -/
theorem readToken (h : Mirrors g w v l m) {x : Option String}
    (hread : l.readToken = (.ok x, read)) :
    ∃ read', m.readToken = (.ok x, read') ∧ Mirrors g w v read read' := by
  obtain ⟨read', hread', halike⟩ := h.alike.readToken hread
  have hsame := SameStack.of_readToken hread
  have hsame' := SameStack.of_readToken hread'
  refine ⟨read', hread', halike, ?_, ?_, ?_, ?_, ?_, (settled_readToken h.resting hread).resting⟩
  · exact ⟨hsame.config.trans h.config.1, hsame'.config.trans h.config.2⟩
  · exact hsame'.resolver.trans (h.resolver.trans hsame.resolver.symm)
  · rw [hsame.resolver]
    exact h.kept
  · rw [hsame'.suspended, hsame.suspended]
    exact h.suspended
  · rw [hsame'.allowance, hsame.allowance]
    exact h.allowance

/-- Both go on with the same suspended source. -/
theorem resume (h : Mirrors g w v l m) (parent : Source) (rest : List Source) :
    Mirrors g w v (l.resume parent rest) (m.resume parent (rest ++ g.below)) where
  alike := h.alike.resume parent rest _
  config := by simpa [Lexer.resume] using h.config
  resolver := by simpa [Lexer.resume] using h.resolver
  kept := by simpa [Lexer.resume] using h.kept
  suspended := by simp [Lexer.resume]
  allowance := by simpa [Lexer.resume] using h.allowance
  resting := h.resting.resume parent rest

/-- Both go on with the same included source. -/
theorem pushSource (h : Mirrors g w v l m) (stream : Stream) (origin : Option Path) :
    Mirrors g w v (l.pushSource stream origin) (m.pushSource stream origin) where
  alike := h.alike.pushSource stream origin
  config := by simpa [Lexer.pushSource] using h.config
  resolver := by simpa [Lexer.pushSource] using h.resolver
  kept := by simpa [Lexer.pushSource] using h.kept
  suspended := by simp [Lexer.pushSource, h.suspended, h.alike.source]
  allowance := by simpa [Lexer.pushSource] using h.allowance
  resting := h.resting.pushSource stream origin

/-- Both ask for the same name, met in the same file. -/
theorem asking (h : Mirrors g w v l m) (name : String) :
    Mirrors g w v (l.asking name) (m.asking name) where
  alike := h.alike.asking name name
  config := h.config
  resolver := by simp [Lexer.asking, Lexer.origin, h.resolver, h.alike.source]
  kept := h.kept.imp_right fun ⟨hsame, hforgets⟩ => ⟨by rw [Lexer.asking, hsame, hforgets], hforgets⟩
  suspended := h.suspended
  allowance := h.allowance
  resting := h.resting.asking name

/-- Both include what the same name stands for, unless the first has used up its allowance. -/
theorem openInclusion (h : Mirrors g w v l m) (name : String) :
    (∃ e l' m', l.openInclusion name = (.error e, l') ∧ m.openInclusion name = (.error e, m') ∧
        Mirrors g w v l' m') ∨
      (∃ l' m', l.openInclusion name = (.ok (), l') ∧ m.openInclusion name = (.ok (), m') ∧
        Mirrors g w v l' m') ∨
      l.openInclusion name = (.error (.inclusionLimit name), l.asking name) ∧ 0 < g.extra := by
  have hname : m.resolver.answer name m.origin = l.resolver.answer name l.origin := by
    rw [h.resolver, Lexer.origin, Lexer.origin, h.alike.source]
  have hasked := h.asking name
  unfold Lexer.openInclusion
  rw [hname, h.allowance]
  cases l.resolver.answer name l.origin with
  | error e => exact .inl ⟨e, _, _, rfl, rfl, hasked⟩
  | ok inclusion =>
    -- The second can go on where the first may include no more, so they part there.
    cases hleft : l.allowance with
    | zero =>
      rcases Nat.eq_zero_or_pos g.extra with hnone | hextra
      · rw [hnone]
        exact .inl ⟨_, _, _, rfl, rfl, hasked⟩
      · exact .inr (.inr ⟨rfl, hextra⟩)
    | succ left =>
      have hspent : Mirrors g w v ((l.asking name).allowing left)
          ((m.asking name).allowing (left + g.extra)) :=
        ⟨hasked.alike.allowing _ _, hasked.config, hasked.resolver, hasked.kept, hasked.suspended, rfl,
          hasked.resting.allowing left⟩
      rw [Nat.succ_add]
      exact .inr (.inl ⟨_, _, rfl, rfl, hspent.pushSource inclusion.stream inclusion.origin⟩)

/-- Both leave the same source, unless the first has none to go back to. -/
theorem leave (h : Mirrors g w v l m) (hdone : l.state = .done) (hwaiting : m.waiting = v) :
    TurnMirrors g w v l.leave m.leave := by
  cases hstack : l.suspended with
  | nil =>
    have hleave : l.leave = .ended ((l.setState .done).notify (.tokenEmitted none)) := by
      rw [Lexer.leave, hstack]
    rw [hleave]
    exact .ended h hstack hdone hwaiting
  | cons parent rest =>
    have hstack' : m.suspended = parent :: (rest ++ g.below) := by
      rw [h.suspended, hstack, List.cons_append]
    have hleave : l.leave = .passed (l.resume parent rest) := by rw [Lexer.leave, hstack]
    have hleave' : m.leave = .passed (m.resume parent (rest ++ g.below)) := by
      rw [Lexer.leave, hstack']
    rw [hleave, hleave']
    exact .passed (h.resume parent rest)

/-- Both read the same name behind the keyword. -/
theorem follow (h : Mirrors g w v l m) : TurnMirrors g w v l.follow m.follow := by
  unfold Lexer.follow
  rcases hread : l.readToken with ⟨e | _ | name, named⟩
  · obtain ⟨named', hread', -⟩ := h.alike.readToken hread
    rw [hread']
    refine .failed ?_
    intro hrefusal
    exact (not_isRefusal_of_run hread hrefusal).elim
  · obtain ⟨named', hread', hnamed⟩ := h.readToken hread
    rw [hread']
    exact .passed hnamed
  · obtain ⟨named', hread', hnamed⟩ := h.readToken hread
    rw [hread']
    dsimp only
    rcases hnamed.openInclusion name with ⟨e, a, b, ha, hb, hab⟩ | ⟨a, b, ha, hb, hab⟩ | ⟨ha, hextra⟩
    · rw [ha, hb]
      exact .failed fun _ => hab
    · rw [ha, hb]
      exact .passed hab
    · rw [ha]
      exact .limited hextra

/-- Both take the same turn. -/
theorem turn (h : Mirrors g w v l m) (hwaiting : l.waiting = w) :
    TurnMirrors g w v l.turn m.turn := by
  rcases hread : l.readToken with ⟨e | _ | token, read⟩
  · obtain ⟨read', hread', -⟩ := h.alike.readToken hread
    rw [turn_of_error hread, turn_of_error hread']
    refine .failed ?_
    intro hrefusal
    exact (not_isRefusal_of_run hread hrefusal).elim
  · obtain ⟨read', hread', hnext⟩ := h.readToken hread
    rw [turn_of_none hread, turn_of_none hread']
    -- Without a token nothing was put back, so the second still holds what it held before.
    obtain ⟨-, hended, -, -⟩ := settled_readToken h.resting hread
    obtain ⟨hdone, hsame⟩ := hended rfl
    obtain ⟨put, hput, hput'⟩ := hnext.alike.waiting
    rw [hsame, hwaiting, List.self_eq_append_left] at hput
    rw [hput, List.nil_append] at hput'
    exact hnext.leave hdone hput'
  · obtain ⟨read', hread', hnext⟩ := h.readToken hread
    have hconfig : read'.config = read.config := hnext.config.2.trans hnext.config.1.symm
    by_cases hkey : read.config.sourceKeyword = some token
    · rw [turn_of_keyword hread hkey, turn_of_keyword hread' (by rw [hconfig]; exact hkey)]
      exact hnext.follow
    · rw [turn_of_token hread hkey, turn_of_token hread' (by rw [hconfig]; exact hkey)]
      exact .handed (hnext.notify _ _)

/-- So they do when nothing was put back before. -/
theorem bare (h : Mirrors g w v l m) : Mirrors g [] [] l.bare m.bare :=
  ⟨⟨h.alike.rules, h.alike.source, h.alike.state, h.alike.token, h.alike.pending, [], rfl, rfl⟩,
    h.config, h.resolver, h.kept, h.suspended, h.allowance, h.resting.bare⟩

/-- Both have put back the same tokens, if none was put back before. -/
theorem waiting (h : Mirrors g [] [] l m) : m.waiting = l.waiting := by
  obtain ⟨put, hl, hm⟩ := h.alike.waiting
  rw [hl, hm]

end Mirrors

/-! ## The course on top of others -/

/-- A lexer that has just gone back to a suspended source, with at least this allowance. -/
structure Resumed (g : Ground) (parent : Source) (rest : List Source) (l : Lexer) : Prop where
  config : l.config = g.config
  resolver : l.resolver = g.resolver
  source : l.source = parent
  suspended : l.suspended = rest
  state : l.state = .start
  token : l.token = ""
  pending : l.pending = []
  allowance : g.extra ≤ l.allowance

/-- Whoever goes back to what is suspended below takes this course. -/
def Ground.Continues (g : Ground) (k : Yield (Signal (Except LexError String))) : Prop :=
  match g.below with
  | [] => k = .empty
  | parent :: rest => ∀ l : Lexer, l.Resumed g parent rest → l.course = k

/-- At the end of the first lexer the second goes on with what is suspended below. -/
theorem courseBehind_leave {g : Ground} {k : Yield (Signal (Except LexError String))} {a b : Lexer}
    (h : Mirrors g [] [] a b) (hsuspended : a.suspended = []) (hdone : a.state = .done)
    (hwaiting : b.waiting = []) (hk : g.Continues k) : courseBehind b.leave = k := by
  have hbelow : b.suspended = g.below := by rw [h.suspended, hsuspended, List.nil_append]
  -- A lexer at the end of its source has no character put back that could get to the next.
  have hpending : b.pending = [] := h.alike.pending.trans (h.resting.exhausted hdone).1
  unfold leave
  unfold Ground.Continues at hk
  rw [hbelow]
  cases hstack : g.below with
  | nil =>
    rw [hstack] at hk
    exact hk.symm
  | cons parent rest =>
    rw [hstack] at hk
    have hkept := h.kept.resolve_left (by simp [hstack])
    have hnone : (b.resume parent rest).waiting = [] := by simpa [resume] using hwaiting
    have hallowance : g.extra ≤ b.allowance := by
      rw [h.allowance]
      exact Nat.le_add_left ..
    show (b.resume parent rest).course.behind (putBack (b.resume parent rest).waiting) = k
    rw [hnone]
    refine hk _ ⟨?_, ?_, ?_, ?_, rfl, ?_, ?_, ?_⟩
    · simpa [resume] using h.config.2
    · simpa [resume] using h.resolver.trans hkept.1
    · simp [resume]
    · simp [resume]
    · simpa [resume] using h.alike.token.trans h.resting.token
    · simpa [resume] using hpending
    · simpa [resume] using hallowance

/-- The course of the second lexer is that of the first and then that of what is suspended below, provided
that the first does not use up its allowance. -/
theorem course_mirrors {g : Ground} {k : Yield (Signal (Except LexError String))} (l : Lexer) :
    ∀ {w v : List String} {m : Lexer}, Mirrors g w v l m →
      (l.course.failure = none ∨ g.extra = 0) → (l.course.failure = none → g.Continues k) →
      m.course = l.course.andThen k := by
  induction l using hasLess_induction with
  | step l ih =>
    intro w v m h hfailure hk
    have hspends := spends_turn l.bare
    have hturn := h.bare.turn rfl
    rw [course_eq l] at hfailure hk ⊢
    rw [course_eq m]
    generalize l.bare.turn = t at *
    generalize m.bare.turn = u at *
    cases hturn with
    | @failed e a b hab =>
      cases hrefusal : e.isRefusal with
      | true =>
        rw [courseBehind_of_refusal hrefusal] at hfailure hk ⊢
        have hrec := ih a (hspends hrefusal).of_bare (hab hrefusal) hfailure hk
        rw [courseBehind_of_refusal hrefusal, (hab hrefusal).waiting, hrec, Yield.behind_andThen]
      | false =>
        rw [courseBehind_of_failure hrefusal, courseBehind_of_failure hrefusal]
        rfl
    | limited hextra =>
      -- The first has used up its allowance, which was excluded.
      rw [courseBehind_of_failure rfl] at hfailure
      rcases hfailure with hnone | hzero
      · cases hnone
      · omega
    | ended hab hsuspended hdone hwaiting =>
      rw [courseBehind_leave hab hsuspended hdone hwaiting (hk rfl)]
      rfl
    | @handed token a b hab =>
      have hrec := ih a hspends.of_bare hab hfailure hk
      show b.course.behind (putBack b.waiting ++ [.out (.ok token)]) =
        (a.course.behind (putBack a.waiting ++ [.out (.ok token)])).andThen k
      rw [hab.waiting, hrec, Yield.behind_andThen]
    | @passed a b hab =>
      have hrec := ih a hspends.of_bare hab hfailure hk
      show b.course.behind (putBack b.waiting) = (a.course.behind (putBack a.waiting)).andThen k
      rw [hab.waiting, hrec, Yield.behind_andThen]

end ShellWords.Lexer
