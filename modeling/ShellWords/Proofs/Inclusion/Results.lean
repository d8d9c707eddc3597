import ShellWords.Proofs.Inclusion.Nesting

/-!
# The results of a lexer

`Lexer.results` is what repeated calls for the next token return, going on after a refused name and ending
at the end of the input or at any other error. `Lexer.onward` is the same for a call that is under way.
Both are the course of the lexer with the tokens that were put back in the places where the calls hand them
out: a call that begins hands out what waits, and one that is under way does not (`onward_eq_flushed`,
`results_eq_flushed`).
-/

namespace ShellWords

/-- What is handed out, when some results wait already. -/
def Yield.flushed {α : Type} (waiting : List α) (c : Yield (Signal α)) : Yield α :=
  ⟨flush waiting c.items, c.failure⟩

/-- What is handed out at once stays as it is. -/
theorem Yield.flushed_outs {α : Type} (y : Yield α) : y.outs.flushed [] = y := by
  unfold flushed outs
  rw [flush_out]

namespace Lexer

/-- A refused name leaves less to do. -/
theorem hasLess_of_refused_search (l : Lexer) : ∀ {e : LexError} {after : Lexer},
    l.search = (.error e, after) → e.isRefusal = true → HasLess after l := by
  induction l using hasLess_induction with
  | step l ih =>
    intro e after h hrefusal
    have hspends := spends_turn l
    rw [search_eq_turn] at h
    generalize l.turn = t at *
    cases t with
    | failed f a =>
      obtain ⟨he, rfl⟩ := Prod.mk.inj h
      rw [Except.error.inj he] at hspends
      exact hspends hrefusal
    | ended a => simp at h
    | handed token a => simp at h
    | passed a => exact (ih a hspends h hrefusal).trans hspends

/-- A call that refuses a name leaves less to do. -/
theorem hasLess_of_refused {l after : Lexer} {e : LexError} (h : l.nextToken = (.error e, after))
    (hrefusal : e.isRefusal = true) : HasLess after l := by
  unfold nextToken at h
  split at h
  · simp at h
  · exact hasLess_of_refused_search l h hrefusal

/-- All results of calling for the next token again and again. After a refused name there may be more, and
after any other error there is none. -/
def results (l : Lexer) : Yield (Except LexError String) :=
  match _h : l.nextToken with
  | (.error e, after) =>
    if _hrefusal : e.isRefusal then after.results.behind [.error e] else ⟨[], some e⟩
  | (.ok none, _) => .empty
  | (.ok (some token), after) => after.results.behind [.ok token]
termination_by (l.allowance, l.workload)
decreasing_by
  · exact (hasLess_of_refused _h _hrefusal).lex
  · exact (hasLess_of_nextToken _h).lex

/-- All results from the end of a call on. -/
def resultsBehind : Except LexError (Option String) × Lexer → Yield (Except LexError String)
  | (.error e, after) => if e.isRefusal then after.results.behind [.error e] else ⟨[], some e⟩
  | (.ok none, _) => .empty
  | (.ok (some token), after) => after.results.behind [.ok token]

/-- The results are that of the next call and those of the calls after it. -/
theorem results_eq (l : Lexer) : l.results = resultsBehind l.nextToken := by
  rw [results]
  split <;> rename_i h <;> rw [h]
  · rename_i e after
    by_cases hrefusal : e.isRefusal = true
    · simp [resultsBehind, hrefusal]
    · simp [resultsBehind, hrefusal]
  · rfl
  · rfl

/-- All results of a call that is under way, and of the calls after it. -/
def onward (l : Lexer) : Yield (Except LexError String) := resultsBehind l.search

variable {l : Lexer}

/-- A lexer that mirrors one that rests does rest. -/
theorem Mirrors.resting' {g : Ground} {w v : List String} {l m : Lexer} (h : Mirrors g w v l m) :
    m.Resting := by
  refine ⟨h.alike.token.trans h.resting.token, h.alike.pending ▸ h.resting.held, ?_⟩
  rw [h.alike.state]
  rcases h.resting.state with hstart | ⟨hdone, hend⟩
  · exact .inl hstart
  · refine .inr ⟨hdone, h.alike.pending.trans hend.1, ?_⟩
    rw [h.alike.source]
    exact hend.2

/-- What a turn hands out comes before what waits, and what was put back before that. -/
theorem flushed_handed {g : Ground} {v : List String} {a b : Lexer} (h : Mirrors g [] v a b)
    (x : Except LexError String) (c : Yield (Signal (Except LexError String))) :
    (c.behind (putBack a.waiting ++ [.out x])).flushed (v.map .ok) =
      ((c.flushed []).behind (b.waiting.map .ok)).behind [x] := by
  obtain ⟨put, ha, hb⟩ := h.alike.waiting
  rw [List.append_nil] at ha
  have hitems : flush (v.map Except.ok) (putBack put ++ [.out x] ++ c.items) =
      x :: ((put ++ v).map .ok ++ flush [] c.items) := by
    rw [putBack, List.append_assoc, flush_held, List.map_append]
    rfl
  unfold Yield.flushed Yield.behind
  rw [ha, hb, hitems]
  rfl

/-- The results of a lexer are its course, flushed: a call under way leaves what waits where it is, and a new
call hands it out first. -/
structure Flushes (l : Lexer) : Prop where
  onward : l.onward = l.course.flushed (l.waiting.map .ok)
  results : l.results = (l.course.flushed []).behind (l.waiting.map .ok)

/-- A call under way goes on with a lexer that has less to do. -/
theorem onward_of_less (h : l.Resting) (ih : ∀ m, HasLess m l → m.Resting → m.Flushes) :
    l.onward = l.course.flushed (l.waiting.map .ok) := by
  have hbare : Mirrors (.level l.config l.resolver) [] l.waiting l.bare l :=
    ⟨⟨rfl, rfl, rfl, rfl, rfl, [], rfl, rfl⟩, ⟨rfl, rfl⟩, rfl, .inl rfl, (List.append_nil _).symm, rfl, h.bare⟩
  have hturn := hbare.turn rfl
  have hspends := spends_turn l
  rw [onward, search_eq_turn, course_eq l]
  generalize l.bare.turn = t at *
  generalize l.turn = u at *
  cases hturn with
  | @failed e a b hab =>
    cases hrefusal : e.isRefusal with
    | true =>
      -- A refused name is handed out, and what waits comes with the next call.
      have hflushes := ih b (hspends hrefusal) (hab hrefusal).resting'
      rw [courseBehind_of_refusal hrefusal, flushed_handed (hab hrefusal),
        ← (hab hrefusal).course_eq, ← hflushes.results]
      simp [resultsBehind, hrefusal]
    | false =>
      rw [courseBehind_of_failure hrefusal]
      simp [resultsBehind, hrefusal, Yield.flushed, flush]
  | limited hextra => exact (Nat.lt_irrefl 0 hextra).elim
  | @ended a b c hab hsuspended hdone hwaiting =>
    have hstack : b.suspended = [] := by
      rw [hab.suspended, hsuspended]
      rfl
    unfold leave
    rw [hstack]
    rfl
  | @handed token a b hab =>
    have hflushes := ih b hspends hab.resting'
    show b.results.behind [.ok token] = _
    rw [courseBehind, flushed_handed hab, ← hab.course_eq, ← hflushes.results]
  | @passed a b hab =>
    -- The call goes on, so what the turn has put back waits in front of what waited before.
    have hflushes := ih b hspends hab.resting'
    obtain ⟨put, ha, hb⟩ := hab.alike.waiting
    rw [List.append_nil] at ha
    show b.onward = (a.course.behind (putBack a.waiting)).flushed (l.waiting.map .ok)
    rw [hflushes.onward, hab.course_eq]
    unfold Yield.flushed Yield.behind
    rw [ha, hb, putBack, flush_held, List.map_append]

/-- A new call is under way at once where nothing waits. -/
theorem results_of_less (h : l.Resting) (ih : ∀ m, HasLess m l → m.Resting → m.Flushes)
    (honward : l.onward = l.course.flushed (l.waiting.map .ok)) :
    l.results = (l.course.flushed []).behind (l.waiting.map .ok) := by
  cases hwaiting : l.waiting with
  | nil =>
    rw [results_eq, nextToken_of_no_waiting hwaiting]
    rw [hwaiting] at honward
    exact honward
  | cons token rest =>
    have hnext := nextToken_of_waiting hwaiting
    have hplace : SamePlace l (notify { l with waiting := rest } (.tokenEmitted (some token))) :=
      ⟨rfl, rfl, rfl, rfl, rfl, rfl, h, h.token, h.held, h.state⟩
    have hflushes := ih _ (hasLess_of_nextToken hnext) hplace.resting'
    rw [results_eq, hnext]
    show Yield.behind [.ok token] (results _) = _
    rw [hflushes.results, hplace.course_eq, Yield.behind_behind]
    rfl

/-- The results of a lexer that rests are its course, flushed. -/
theorem flushes_of_resting (l : Lexer) : l.Resting → l.Flushes := by
  induction l using hasLess_induction with
  | step l ih =>
    intro h
    have honward := onward_of_less h ih
    exact ⟨honward, results_of_less h ih honward⟩

/-- The results of a call under way leave what waits to the next call. -/
theorem onward_eq_flushed (h : l.Resting) : l.onward = l.course.flushed (l.waiting.map .ok) :=
  (flushes_of_resting l h).onward

/-- The results of a new call begin with what waits. -/
theorem results_eq_flushed (h : l.Resting) :
    l.results = (l.course.flushed []).behind (l.waiting.map .ok) :=
  (flushes_of_resting l h).results

/-- The results of a lexer are these with any allowance that is large enough. -/
def Delivers (l : Lexer) (y : Yield (Except LexError String)) : Prop :=
  ∃ bound, ∀ allowance, bound ≤ allowance → (l.allowing allowance).results = y

/-- The results of a lexer from a call under way on are these with any allowance that is large enough. -/
def DeliversOnward (l : Lexer) (y : Yield (Except LexError String)) : Prop :=
  ∃ bound, ∀ allowance, bound ≤ allowance → (l.allowing allowance).onward = y

/-- There is one list of results that a lexer delivers. -/
theorem Delivers.unique {y z : Yield (Except LexError String)} (hy : l.Delivers y)
    (hz : l.Delivers z) : y = z := by
  obtain ⟨m, hm⟩ := hy
  obtain ⟨n, hn⟩ := hz
  rw [← hm (m + n) (by omega), ← hn (m + n) (by omega)]

/-- A lexer delivers the course that it takes, flushed. -/
theorem Runs.delivers {c : Yield (Signal (Except LexError String))} (h : l.Resting) (hc : l.Runs c) :
    l.Delivers ((c.flushed []).behind (l.waiting.map .ok)) := by
  obtain ⟨bound, hbound⟩ := hc
  refine ⟨bound, ?_⟩
  intro allowance hallowance
  rw [results_eq_flushed (h.allowing allowance), hbound allowance hallowance]
  rfl

/-- In a call under way, what waits is handed out behind the next result. -/
theorem Runs.deliversOnward {c : Yield (Signal (Except LexError String))} (h : l.Resting)
    (hc : l.Runs c) : l.DeliversOnward (c.flushed (l.waiting.map .ok)) := by
  obtain ⟨bound, hbound⟩ := hc
  refine ⟨bound, ?_⟩
  intro allowance hallowance
  rw [onward_eq_flushed (h.allowing allowance), hbound allowance hallowance]
  rfl

end Lexer
end ShellWords
