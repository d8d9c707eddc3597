import Mathlib.Data.DFinsupp.WellFounded
import ShellWords.Proofs.Inclusion.Depth
import ShellWords.Proofs.Inclusion.Runs

/-!
# Reading ends where inclusions nest to a finite depth

An included source may be of any length, so including it can leave a lexer with more to read than before. But it goes
on top of a source that has lost the keyword and the name for it. So of what the sources are worth, the outermost first
(`Lexer.levels`), the first number that a turn changes goes down (`below_of_passed`, `below_of_handed`), and lists of
bounded length do not go down for ever (`wellFounded_below`).

Each turn is that of a lexer with an allowance, if that is not used up (`Twin.freeTurn`). So by induction on the levels
a search returns the same with every allowance that is large enough (`exists_search`), and so does reading token after
token (`finishesSometime_searching`, `finishesSometime_between`).
-/

namespace ShellWords.Lexer

variable {depth : Nat} {r : Rules} {l m read : Lexer} {e : LexError} {token : String}

/-! ## What the sources are worth -/

/-- What is left of the current source is worth this, leaving aside what waits. -/
def worth (l : Lexer) : Nat := 3 * l.remaining + l.state.rank

/-- The same of a suspended source. It is worth more than when it is read again, and less than it was before the
keyword and the name that it is suspended for. -/
def worthOf (s : Source) : Nat := 2 * (3 * s.unread + 1) + 1

/-- What the sources are worth, the outermost first. -/
def levels (l : Lexer) : List Nat := l.suspended.reverse.map worthOf ++ [2 * l.worth]

/-- There is one number for each source. -/
theorem length_levels (l : Lexer) : l.levels.length = l.depth + 1 := by
  simp [levels, Lexer.depth]

/-- The first list has the smaller number where the two differ first. -/
def Below (xs ys : List Nat) : Prop :=
  ∃ same x y xs' ys', xs = same ++ x :: xs' ∧ ys = same ++ y :: ys' ∧ x < y

/-- Lists of bounded length do not go down for ever. -/
theorem wellFounded_below (n : Nat) : WellFounded fun xs ys : List Nat => xs.length ≤ n ∧ Below xs ys := by
  have hlex : WellFounded (Pi.Lex (· < ·) fun {_} => (· < ·) : (Fin n → Nat) → (Fin n → Nat) → Prop) :=
    Pi.Lex.wellFounded _ fun _ => wellFounded_lt
  refine Subrelation.wf ?_ (InvImage.wf (fun xs (i : Fin n) => xs.getD i 0) hlex)
  rintro _ _ ⟨hlength, same, x, y, xs, ys, rfl, rfl, hlt⟩
  have hplace : same.length < n := by
    rw [List.length_append, List.length_cons] at hlength
    omega
  refine ⟨⟨same.length, hplace⟩, fun i hi => ?_, ?_⟩
  · have hi : (i : Nat) < same.length := hi
    simp [List.getElem?_append_left hi]
  · simpa using hlt

/-- What lexers do that suspend no more sources than so many can be proved from what those do that are below. -/
theorem below_induction (depth : Nat) {motive : Lexer → Prop}
    (step : ∀ l, (∀ m, m.depth ≤ depth → Below m.levels l.levels → motive m) → motive l) (l : Lexer) : motive l := by
  induction l using (InvImage.wf levels (wellFounded_below (depth + 1))).induction with
  | _ l ih =>
    refine step l fun m hdepth hbelow => ih m ⟨?_, hbelow⟩
    rw [length_levels]
    omega

/-! ## What a turn is worth -/

/-- Tokens are only added to those that wait. -/
theorem waiting_readToken_le {x : Except LexError (Option String)} (h : l.readToken = (x, m)) :
    l.waiting.length ≤ m.waiting.length := by
  have hself : Alike l.waiting l.waiting l l := ⟨rfl, rfl, rfl, rfl, rfl, [], rfl, rfl⟩
  obtain ⟨_, _, halike⟩ := hself.readToken h
  obtain ⟨put, hput, -⟩ := halike.waiting
  rw [hput, List.length_append]
  exact Nat.le_add_left ..

/-- A raw token leaves the source with less. -/
theorem worth_lt_of_readToken (h : l.readToken = (.ok (some token), m)) : m.worth < l.worth := by
  have hwork := work_lt_of_readToken h
  have hwaiting := waiting_readToken_le h
  unfold work at hwork
  unfold worth
  omega

/-- Without a token it has no more than before. -/
theorem worth_readToken_le {x : Except LexError (Option String)} (h : l.readToken = (x, m)) : m.worth ≤ l.worth := by
  have hwork := l.work_readToken_le
  have hwaiting := waiting_readToken_le h
  rw [h] at hwork
  have hwork : m.work ≤ l.work := hwork
  unfold work at hwork
  unfold worth
  omega

/-- A lexer goes down where only its current source has lost something. -/
theorem below_of_worth_lt (hsuspended : m.suspended = l.suspended) (hworth : m.worth < l.worth) :
    Below m.levels l.levels :=
  ⟨_, _, _, [], [], by rw [levels, hsuspended], rfl, Nat.mul_lt_mul_of_pos_left hworth Nat.two_pos⟩

/-- A lexer goes down when it leaves a source that has ended. -/
theorem below_of_left {parent : Source} {rest : List Source} (hsuspended : l.suspended = parent :: rest)
    (hpending : read.pending = []) : Below (read.resume parent rest).levels l.levels := by
  refine ⟨rest.reverse.map worthOf, 2 * (3 * parent.unread + 1), worthOf parent, [], [2 * l.worth], ?_, ?_, ?_⟩
  · simp [levels, worth, remaining, resume_eq_switch, hpending, State.rank]
  · simp [levels, hsuspended]
  · exact Nat.lt_succ_self _

/-- A lexer goes down when it includes a source, for the source that is suspended has lost two tokens. -/
theorem below_of_opened {name : String} (hsuspended : read.suspended = l.suspended)
    (hworth : read.worth + 2 ≤ l.worth) (hopen : read.openInclusion name = (.ok (), m)) :
    Below m.levels l.levels := by
  rcases openInclusion_cases hopen with ⟨e, hok, -⟩ | ⟨inclusion, left, -, -, -, rfl⟩
  · cases hok
  · set opened := ((read.asking name).allowing left).pushSource inclusion.stream inclusion.origin with hopened
    have hstack : opened.suspended = read.source :: l.suspended := by
      rw [hopened, pushSource_eq_switch, switch_suspended, ← hsuspended]
      rfl
    refine ⟨l.suspended.reverse.map worthOf, worthOf read.source, 2 * l.worth, [2 * opened.worth], [], ?_, rfl, ?_⟩
    · simp [levels, hstack]
    · have hunread : 3 * read.source.unread ≤ read.worth := by
        unfold worth remaining
        omega
      unfold worthOf
      omega

/-- A turn after which a search goes on takes a lexer down. -/
theorem below_of_passed (h : l.Consistent r) (hturn : l.freeTurn = .passed m) : Below m.levels l.levels := by
  have hfree := h.allowing 1
  rcases passed_cases hturn with ⟨read, parent, rest, hraw, hsuspended, rfl⟩ | ⟨keyword, read, hraw, hname⟩ |
    ⟨keyword, read, name, named, hraw, hname, hopen⟩
  · obtain ⟨hread, hended⟩ := hfree.readToken hraw
    refine below_of_left ((SameStack.of_readToken hraw).suspended.symm.trans hsuspended) ?_
    exact (hread.done ((hended none rfl).2 rfl)).1
  · have hless : read.worth < l.worth := worth_lt_of_readToken (l := l.allowing 1) hraw
    refine below_of_worth_lt ?_ (Nat.lt_of_le_of_lt (worth_readToken_le hname) hless)
    exact (SameStack.of_readToken hname).suspended.trans (SameStack.of_readToken hraw).suspended
  · have hless : read.worth < l.worth := worth_lt_of_readToken (l := l.allowing 1) hraw
    have hless' : named.worth < read.worth := worth_lt_of_readToken hname
    refine below_of_opened ?_ (by omega) hopen
    exact (SameStack.of_readToken hname).suspended.trans (SameStack.of_readToken hraw).suspended

/-- And so does one that hands out a token. -/
theorem below_of_handed (hturn : l.freeTurn = .handed token m) : Below m.levels l.levels := by
  obtain ⟨read, hraw, rfl⟩ := handed_cases hturn
  have hless : read.worth < l.worth := worth_lt_of_readToken (l := l.allowing 1) hraw
  exact below_of_worth_lt (m := read.notify _) (SameStack.of_readToken hraw).suspended hless

/-! ## Errors -/

/-- The error does not say that too many sources were included, unless the resolver may say so. -/
def Genuine (resolver : Resolver) (e : LexError) : Prop :=
  ∀ name, e = .inclusionLimit name → ∃ name' current earlier, resolver name' current earlier = .error e

/-- What is an error of a resolver that has been asked more could have been one before. -/
theorem Genuine.of_after {resolver : Resolver} {name : String} {current : Option Path}
    (h : Genuine (resolver.after name current) e) : Genuine resolver e := by
  intro limit he
  obtain ⟨name', current', earlier, hanswer⟩ := h limit he
  exact ⟨name', current', ⟨name, current⟩ :: earlier, hanswer⟩

/-- Behind a turn there are no new errors. -/
theorem Genuine.of_turn (l : Lexer) :
    l.freeTurn.Leaves fun after => ∀ e, Genuine after.resolver e → Genuine l.resolver e :=
  resolver_turn (P := fun resolver => ∀ e, Genuine resolver e → Genuine l.resolver e)
    (fun _ _ _ h e he => h e he.of_after) (fun _ he => he)

/-- While sources may always be included, no turn fails for the reason that they may not. -/
theorem genuine_of_failed (hturn : l.freeTurn = .failed e m) : Genuine l.resolver e := by
  intro limit he
  rcases failed_cases hturn with ⟨n, hread⟩ | ⟨keyword, read, name, named, hraw, hname, hopen⟩
  · rcases error_of_run hread with ⟨cause, rfl⟩ | ⟨origin, line, rfl⟩
    · cases he
    · cases he
  · have hsame := (SameStack.of_readToken hraw).trans (SameStack.of_readToken hname)
    have hallowance : named.allowance = 1 := hsame.allowance
    have hresolver : named.resolver = l.resolver := hsame.resolver
    unfold openInclusion at hopen
    split at hopen
    · rename_i f hanswer
      obtain rfl := Except.error.inj (Prod.mk.inj hopen).1
      exact ⟨name, named.origin, [], hresolver ▸ hanswer⟩
    · rw [hallowance] at hopen
      cases (Prod.mk.inj hopen).1

/-! ## A call for the next token -/

/-- What is returned is no error of a lexer that may include no more. -/
def Unlimited (resolver : Resolver) (x : Except LexError (Option String)) : Prop :=
  ∀ e, x = .error e → Genuine resolver e

/-- A call for the next token comes to an end: it returns this with any allowance that is large enough. -/
def Returns (l : Lexer) (x : Except LexError (Option String)) : Prop :=
  Unlimited l.resolver x ∧ ∃ bound, ∀ allowance, bound ≤ allowance → (l.allowing allowance).nextToken.1 = x

/-- A twin that may include one more source takes the turn of a lexer that may always. -/
theorem Twin.freeTurn (h : Twin l m) (hallowed : 1 ≤ m.allowance) :
    TurnWider (m.allowance - 1) l.freeTurn m.turn := by
  have hwider : Wider (m.allowance - 1) (l.allowing 1) m :=
    .of_twin ⟨h.alike.allowing 1 m.allowance, h.config, h.resolver, h.suspended⟩ (by simp; omega)
  exact hwider.turn (.inl Nat.one_pos)

/-- What a search of this lexer comes to where a lexer that it is a twin of takes this turn, if that uses up no more
than one inclusion. -/
def Finds (m : Lexer) : Turn → Prop
  | .failed e _ => m.search.1 = .error e
  | .ended _ => m.search.1 = .ok none
  | .handed token after => ∃ n, m.search = (.ok (some token), n) ∧ Twin after n ∧ m.allowance ≤ n.allowance + 1
  | .passed after => ∃ n, m.search = n.search ∧ Twin after n ∧ m.allowance ≤ n.allowance + 1

/-- So its search fails, ends, returns a token or goes on like that of the other. -/
theorem Twin.finds (h : Twin l m) (hallowed : 1 ≤ m.allowance) : m.Finds l.freeTurn := by
  have hleft {a b : Lexer} (hn : Wider (m.allowance - 1) a b) : m.allowance ≤ b.allowance + 1 := by
    rw [hn.allowance]
    omega
  have hwider := h.freeTurn hallowed
  have hsearch := m.search_eq_turn
  generalize l.freeTurn = t, m.turn = t' at hwider hsearch
  cases hwider with
  | failed _ => exact congrArg Prod.fst hsearch
  | ended _ => exact congrArg Prod.fst hsearch
  | handed hn => exact ⟨_, hsearch, hn.toTwin, hleft hn⟩
  | passed hn => exact ⟨_, hsearch, hn.toTwin, hleft hn⟩

/-- All twins of a lexer with an allowance that is large enough find the same. -/
theorem exists_search (l : Lexer) : l.Consistent r → NestsInCall depth l →
    ∃ x bound, Unlimited l.resolver x ∧ ∀ m, Twin l m → bound ≤ m.allowance → m.search.1 = x := by
  induction l using below_induction depth with
  | step l ih =>
    intro h hnests
    -- One inclusion is enough for this turn.
    have hfinds (m : Lexer) (hm : Twin l m) (hallowed : 1 ≤ m.allowance) := hm.finds hallowed
    cases hturn : l.freeTurn with
    | failed e after =>
      rw [hturn] at hfinds
      exact ⟨.error e, 1, by rintro _ ⟨⟩; exact genuine_of_failed hturn, hfinds⟩
    | ended after =>
      rw [hturn] at hfinds
      exact ⟨.ok none, 1, by rintro _ ⟨⟩, hfinds⟩
    | handed token after =>
      rw [hturn] at hfinds
      refine ⟨.ok (some token), 1, by rintro _ ⟨⟩, fun m hm hallowed => ?_⟩
      obtain ⟨n, hsearch, -, -⟩ := hfinds m hm hallowed
      rw [hsearch]
    | passed after =>
      have hrest := hnests.passed hturn
      obtain ⟨x, bound, hgenuine, hx⟩ :=
        ih after (hrest after .refl) (below_of_passed h hturn) ((h.allowing 1).of_passed hturn) hrest
      have hturns := Genuine.of_turn l
      rw [hturn] at hturns hfinds
      refine ⟨x, bound + 1, fun e he => hturns e (hgenuine e he), fun m hm hallowed => ?_⟩
      obtain ⟨n, hsearch, hn, hleft⟩ := hfinds m hm (Nat.le_of_add_left_le hallowed)
      rw [hsearch]
      exact hx n hn (by omega)

/-- A call returns, whatever the lexer has been through before. -/
theorem exists_returns (h : l.Consistent r) (hnests : NestsInCall depth l) : ∃ x, l.Returns x := by
  cases hwaiting : l.waiting with
  | cons token rest =>
    refine ⟨.ok (some token), by rintro _ ⟨⟩, 0, ?_⟩
    intro allowance _
    rw [nextToken_of_waiting (l := l.allowing allowance) hwaiting]
  | nil =>
    obtain ⟨x, bound, hgenuine, hx⟩ := exists_search l h hnests
    refine ⟨x, hgenuine, bound, ?_⟩
    intro allowance hallowed
    rw [nextToken_of_no_waiting (l := l.allowing allowance) hwaiting]
    exact hx _ (.of_allowing l allowance) hallowed

/-! ## One call after another -/

/-- What is collected from a call on that has come to this, if at most so many tokens are read behind it. -/
def gathered (x : Except LexError (Option String) × Lexer) (limit : Nat) : List String × Stop :=
  match x with
  | (.error e, _) => ([], .failed e)
  | (.ok none, _) => ([], .ended)
  | (.ok (some token), after) => (token :: (after.collect limit).1, (after.collect limit).2.1)

/-- What is collected is the next token and what is gathered behind it. -/
theorem collect_succ (l : Lexer) (limit : Nat) :
    ((l.collect (limit + 1)).1, (l.collect (limit + 1)).2.1) = gathered l.nextToken limit := by
  rw [collect]
  rcases l.nextToken with ⟨e | _ | token, after⟩
  · rfl
  · rfl
  · rfl

/-- Nothing is gathered where a call fails. -/
theorem gathered_of_error {x : Except LexError (Option String) × Lexer} (h : x.1 = .error e) (limit : Nat) :
    gathered x limit = ([], .failed e) := by
  obtain ⟨x, after⟩ := x
  obtain rfl : x = .error e := h
  rfl

/-- Nor is anything at the end of the input. -/
theorem gathered_of_none {x : Except LexError (Option String) × Lexer} (h : x.1 = .ok none) (limit : Nat) :
    gathered x limit = ([], .ended) := by
  obtain ⟨x, after⟩ := x
  obtain rfl : x = .ok none := h
  rfl

/-- What a lexer that stands at this moment comes to next. -/
def Moment.resultOf : Moment → Lexer → Except LexError (Option String) × Lexer
  | between _, m => m.nextToken
  | searching _, m => m.search

/-- From this moment on, these tokens are read, and then there are no more or an error comes that is not about the
allowance: whatever is allowed, if it is enough. -/
structure Finishes (moment : Moment) (bound : Nat) (tokens : List String) (stop : Stop) : Prop where
  stops : stop ≠ .limited
  unlimited : ∀ e, stop = .failed e → Genuine moment.lexer.resolver e
  reads : ∀ m, Twin moment.lexer m → bound ≤ m.allowance → ∀ limit, tokens.length ≤ limit →
    gathered (moment.resultOf m) limit = (tokens, stop)

/-- Reading comes to an end from this moment on. -/
def FinishesSometime (moment : Moment) : Prop := ∃ bound tokens stop, Finishes moment bound tokens stop

/-- A token that is returned comes before those that are read from then on. -/
theorem Finishes.gathered_cons {bound limit : Nat} {tokens : List String} {stop : Stop}
    (h : Finishes (.between l) bound tokens stop) (hm : Twin l m) (hallowed : bound ≤ m.allowance)
    (hlimit : (token :: tokens).length ≤ limit) :
    gathered (.ok (some token), m) limit = (token :: tokens, stop) := by
  obtain _ | limit := limit
  · cases hlimit
  have hrest := h.reads m hm hallowed limit (Nat.le_of_succ_le_succ hlimit)
  obtain ⟨htokens, hstop⟩ := Prod.mk.inj ((collect_succ m limit).trans hrest)
  rw [gathered, htokens, hstop]

/-- Between two calls it does if it does in the search of a call: what waits comes first. -/
theorem finishesSometime_between (waiting : List String) : ∀ {l : Lexer}, l.waiting = waiting → l.Consistent r →
    Nests depth (.between l) →
    (∀ m, m.levels = l.levels → m.Consistent r → Nests depth (.searching m) → FinishesSometime (.searching m)) →
    FinishesSometime (.between l) := by
  induction waiting with
  | nil =>
    intro l hwaiting h hnests hsearch
    obtain ⟨bound, tokens, stop, hfinishes⟩ := hsearch l rfl h (hnests.step (.call hwaiting))
    refine ⟨bound, tokens, stop, hfinishes.stops, hfinishes.unlimited, ?_⟩
    intro m hm hallowed limit hlimit
    show gathered m.nextToken limit = _
    rw [nextToken_of_no_waiting (hm.waiting.trans hwaiting)]
    exact hfinishes.reads m hm hallowed limit hlimit
  | cons token rest ih =>
    intro l hwaiting h hnests hsearch
    have hpopped : (notify { l with waiting := rest } (.tokenEmitted (some token))).Consistent r :=
      ⟨h.rules, h.held, h.pending, h.inRun, h.done⟩
    obtain ⟨bound, tokens, stop, hfinishes⟩ := ih rfl hpopped (hnests.step (.waiting hwaiting)) hsearch
    refine ⟨bound, token :: tokens, stop, hfinishes.stops, hfinishes.unlimited, ?_⟩
    intro m hm hallowed limit hlimit
    have hafter : Twin (notify { l with waiting := rest } (.tokenEmitted (some token)))
        (notify { m with waiting := rest } (.tokenEmitted (some token))) :=
      ⟨⟨hm.alike.rules, hm.alike.source, hm.alike.state, hm.alike.token, hm.alike.pending, rest,
        (List.append_nil _).symm, (List.append_nil _).symm⟩, hm.config, hm.resolver, hm.suspended⟩
    show gathered m.nextToken limit = _
    rw [nextToken_of_waiting (hm.waiting.trans hwaiting)]
    exact hfinishes.gathered_cons hafter hallowed hlimit

/-- Where inclusions nest to a finite depth, it does in the search of a call. -/
theorem finishesSometime_searching (l : Lexer) : l.Consistent r → Nests depth (.searching l) →
    FinishesSometime (.searching l) := by
  induction l using below_induction depth with
  | step l ih =>
    intro h hnests
    have hturns := Genuine.of_turn l
    have hfinds (m : Lexer) (hm : Twin l m) (hallowed : 1 ≤ m.allowance) := hm.finds hallowed
    cases hturn : l.freeTurn with
    | failed e after =>
      rw [hturn] at hfinds
      refine ⟨1, [], .failed e, by simp, by rintro _ ⟨⟩; exact genuine_of_failed hturn, ?_⟩
      intro m hm hallowed limit _
      exact gathered_of_error (hfinds m hm hallowed) limit
    | ended after =>
      rw [hturn] at hfinds
      refine ⟨1, [], .ended, by simp, by rintro _ ⟨⟩, ?_⟩
      intro m hm hallowed limit _
      exact gathered_of_none (hfinds m hm hallowed) limit
    | handed token after =>
      -- The token is returned, and the search of the next call begins below.
      have hbelow := below_of_handed hturn
      have hsearch : ∀ m, m.levels = after.levels → m.Consistent r → Nests depth (.searching m) →
          FinishesSometime (.searching m) :=
        fun m hlevels hm hnests' => ih m (hnests' _ .refl) (hlevels ▸ hbelow) hm hnests'
      obtain ⟨bound, tokens, stop, hfinishes⟩ := finishesSometime_between after.waiting rfl
        ((h.allowing 1).of_handed hturn) (hnests.step (.handed hturn)) hsearch
      rw [hturn] at hturns hfinds
      refine ⟨bound + 1, token :: tokens, stop, hfinishes.stops, fun e he => hturns e (hfinishes.unlimited e he), ?_⟩
      intro m hm hallowed limit hlimit
      obtain ⟨n, hsearch, hn, hleft⟩ := hfinds m hm (Nat.le_of_add_left_le hallowed)
      show gathered m.search limit = _
      rw [hsearch]
      exact hfinishes.gathered_cons hn (by omega) hlimit
    | passed after =>
      have hafter := hnests.step (.passed hturn)
      obtain ⟨bound, tokens, stop, hfinishes⟩ :=
        ih after (hafter _ .refl) (below_of_passed h hturn) ((h.allowing 1).of_passed hturn) hafter
      rw [hturn] at hturns hfinds
      refine ⟨bound + 1, tokens, stop, hfinishes.stops, fun e he => hturns e (hfinishes.unlimited e he), ?_⟩
      intro m hm hallowed limit hlimit
      obtain ⟨n, hsearch, hn, hleft⟩ := hfinds m hm (Nat.le_of_add_left_le hallowed)
      show gathered m.search limit = _
      rw [hsearch]
      exact hfinishes.reads n hn (by omega) limit hlimit

/-- So it does from the beginning of a call. -/
theorem Nests.finishes (hnests : Nests depth (.between l)) (h : l.Consistent r) : FinishesSometime (.between l) :=
  finishesSometime_between l.waiting rfl h hnests fun m _ => finishesSometime_searching m

end ShellWords.Lexer
