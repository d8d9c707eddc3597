import ShellWords.Proofs.Lexing.Invariant

/-!
# Inclusions of finite depth

A source that includes itself can keep a lexer busy for ever, and only its allowance ends that. Where inclusions nest
to a finite depth the allowance does not matter, as long as it is large enough. So the depth is that of a lexer whose
allowance never runs out (`Lexer.freeTurn`): `Lexer.NestsInCall` says of one call, and `Lexer.Nests` of one call after
another, that no more sources than so many are ever suspended.

How deep inclusions nest depends on the resolver, which may remember what it was asked: a file that includes itself
nests to a finite depth if it is found only so many times. `Resolver.NestsWithin` bounds the depth by what the resolver
would include, whatever it has been asked, and that is a bound for every lexer that asks it
(`Lexer.nests_of_nestsWithin`).
-/

namespace ShellWords

namespace Resolver

/-- What is left of a resolver once it has answered all these requests, the first of them first. -/
def afterAll (r : Resolver) (requests : List Request) : Resolver :=
  fun name current earlier => r name current (requests ++ earlier)

/-- What is included from this file, and from files that are included there, is suspended at most so many deep. -/
def NestsWithin : Nat → Resolver → Option Path → Prop
  | 0, r, current => ∀ name earlier inclusion, r name current earlier ≠ .ok inclusion
  | n + 1, r, current => ∀ name earlier inclusion, r name current earlier = .ok inclusion →
    NestsWithin n (r.afterAll (earlier ++ [⟨name, current⟩])) inclusion.origin

/-- Requests come one after another. -/
theorem afterAll_afterAll (r : Resolver) (requests more : List Request) :
    (r.afterAll requests).afterAll more = r.afterAll (requests ++ more) := by
  funext name current earlier
  simp only [afterAll, List.append_assoc]

/-- A resolver that has been asked more includes nothing that it could not have included before. -/
theorem NestsWithin.afterAll {n : Nat} {r : Resolver} {current : Option Path} (h : r.NestsWithin n current)
    (requests : List Request) : (r.afterAll requests).NestsWithin n current := by
  cases n with
  | zero => exact fun name earlier => h name (requests ++ earlier)
  | succ n =>
    intro name earlier inclusion hanswer
    rw [afterAll_afterAll, ← List.append_assoc]
    exact h name (requests ++ earlier) inclusion hanswer

/-- Nor does one more request add anything. -/
theorem NestsWithin.after {n : Nat} {r : Resolver} {current : Option Path} (h : r.NestsWithin n current)
    (name : String) (asked : Option Path) : (r.after name asked).NestsWithin n current :=
  h.afterAll [⟨name, asked⟩]

/-- The sources of a stack that come from these files, the innermost first, will have no more than so many below
them, and nor will those that are included from there. -/
def StackWithin (depth : Nat) (r : Resolver) : List (Option Path) → Prop
  | [] => True
  | current :: below =>
    (∃ n, below.length + n ≤ depth ∧ r.NestsWithin n current) ∧ r.StackWithin depth below

variable {depth : Nat} {r : Resolver} {name : String} {current : Option Path} {below : List (Option Path)}

/-- One more request leaves a stack as deep as it was. -/
theorem StackWithin.after {origins : List (Option Path)} (h : r.StackWithin depth origins) (name : String)
    (asked : Option Path) : (r.after name asked).StackWithin depth origins := by
  induction origins with
  | nil => trivial
  | cons current below ih =>
    obtain ⟨⟨n, hn, hnests⟩, hbelow⟩ := h
    exact ⟨⟨n, hn, hnests.after name asked⟩, ih hbelow⟩

/-- What is included on top of a stack stays within its depth. -/
theorem StackWithin.push {inclusion : Inclusion} (h : r.StackWithin depth (current :: below))
    (hanswer : r.answer name current = .ok inclusion) :
    (r.after name current).StackWithin depth (inclusion.origin :: current :: below) := by
  refine ⟨?_, h.after name current⟩
  obtain ⟨⟨n, hn, hnests⟩, -⟩ := h
  cases n with
  | zero => exact (hnests name [] inclusion hanswer).elim
  | succ n =>
    refine ⟨n, ?_, hnests name [] inclusion hanswer⟩
    rw [List.length_cons]
    omega

/-- A stack whose sources nest to this depth has room for it. -/
theorem stackWithin_of_nestsWithin {n : Nat} {origins : List (Option Path)}
    (h : ∀ origin ∈ origins, r.NestsWithin n origin) (hdepth : origins.length + n ≤ depth + 1) :
    r.StackWithin depth origins := by
  induction origins with
  | nil => trivial
  | cons current below ih =>
    rw [List.length_cons] at hdepth
    rw [List.forall_mem_cons] at h
    exact ⟨⟨n, by omega, h.1⟩, ih h.2 (by omega)⟩

end Resolver

namespace Lexer

/-- The next turn of a search in which one more source may always be included. -/
def freeTurn (l : Lexer) : Turn := (l.allowing 1).turn

/-- Where reading token after token has come to. -/
inductive Moment where
  /-- The next call has not begun. -/
  | between (l : Lexer)
  /-- A call is under way. -/
  | searching (l : Lexer)

/-- The lexer at this moment. -/
def Moment.lexer : Moment → Lexer
  | between l | searching l => l

/-- What comes next while token after token is read and sources may always be included. After an error, and after
the end of the input, nothing does. -/
inductive Moment.Step : Moment → Moment → Prop where
  /-- A token that waits is returned. -/
  | waiting {l : Lexer} {token : String} {rest : List String} (h : l.waiting = token :: rest) :
    Step (.between l) (.between (notify { l with waiting := rest } (.tokenEmitted (some token))))
  /-- A call begins to search, where no token waits. -/
  | call {l : Lexer} (h : l.waiting = []) : Step (.between l) (.searching l)
  /-- A turn has found no token, and the search goes on. -/
  | passed {l m : Lexer} (h : l.freeTurn = .passed m) : Step (.searching l) (.searching m)
  /-- A turn has found a token, which is returned. -/
  | handed {l m : Lexer} {token : String} (h : l.freeTurn = .handed token m) :
    Step (.searching l) (.between m)

/-- From this moment on, no more sources than so many are ever suspended. -/
def Nests (depth : Nat) (moment : Moment) : Prop :=
  ∀ later, Relation.ReflTransGen Moment.Step moment later → later.lexer.depth ≤ depth

/-- In the search for one token, no more sources than so many are ever suspended. -/
def NestsInCall (depth : Nat) (l : Lexer) : Prop :=
  ∀ m, Relation.ReflTransGen (fun k next => k.freeTurn = .passed next) l m → m.depth ≤ depth

/-- The inclusions in all sources of this lexer nest at most so deep, whatever its resolver is asked. -/
def NestsWithin (n : Nat) (l : Lexer) : Prop := ∀ s ∈ l.source :: l.suspended, l.resolver.NestsWithin n s.origin

variable {depth n : Nat} {l m : Lexer} {moment next : Moment}

/-- What nests to this depth does so after each step. -/
theorem Nests.step (h : Nests depth moment) (hstep : moment.Step next) : Nests depth next :=
  fun later hlater => h later (.head hstep hlater)

/-- What nests to this depth does so after each turn. -/
theorem NestsInCall.passed (h : NestsInCall depth l) (hturn : l.freeTurn = .passed m) : NestsInCall depth m :=
  fun later hlater => h later (.head hturn hlater)

/-- The search of a call is a part of reading token after token. -/
theorem Nests.inCall (h : Nests depth (.searching l)) : NestsInCall depth l := by
  intro m hm
  refine h (.searching m) ?_
  induction hm with
  | refl => exact .refl
  | tail _ hturn ih => exact ih.tail (.passed hturn)

/-! ## What a resolver would include -/

/-- The files that the sources of a lexer come from, the innermost first. -/
def origins (l : Lexer) : List (Option Path) := l.origin :: l.suspended.map Source.origin

/-- The sources of a lexer will have no more than so many below them. -/
def StaysWithin (depth : Nat) (l : Lexer) : Prop := l.resolver.StackWithin depth l.origins

/-- So there are no more. -/
theorem StaysWithin.depth_le (h : l.StaysWithin depth) : l.depth ≤ depth := by
  obtain ⟨⟨n, hn, -⟩, -⟩ := h
  rw [List.length_map] at hn
  exact Nat.le_of_add_right_le hn

/-- Reading a raw token leaves the stack as it is. -/
theorem StaysWithin.readToken {x : Except LexError (Option String)} (h : l.StaysWithin depth)
    (hread : l.readToken = (x, m)) : m.StaysWithin depth := by
  have hsame := SameStack.of_readToken hread
  have horigin := run_origin l.rules l false
  rw [← Lexer.readToken, hread] at horigin
  have horigins : m.origins = l.origins := by
    rw [origins, origins, hsame.suspended]
    exact congrArg (· :: _) horigin
  unfold StaysWithin
  rw [hsame.resolver, horigins]
  exact h

/-- Going back to a source that was suspended leaves the rest of the stack. -/
theorem StaysWithin.resume {parent : Source} {rest : List Source} (h : l.StaysWithin depth)
    (hsuspended : l.suspended = parent :: rest) : (l.resume parent rest).StaysWithin depth := by
  have hbelow := h.2
  rw [hsuspended] at hbelow
  unfold StaysWithin
  rw [origins, resume_eq_switch, switch_resolver, origin, switch_source, switch_suspended]
  exact hbelow

/-- An included source goes on top of the stack. -/
theorem StaysWithin.openInclusion {name : String} (h : l.StaysWithin depth)
    (hopen : l.openInclusion name = (.ok (), m)) : m.StaysWithin depth := by
  rcases openInclusion_cases hopen with ⟨e, hok, -⟩ | ⟨inclusion, left, hanswer, -, -, rfl⟩
  · cases hok
  · have hstack : l.resolver.StackWithin depth (l.origin :: l.suspended.map Source.origin) := h
    have hpushed := hstack.push hanswer
    unfold StaysWithin
    rw [origins, pushSource_eq_switch, switch_resolver, origin, switch_source, switch_suspended]
    exact hpushed

/-- Every turn that a search goes on after keeps a stack within its depth. -/
theorem StaysWithin.of_passed (h : l.StaysWithin depth) (hturn : l.freeTurn = .passed m) :
    m.StaysWithin depth := by
  have hfree : (l.allowing 1).StaysWithin depth := h
  rcases passed_cases hturn with ⟨read, parent, rest, hraw, hsuspended, rfl⟩ | ⟨keyword, read, hraw, hname⟩ |
    ⟨keyword, read, name, named, hraw, hname, hopen⟩
  · exact (hfree.readToken hraw).resume hsuspended
  · exact (hfree.readToken hraw).readToken hname
  · exact ((hfree.readToken hraw).readToken hname).openInclusion hopen

/-- So does one that hands out a token. -/
theorem StaysWithin.of_handed {token : String} (h : l.StaysWithin depth)
    (hturn : l.freeTurn = .handed token m) : m.StaysWithin depth := by
  have hfree : (l.allowing 1).StaysWithin depth := h
  obtain ⟨read, hraw, rfl⟩ := handed_cases hturn
  have hread : read.StaysWithin depth := hfree.readToken hraw
  exact hread

/-- And so does every step of reading token after token. -/
theorem StaysWithin.step (h : moment.lexer.StaysWithin depth) (hstep : moment.Step next) :
    next.lexer.StaysWithin depth := by
  cases hstep with
  | waiting _ => exact h
  | call _ => exact h
  | passed hturn => exact h.of_passed hturn
  | handed hturn => exact h.of_handed hturn

/-- Where all sources of a lexer nest to a finite depth whatever the resolver is asked, the lexer does so, in every
call and in one call after another. -/
theorem nests_of_nestsWithin (h : l.NestsWithin n) :
    NestsInCall (l.depth + n) l ∧ Nests (l.depth + n) (.between l) := by
  have horigins : ∀ origin ∈ l.origins, l.resolver.NestsWithin n origin := by
    intro origin horigin
    obtain ⟨s, hs, rfl⟩ := List.mem_map.1 (show origin ∈ (l.source :: l.suspended).map Source.origin from horigin)
    exact h s hs
  have hstays : l.StaysWithin (l.depth + n) := by
    refine Resolver.stackWithin_of_nestsWithin horigins ?_
    rw [origins, List.length_cons, List.length_map]
    exact Nat.le_of_eq (Nat.add_right_comm ..)
  have hnests (moment : Moment) (hmoment : moment.lexer.StaysWithin (l.depth + n)) : Nests (l.depth + n) moment := by
    intro later hlater
    refine StaysWithin.depth_le ?_
    induction hlater with
    | refl => exact hmoment
    | tail _ hstep ih => exact ih.step hstep
  exact ⟨(hnests (.searching l) hstays).inCall, hnests (.between l) hstays⟩

end Lexer
end ShellWords
