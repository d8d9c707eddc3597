import ShellWords.Proofs.Inclusion.Within
import ShellWords.Proofs.Lexing.PutBack

/-!
# The end of the input

When a lexer says that there is no token, all its sources have ended and no character was put back. But tokens
may have been put back while it looked for one, and these come next (`AtEnd.nextToken_after`). So there may be
more behind the end of the input, and there is not exactly if no token was put back.

Under some options that is so for every text, every resolver and every allowance (`EndsForGood`). `endsForGood_iff`
says which: those that put no token back, and those whose keyword is no token that can be read.
-/

namespace ShellWords

/-- Whether an operation adds to what a lexer has to read. -/
def Op.adds : Op → Bool
  | .pushToken _ => true
  | .pushSource _ _ => true
  | _ => false

namespace Lexer

variable {l m : Lexer} {waiting : List String}

/-! ## Behind the end -/

/-- A lexer has come to the end of its last source, and these tokens were put back. -/
structure AtEnd (l : Lexer) (waiting : List String) : Prop where
  state : l.state = .done
  token : l.token = ""
  suspended : l.suspended = []
  exhausted : l.Exhausted
  waiting : l.waiting = waiting

/-- Whatever it tells, a lexer at the end stays there. -/
theorem AtEnd.notify (h : l.AtEnd waiting) (e : Event) : (l.notify e).AtEnd waiting :=
  ⟨h.state, h.token, h.suspended, h.exhausted, h.waiting⟩

/-- A lexer that says that there is no token is at the end. -/
theorem Reached.atEnd (h : l.Reached) (hnext : l.nextToken = (.ok none, m)) : m.AtEnd m.waiting := by
  obtain ⟨hconsistent, hended⟩ := h.consistent.nextToken hnext
  obtain ⟨hstate, htoken, hsuspended⟩ := hended rfl
  exact ⟨hstate, htoken, hsuspended, hconsistent.done hstate, rfl⟩

/-- There is no more raw token. -/
theorem AtEnd.readToken (h : l.AtEnd waiting) :
    ∃ m, l.readToken = (.ok none, m) ∧ m.AtEnd waiting := by
  have hread : l.readToken = _ := run_of_done h.state
  rw [finish_of_not_isToken (by simp [Rules.isToken])] at hread
  exact ⟨_, hread, h.state, rfl, h.suspended, h.exhausted, h.waiting⟩

/-- The tokens that were put back are handed out. -/
theorem AtEnd.nextToken_cons {token : String} (h : l.AtEnd (token :: waiting)) :
    ∃ m, l.nextToken = (.ok (some token), m) ∧ m.AtEnd waiting :=
  ⟨_, nextToken_of_waiting h.waiting, h.state, h.token, h.suspended, h.exhausted, rfl⟩

/-- Without them, there is no token. -/
theorem AtEnd.nextToken_nil (h : l.AtEnd []) : ∃ m, l.nextToken = (.ok none, m) ∧ m.AtEnd [] := by
  obtain ⟨read, hread, hended⟩ := h.readToken
  rw [nextToken_of_no_waiting h.waiting, search_of_ended hread hended.suspended,
    setState_of_state hended.state]
  exact ⟨_, rfl, hended.notify _⟩

/-- They are handed out one by one, and then there is no token. -/
theorem AtEnd.nextToken_after (h : l.AtEnd waiting) (n : Nat) :
    (l.after (List.replicate n .nextToken)).nextToken.1 = .ok waiting[n]? := by
  induction n generalizing l waiting with
  | zero =>
    cases waiting with
    | nil =>
      obtain ⟨m, hnext, -⟩ := h.nextToken_nil
      exact congrArg Prod.fst hnext
    | cons token waiting =>
      obtain ⟨m, hnext, -⟩ := h.nextToken_cons
      exact congrArg Prod.fst hnext
  | succ n ih =>
    have hafter : l.after (List.replicate (n + 1) .nextToken) =
        l.nextToken.2.after (List.replicate n .nextToken) := rfl
    rw [hafter]
    cases waiting with
    | nil =>
      obtain ⟨m, hnext, hended⟩ := h.nextToken_nil
      simpa [hnext] using ih hended
    | cons token waiting =>
      obtain ⟨m, hnext, hended⟩ := h.nextToken_cons
      simpa [hnext] using ih hended

/-- With no token put back, no operation leads away from the end unless it adds something. -/
theorem AtEnd.perform (h : l.AtEnd []) {op : Op} (hop : op.adds = false) : (op.perform l).AtEnd [] := by
  obtain ⟨m, hnext, hended⟩ := h.nextToken_nil
  cases op with
  | nextToken =>
    show l.nextToken.2.AtEnd []
    rwa [hnext]
  | readToken =>
    obtain ⟨read, hread, hended⟩ := h.readToken
    show l.readToken.2.AtEnd []
    rwa [hread]
  | hasNext =>
    show l.hasNext.2.AtEnd []
    rwa [hasNext, hnext]
  | iterate =>
    show l.iterate.2.AtEnd []
    rw [iterate, hnext]
    split
    · exact h
    · exact hended
  | pushToken token => cases hop
  | pushSource stream origin => cases hop
  | popSource =>
    show l.popSource.2.AtEnd []
    rwa [popSource, h.suspended]
  | close => exact ⟨rfl, h.token, rfl, ⟨rfl, rfl⟩, rfl⟩

/-- So it stays there whatever is asked of it, if nothing is added. -/
theorem AtEnd.after (h : l.AtEnd []) {ops : List Op} (hops : ∀ op ∈ ops, op.adds = false) :
    (l.after ops).AtEnd [] := by
  induction ops generalizing l with
  | nil => exact h
  | cons op ops ih =>
    rw [List.forall_mem_cons] at hops
    exact ih (h.perform hops.1) hops.2

/-- The end is final exactly if no token was put back. -/
theorem AtEnd.final_iff (h : l.AtEnd waiting) :
    (∀ ops : List Op, (∀ op ∈ ops, op.adds = false) → (l.after ops).nextToken.1 = .ok none) ↔
      waiting = [] := by
  constructor
  · intro hfinal
    cases waiting with
    | nil => rfl
    | cons token waiting =>
      obtain ⟨m, hnext, -⟩ := h.nextToken_cons
      have hnone : l.nextToken.1 = .ok none := hfinal [] (by simp)
      simp [hnext] at hnone
  · rintro rfl ops hops
    obtain ⟨m, hnext, -⟩ := (h.after hops).nextToken_nil
    rw [hnext]

/-! ## When the end is final -/

/-- Under these options, for every text and every resolver, and however much may be included, the end of the input
is the end: nothing is left when a lexer says that there is no token, and whatever else it is asked, it says so
again. -/
def EndsForGood (config : Config) : Prop :=
  ∀ (resolver : Resolver) (text : String) (allowance n : Nat) (m : Lexer),
    (((ofText config resolver text).allowing allowance).after (List.replicate n .nextToken)).nextToken =
        (.ok none, m) →
      m.suspended = [] ∧ m.pending = [] ∧ m.waiting = [] ∧
        ∀ ops : List Op, (∀ op ∈ ops, op.adds = false) → (m.after ops).nextToken.1 = .ok none

/-- It is so as soon as no token is ever left. -/
theorem endsForGood_of_waiting {config : Config}
    (h : ∀ (resolver : Resolver) (text : String) (allowance n : Nat) (m : Lexer),
      (((ofText config resolver text).allowing allowance).after (List.replicate n .nextToken)).nextToken =
          (.ok none, m) →
        m.waiting = []) : EndsForGood config := by
  intro resolver text allowance n m hnext
  have hmade : ((ofText config resolver text).allowing allowance).Reached := .made config resolver _ _ allowance
  have hended := (hmade.after _).atEnd hnext
  have hwaiting := h resolver text allowance n m hnext
  exact ⟨hended.suspended, hended.exhausted.1, hwaiting, hended.final_iff.2 hwaiting⟩

/-- The options under which it is so. -/
theorem endsForGood_iff (config : Config) :
    EndsForGood config ↔ config.whitespaceSplit = true ∨ config.punctuation.isActive = true ∨
      ∀ keyword, config.sourceKeyword = some keyword → ¬ Readable config keyword := by
  constructor
  · intro hgood
    by_cases hsplit : config.whitespaceSplit = true
    · exact .inl hsplit
    by_cases hactive : config.punctuation.isActive = true
    · exact .inr (.inl hactive)
    refine .inr (.inr ?_)
    intro keyword hkey hreadable
    obtain ⟨text, m, hnext, hleft⟩ :=
      exists_left_behind (by simpa using hactive) (by simpa using hsplit) hkey hreadable
    obtain ⟨-, -, hnone, -⟩ := hgood includingNothing text defaultAllowance 0 m hnext
    simp [hleft] at hnone
  · intro hoptions
    refine endsForGood_of_waiting ?_
    intro resolver text allowance n m hnext
    have hkept (hkeeps : (Rules.ofConfig config).classes.punctuationActive = true ∨
        (Rules.ofConfig config).whitespaceSplit = true) : m.waiting = [] := by
      have hwaiting := waiting_nextTokens (l := (ofText config resolver text).allowing allowance) hkeeps rfl rfl n
      rwa [hnext] at hwaiting
    cases hactive : config.punctuation.isActive with
    | true => exact hkept (.inl hactive)
    | false =>
      rcases hoptions with hsplit | htrue | habsent
      · exact hkept (.inr hsplit)
      · exact (Bool.false_ne_true (hactive.symm.trans htrue)).elim
      · have hreads : ((ofText config resolver text).allowing allowance).Reads text.toList
            (1 + text.toList.count '\n') :=
          ⟨text.toList, Stream.ofText_eq_ofChars text, rfl, Nat.zero_le _, rfl⟩
        have hresting := (resting_ofSource config resolver ⟨.ofText text, none, 1⟩).allowing allowance
        have hin : ((ofText config resolver text).allowing allowance).InText config :=
          ⟨rfl, rfl, .inl ⟨hresting, rfl, _, _, hreads⟩⟩
        exact hin.nextTokens hactive habsent n hnext

/-- When a lexer in use says that there is no token, no source is suspended and no character was put back. What
it returns from then on are the tokens that were put back, and then nothing more, so the end is final exactly
if there are none. This is so for every text, every resolver and every allowance exactly under the options that
make words end at white space only, that have operators, or whose keyword cannot be read. -/
theorem end_of_input (config : Config) :
    (∀ l m : Lexer, l.Reached → l.config = config → l.nextToken = (.ok none, m) →
      m.suspended = [] ∧ m.pending = [] ∧
        (∀ n, (m.after (List.replicate n .nextToken)).nextToken.1 = .ok m.waiting[n]?) ∧
        ((∀ ops : List Op, (∀ op ∈ ops, op.adds = false) → (m.after ops).nextToken.1 = .ok none) ↔
          m.waiting = [])) ∧
    (EndsForGood config ↔ config.whitespaceSplit = true ∨ config.punctuation.isActive = true ∨
      ∀ keyword, config.sourceKeyword = some keyword → ¬ Readable config keyword) := by
  refine ⟨?_, endsForGood_iff config⟩
  intro l m hreached _ hnext
  have hended := hreached.atEnd hnext
  exact ⟨hended.suspended, hended.exhausted.1, hended.nextToken_after, hended.final_iff⟩

set_option maxRecDepth 4000 in
/-- The keyword, the name of an empty file and a colon are read as nothing, and the colon is put back. -/
theorem nextToken_colon : (ofText earlyInclusion includingNothing "source inc:").nextToken =
    (.ok none, { ofText earlyInclusion includingNothing "" with
      state := .done, waiting := [":"], allowance := defaultAllowance - 1 }) :=
  nextToken_of_nextTokenWithin (n := 20) rfl

/-- So there is no token at first, and then there is the colon. -/
theorem end_of_input_colon :
    (∃ m, (ofText earlyInclusion includingNothing "source inc:").nextToken = (.ok none, m) ∧
      m.nextToken.1 = .ok (some ":")) ∧ ¬ EndsForGood earlyInclusion := by
  have hread : (ofText earlyInclusion Resolver.refusing "source").readToken =
      (.ok (some "source"), { ofText earlyInclusion Resolver.refusing "" with state := .done }) :=
    run_of_runWithin 10 rfl
  have hbehind := (end_of_input earlyInclusion).1 _ _ (reached_ofSource ..) rfl nextToken_colon
  refine ⟨⟨_, nextToken_colon, hbehind.2.2.1 0⟩, ?_⟩
  rw [(end_of_input earlyInclusion).2]
  rintro (hsplit | hactive | habsent)
  · cases hsplit
  · cases hactive
  · exact habsent "source" rfl ⟨_, _, hread⟩

/-- After it has been said that there is no token, one is returned. -/
theorem colon_behind_the_end :
    (ofText earlyInclusion includingNothing "source inc:").nextToken.1 = .ok none ∧
      (ofText earlyInclusion includingNothing "source inc:").nextToken.2.nextToken.1 = .ok (some ":") := by
  rw [nextToken_colon]
  exact ⟨rfl, rfl⟩

end Lexer
end ShellWords
