import ShellWords.Lexer.RawToken

/-!
# Tokens

`Lexer.nextToken` returns the tokens of all sources: what was put back first, then the tokens of the
current source, and those of the source it was read in front of when it ends. The source keyword is
replaced by what it includes. `hasNext`, `iterate` and `words` are built on it.

Every turn either uses up an inclusion or leaves less work, so the search for a token ends
(`workload_resume_lt`).
-/

namespace ShellWords.Lexer

/-- Where the stack is the same, less work on the current source is less work in all. -/
theorem workload_lt {l m : Lexer} (h : SameStack l m) (hw : m.work < l.work) :
    m.workload < l.workload := by
  simp only [workload, h.suspended]
  omega

/-- And no more work on it is no more in all. -/
theorem workload_le {l m : Lexer} (h : SameStack l m) (hw : m.work ≤ l.work) :
    m.workload ≤ l.workload := by
  simp only [workload, h.suspended]
  omega

/-- Going on with a suspended source leaves less work. -/
theorem workload_resume_lt {l : Lexer} {parent : Source} {rest : List Source}
    (h : l.suspended = parent :: rest) : (l.resume parent rest).workload < l.workload := by
  have hone : State.start.rank = 1 := rfl
  simp only [workload, work, remaining, resume, setState_source, setState_pending, setState_state,
    setState_suspended, setState_waiting, notify_source, notify_pending, notify_suspended,
    notify_waiting, h, List.foldr_cons, hone]
  omega

/-- Going back to a suspended source does not change the allowance. -/
theorem allowance_resume (l : Lexer) (parent : Source) (rest : List Source) :
    (l.resume parent rest).allowance = l.allowance := by
  simp [resume]

/-- A source that is included uses up a part of the allowance. -/
theorem allowance_lt_of_openInclusion {l m : Lexer} {name : String}
    (h : l.openInclusion name = (.ok (), m)) : m.allowance < l.allowance := by
  unfold openInclusion at h
  split at h
  · cases h
  · split at h
    · cases h
    · rename_i left hleft
      simp only [Prod.mk.injEq, true_and] at h
      simp [← h, pushSource, hleft]

/-- Searches the sources for the next token. -/
def search (l : Lexer) : Except LexError (Option String) × Lexer :=
  match _hraw : l.readToken with
  | (.error e, read) => (.error e, read)
  | (.ok (some token), read) =>
    if read.config.sourceKeyword = some token then
      -- The name has to stand in the source of the keyword; without one, the keyword stands for nothing.
      match _hname : read.readToken with
      | (.error e, named) => (.error e, named)
      | (.ok none, named) => named.search
      | (.ok (some name), named) =>
        match _hopen : named.openInclusion name with
        | (.error e, opened) => (.error e, opened)
        | (.ok (), opened) => opened.search
    else (.ok (some token), read.notify (.tokenEmitted (some token)))
  | (.ok none, read) =>
    match _hstack : read.suspended with
    | parent :: rest => (read.resume parent rest).search
    | [] => (.ok none, (read.setState .done).notify (.tokenEmitted none))
termination_by (l.allowance, l.workload)
decreasing_by
  -- The keyword was the last token of its source, and its characters are gone.
  · have h₁ := l.sameStack_readToken
    have h₂ := read.sameStack_readToken
    rw [_hraw] at h₁
    rw [_hname] at h₂
    have hle := read.work_readToken_le
    rw [_hname] at hle
    have hlt := work_lt_of_readToken _hraw
    rw [← (h₁.trans h₂).allowance]
    exact .right _ (workload_lt (h₁.trans h₂) (Nat.lt_of_le_of_lt hle hlt))
  -- A source was included, which uses up a part of the allowance.
  · have h₁ := l.sameStack_readToken
    have h₂ := read.sameStack_readToken
    rw [_hraw] at h₁
    rw [_hname] at h₂
    have hlt := allowance_lt_of_openInclusion _hopen
    rw [(h₁.trans h₂).allowance] at hlt
    exact .left _ _ hlt
  -- A source ended, and the suspended one is worth less once it is current.
  · have h₁ := l.sameStack_readToken
    have hle := l.work_readToken_le
    rw [_hraw] at h₁ hle
    rw [allowance_resume, ← h₁.allowance]
    exact .right _ (Nat.lt_of_lt_of_le (workload_resume_lt _hstack) (workload_le h₁ hle))

/-- Returns the next token: the one put back last, or else the next of the sources. There is none at
the end of the input. -/
def nextToken (l : Lexer) : Except LexError (Option String) × Lexer :=
  match l.waiting with
  | token :: rest =>
    (.ok (some token), { l with waiting := rest }.notify (.tokenEmitted (some token)))
  | [] => l.search

/-- Whether there is another token. It is read and put back. -/
def hasNext (l : Lexer) : Except LexError Bool × Lexer :=
  match l.nextToken with
  | (.error e, m) => (.error e, m)
  | (.ok none, m) => (.ok false, m)
  | (.ok (some token), m) => (.ok true, m.pushToken token)

/-- The next item of the iteration over the tokens: a token, or the error that ends the iteration. -/
def iterate (l : Lexer) : Option (Except LexError String) × Lexer :=
  if l.halted then (none, l)
  else
    match l.nextToken with
    | (.error e, m) => (some (.error e), { m with halted := true })
    | (.ok none, m) => (none, m)
    | (.ok (some token), m) => (some (.ok token), m)

/-! ## All tokens -/

/-- How an attempt to read many tokens ended. -/
inductive Stop where
  /-- There are no more. -/
  | ended
  /-- There may be more, but enough have been read. -/
  | limited
  /-- The next one could not be read. -/
  | failed (e : LexError)
  deriving DecidableEq, Repr

/-- Reads at most so many tokens. -/
def collect (l : Lexer) : (limit : Nat) → List String × Stop × Lexer
  | 0 => ([], .limited, l)
  | limit + 1 =>
    match l.nextToken with
    | (.error e, m) => ([], .failed e, m)
    | (.ok none, m) => ([], .ended, m)
    | (.ok (some token), m) =>
      let (tokens, stop, n) := m.collect limit
      (token :: tokens, stop, n)

/-- Whether a lexer has less left to do than another: fewer inclusions, or as many and less work. -/
def HasLess (m l : Lexer) : Prop :=
  m.allowance < l.allowance ∨ m.allowance = l.allowance ∧ m.workload < l.workload

/-- One thing less to do after another is less to do. -/
theorem HasLess.trans {l m n : Lexer} (h : HasLess n m) (k : HasLess m l) : HasLess n l := by
  unfold HasLess at *
  omega

/-- Once a token is found there is less left to do. -/
theorem hasLess_of_search {l m : Lexer} {t : String} (h : l.search = (.ok (some t), m)) :
    HasLess m l := by
  fun_induction search l with
  | case1 l e read hraw => cases h
  | case2 l token read hraw hkey e named hname => cases h
  | case3 l token read hraw hkey named hname ih =>
    have h₁ := l.sameStack_readToken
    have h₂ := read.sameStack_readToken
    have hle := read.work_readToken_le
    rw [hraw] at h₁
    rw [hname] at h₂ hle
    have hlt := Nat.lt_of_le_of_lt hle (work_lt_of_readToken hraw)
    exact (ih h).trans (.inr ⟨(h₁.trans h₂).allowance, workload_lt (h₁.trans h₂) hlt⟩)
  | case4 l token read hraw hkey name named hname e opened hopen => cases h
  | case5 l token read hraw hkey name named hname opened hopen ih =>
    have h₁ := l.sameStack_readToken
    have h₂ := read.sameStack_readToken
    rw [hraw] at h₁
    rw [hname] at h₂
    have hlt := allowance_lt_of_openInclusion hopen
    rw [(h₁.trans h₂).allowance] at hlt
    exact (ih h).trans (.inl hlt)
  | case6 l token read hraw hkey =>
    have h₁ := l.sameStack_readToken
    rw [hraw] at h₁
    simp only [Prod.mk.injEq] at h
    have hlt : read.workload < l.workload := workload_lt h₁ (work_lt_of_readToken hraw)
    rw [← h.2]
    exact .inr ⟨h₁.allowance, hlt⟩
  | case7 l read hraw parent rest hstack ih =>
    have h₁ := l.sameStack_readToken
    have hle := l.work_readToken_le
    rw [hraw] at h₁ hle
    refine (ih h).trans (.inr ⟨?_, ?_⟩)
    · rw [allowance_resume, h₁.allowance]
    · exact Nat.lt_of_lt_of_le (workload_resume_lt hstack) (workload_le h₁ hle)
  | case8 l read hraw hstack => cases h

/-- Once a token is returned there is less left to do. -/
theorem hasLess_of_nextToken {l m : Lexer} {t : String} (h : l.nextToken = (.ok (some t), m)) :
    HasLess m l := by
  unfold nextToken at h
  split at h
  · rename_i token rest hwait
    simp only [Prod.mk.injEq] at h
    rw [← h.2]
    have hwork : ({ l with waiting := rest } : Lexer).work + 1 = l.work := by
      simp [work, remaining, hwait, Nat.add_assoc]
    exact .inr ⟨rfl, workload_lt ⟨rfl, rfl, rfl, rfl, rfl⟩ (by
      rw [← hwork]
      exact Nat.lt_succ_self _)⟩
  · exact hasLess_of_search h

/-- All tokens up to the end of the input, after those that have been read, the last of them first; or
the first error. -/
def wordsAfter (read : List String) (l : Lexer) : Except LexError (List String) :=
  match _h : l.nextToken with
  | (.error e, _) => .error e
  | (.ok none, _) => .ok read.reverse
  | (.ok (some token), m) => wordsAfter (token :: read) m
termination_by (l.allowance, l.workload)
decreasing_by
  rcases hasLess_of_nextToken _h with hlt | ⟨heq, hlt⟩
  · exact .left _ _ hlt
  · rw [← heq]
    exact .right _ hlt

/-- All tokens up to the end of the input, or the first error. -/
def words (l : Lexer) : Except LexError (List String) := wordsAfter [] l

/-- One call for the next token, and the others behind it. -/
theorem wordsAfter_unfold (read : List String) (l : Lexer) :
    wordsAfter read l = match l.nextToken with
      | (.error e, _) => .error e
      | (.ok none, _) => .ok read.reverse
      | (.ok (some token), m) => wordsAfter (token :: read) m := by
  rw [wordsAfter]
  split <;> rename_i h <;> simp [h]

/-- The tokens that were read before come first in the end. -/
theorem wordsAfter_append (read more : List String) (l : Lexer) :
    wordsAfter (read ++ more) l = (wordsAfter read l).map (more.reverse ++ ·) := by
  fun_induction wordsAfter read l with
  | case1 read l e m h => rw [wordsAfter_unfold, h]; rfl
  | case2 read l m h => rw [wordsAfter_unfold, h]; simp [Except.map]
  | case3 read l token m h ih => rw [wordsAfter_unfold, h]; exact ih

/-- The tokens are the next one and the tokens after it. -/
theorem words_eq (l : Lexer) :
    l.words = match l.nextToken with
      | (.error e, _) => .error e
      | (.ok none, _) => .ok []
      | (.ok (some token), m) => m.words.map (token :: ·) := by
  rw [words, wordsAfter_unfold]
  split
  · rfl
  · rfl
  · rename_i token m _
    simpa [words] using wordsAfter_append [] [token] m

end ShellWords.Lexer
