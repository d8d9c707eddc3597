import Mathlib.Control.Monad.Basic
import ShellWords.Proofs.Inclusion.Results

/-!
# Lexers that are watched for a while

The functions that read tokens go on as long as there is work, which no computation can look through.
`Lexer.runWithin`, `searchWithin` and `resultsWithin` do the same but give up after so many turns, so they
can be evaluated. What they find within these turns is what the functions themselves find
(`run_of_runWithin`, `search_of_searchWithin`, `results_of_resultsWithin`).
-/

namespace ShellWords
namespace Lexer

/-- One turn of a run: its outcome, or the lexer that it goes on with. -/
def runOnce (r : Rules) (l : Lexer) (quoted : Bool) :
    Except LexError (Option String) × Lexer ⊕ Lexer × Bool :=
  if l.state = .done then
    .inl (.ok (finish r quoted { l with token := "" }).1, (finish r quoted { l with token := "" }).2)
  else match l.takeChar with
    | (.error e, taken) => .inl (.error (.unreadable e), taken)
    | (.ok none, taken) =>
      let told := taken.notify (.charRead l.state none)
      if l.state.isOpen then .inl (.error (.unterminatedQuotation told.origin told.line), told)
      else .inl (.ok (finish r quoted (told.setState .done)).1,
        (finish r quoted (told.setState .done)).2)
    | (.ok (some c), taken) =>
      let m := r.move l.state l.token quoted c
      match (taken.notify (.charRead l.state (some c))).skipFor m with
      | (.error e, skipped) => .inl (.error (.unreadable e), skipped)
      | (.ok (), skipped) =>
        let next := skipped.apply m c
        if m.complete then .inl (.ok (finish r m.quoted next).1, (finish r m.quoted next).2)
        else .inr (next, m.quoted)

/-- Runs the automaton for at most so many turns. -/
def runWithin (r : Rules) : Nat → Lexer → Bool → Option (Except LexError (Option String) × Lexer)
  | 0, _, _ => none
  | n + 1, l, quoted =>
    match runOnce r l quoted with
    | .inl x => some x
    | .inr (next, quoted) => runWithin r n next quoted

/-- A run is one turn of the automaton and, unless that ends it, another run. -/
theorem run_eq_runOnce (r : Rules) (l : Lexer) (quoted : Bool) :
    run r l quoted = match runOnce r l quoted with
      | .inl x => x
      | .inr (next, quoted) => run r next quoted := by
  rw [run_eq]
  unfold runOnce
  by_cases hdone : l.state = .done
  · rw [if_pos hdone, if_pos hdone]
  rw [if_neg hdone, if_neg hdone]
  generalize l.takeChar = x
  obtain ⟨e | _ | c, taken⟩ := x
  · rfl
  · dsimp only
    cases l.state.isOpen <;> rfl
  · dsimp only
    generalize (taken.notify (.charRead l.state (some c))).skipFor (r.move l.state l.token quoted c) = y
    obtain ⟨e | u, skipped⟩ := y
    · rfl
    · dsimp only
      cases (r.move l.state l.token quoted c).complete <;> rfl

/-- What is found within some turns is what a run finds. -/
theorem run_of_runWithin {r : Rules} (n : Nat) : ∀ {l : Lexer} {quoted : Bool}
    {x : Except LexError (Option String) × Lexer},
    runWithin r n l quoted = some x → run r l quoted = x := by
  induction n with
  | zero =>
    intro l quoted x h
    cases h
  | succ n ih =>
    intro l quoted x h
    rw [run_eq_runOnce]
    unfold runWithin at h
    generalize runOnce r l quoted = once at h ⊢
    obtain y | ⟨next, quoted'⟩ := once
    · exact Option.some.inj h
    · exact ih h

/-- What becomes of a lexer that has read what follows the keyword. -/
def followed : Except LexError (Option String) × Lexer → Turn
  | (.error e, named) => .failed e named
  | (.ok none, named) => .passed named
  | (.ok (some name), named) =>
    match named.openInclusion name with
    | (.error e, opened) => .failed e opened
    | (.ok (), opened) => .passed opened

/-- Reads the name behind the keyword, within so many turns, and goes on with what it includes. -/
def followWithin (n : Nat) (l : Lexer) : Option Turn := (runWithin l.rules n l false).map followed

/-- One turn of the search, with so many turns for each raw token. -/
def turnWithin (n : Nat) (l : Lexer) : Option Turn :=
  match runWithin l.rules n l false with
  | none => none
  | some (.error e, read) => some (.failed e read)
  | some (.ok none, read) => some read.leave
  | some (.ok (some token), read) =>
    if read.config.sourceKeyword = some token then read.followWithin n
    else some (.handed token (read.notify (.tokenEmitted (some token))))

/-- What follows the keyword is what is found within some turns. -/
theorem follow_of_followWithin {n : Nat} {l : Lexer} {t : Turn} (h : l.followWithin n = some t) :
    l.follow = t := by
  obtain ⟨x, hrun, rfl⟩ := Option.map_eq_some_iff.1 h
  have hread : l.readToken = x := run_of_runWithin n hrun
  rw [← hread]
  rfl

/-- A turn is what is found within some turns. -/
theorem turn_of_turnWithin {n : Nat} {l : Lexer} {t : Turn} (h : l.turnWithin n = some t) :
    l.turn = t := by
  unfold turnWithin at h
  cases hrun : runWithin l.rules n l false with
  | none =>
    rw [hrun] at h
    cases h
  | some x =>
    have hread : l.readToken = x := run_of_runWithin n hrun
    rw [hrun] at h
    obtain ⟨e | _ | token, read⟩ := x
    · rw [turn_of_error hread]
      exact Option.some.inj h
    · rw [turn_of_none hread]
      exact Option.some.inj h
    · dsimp only at h
      by_cases hkey : read.config.sourceKeyword = some token
      · rw [if_pos hkey] at h
        rw [turn_of_keyword hread hkey]
        exact follow_of_followWithin h
      · rw [if_neg hkey] at h
        rw [turn_of_token hread hkey]
        exact Option.some.inj h

/-- Searches for the next token for at most so many turns. -/
def searchWithin : Nat → Lexer → Option (Except LexError (Option String) × Lexer)
  | 0, _ => none
  | n + 1, l =>
    match l.turnWithin n with
    | none => none
    | some (.failed e after) => some (.error e, after)
    | some (.ended after) => some (.ok none, after)
    | some (.handed token after) => some (.ok (some token), after)
    | some (.passed after) => searchWithin n after

/-- What is found within some turns is what a search finds. -/
theorem search_of_searchWithin (n : Nat) : ∀ {l : Lexer} {x : Except LexError (Option String) × Lexer},
    searchWithin n l = some x → l.search = x := by
  induction n with
  | zero =>
    intro l x h
    simp [searchWithin] at h
  | succ n ih =>
    intro l x h
    rw [search_eq_turn]
    unfold searchWithin at h
    cases hturn : l.turnWithin n with
    | none =>
      rw [hturn] at h
      cases h
    | some t =>
      rw [hturn] at h
      rw [turn_of_turnWithin hturn]
      cases t with
      | failed e after => exact Option.some.inj h
      | ended after => exact Option.some.inj h
      | handed token after => exact Option.some.inj h
      | passed after => exact ih h

/-- Returns the next token if it is found within so many turns. -/
def nextTokenWithin (n : Nat) (l : Lexer) : Option (Except LexError (Option String) × Lexer) :=
  match l.waiting with
  | token :: rest =>
    some (.ok (some token), { l with waiting := rest }.notify (.tokenEmitted (some token)))
  | [] => searchWithin n l

/-- The next token is what is found within some turns. -/
theorem nextToken_of_nextTokenWithin {n : Nat} {l : Lexer}
    {x : Except LexError (Option String) × Lexer} (h : l.nextTokenWithin n = some x) :
    l.nextToken = x := by
  unfold nextTokenWithin at h
  cases hwaiting : l.waiting with
  | cons token rest =>
    rw [hwaiting] at h
    rw [nextToken_of_waiting hwaiting]
    exact Option.some.inj h
  | nil =>
    rw [hwaiting] at h
    rw [nextToken_of_no_waiting hwaiting]
    exact search_of_searchWithin n h

/-- All results, if there are at most so many, each found within so many turns. -/
def resultsWithin : Nat → Lexer → Option (Yield (Except LexError String))
  | 0, _ => none
  | n + 1, l =>
    match l.nextTokenWithin n with
    | none => none
    | some (.error e, after) =>
      if e.isRefusal then (resultsWithin n after).map (·.behind [.error e]) else some ⟨[], some e⟩
    | some (.ok none, _) => some .empty
    | some (.ok (some token), after) => (resultsWithin n after).map (·.behind [.ok token])

/-- What is found within some turns are all results. -/
theorem results_of_resultsWithin (n : Nat) : ∀ {l : Lexer} {y : Yield (Except LexError String)},
    resultsWithin n l = some y → l.results = y := by
  induction n with
  | zero =>
    intro l y h
    simp [resultsWithin] at h
  | succ n ih =>
    intro l y h
    rw [results_eq]
    unfold resultsWithin at h
    cases hnext : l.nextTokenWithin n with
    | none =>
      rw [hnext] at h
      cases h
    | some x =>
      rw [hnext] at h
      rw [nextToken_of_nextTokenWithin hnext]
      obtain ⟨e | _ | token, after⟩ := x
      · dsimp only at h
        show (if e.isRefusal then after.results.behind [.error e] else ⟨[], some e⟩) = y
        by_cases hrefusal : e.isRefusal = true
        · rw [if_pos hrefusal] at h ⊢
          obtain ⟨z, hz, rfl⟩ := Option.map_eq_some_iff.1 h
          rw [ih hz]
        · rw [if_neg hrefusal] at h ⊢
          exact Option.some.inj h
      · exact Option.some.inj h
      · obtain ⟨z, hz, rfl⟩ := Option.map_eq_some_iff.1 h
        show after.results.behind [.ok token] = _
        rw [ih hz]

/-- Words that end early, and a word that includes files. -/
def earlyInclusion : Config := { whitespaceSplit := false, sourceKeyword := some "source" }

end Lexer

/-- One file that can be included, with two words in it. -/
def oneFile : Resolver := .fixed fun name _ =>
  match name with
  | "inc" => .ok ⟨.ofText "two three", some ⟨"inc"⟩⟩
  | _ => .error (.unresolved name .notFound)

end ShellWords
