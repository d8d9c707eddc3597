import Mathlib.Logic.Relation
import ShellWords.Lexer.Token
import ShellWords.Proofs.Lexing.RawToken

/-!
# The search for a token

`Lexer.turn` is what a search does before it hands out a token, gives up, or goes on: it reads a raw token
and, behind the keyword, a name. A search is turns one after another (`Lexer.search_eq_turn`), so a proof
about searches is a case analysis of one turn, and a search visits the lexers that its turns lead to
(`Lexer.Visits`). With one source and no keyword it is one raw token (`Lexer.nextToken_eq_handed`). Every
turn that something may come after leaves less to do (`Lexer.Spends`).
-/

namespace ShellWords

/-- Whether an error says that a name could not be resolved. A lexer can go on after such an error. -/
def LexError.isRefusal : LexError → Bool
  | .unresolved _ _ => true
  | _ => false

/-- How a turn of the search ends. -/
inductive Turn where
  /-- With an error. -/
  | failed (e : LexError) (after : Lexer)
  /-- At the end of the input. -/
  | ended (after : Lexer)
  /-- With a token. -/
  | handed (token : String) (after : Lexer)
  /-- Without a token, and the search goes on. -/
  | passed (after : Lexer)

/-- If something may come after this turn, it comes with a lexer of this kind. -/
def Turn.Leaves (P : Lexer → Prop) : Turn → Prop
  | .failed e after => e.isRefusal = true → P after
  | .ended _ => True
  | .handed _ after => P after
  | .passed after => P after

namespace Lexer

/-- Leaves a source that has ended. -/
def leave (l : Lexer) : Turn :=
  match l.suspended with
  | parent :: rest => .passed (l.resume parent rest)
  | [] => .ended ((l.setState .done).notify (.tokenEmitted none))

/-- Reads the name behind the keyword, and goes on with what it includes. -/
def follow (l : Lexer) : Turn :=
  match l.readToken with
  | (.error e, named) => .failed e named
  | (.ok none, named) => .passed named
  | (.ok (some name), named) =>
    match named.openInclusion name with
    | (.error e, opened) => .failed e opened
    | (.ok (), opened) => .passed opened

/-- One turn of the search for a token. -/
def turn (l : Lexer) : Turn :=
  match l.readToken with
  | (.error e, read) => .failed e read
  | (.ok none, read) => read.leave
  | (.ok (some token), read) =>
    if read.config.sourceKeyword = some token then read.follow
    else .handed token (read.notify (.tokenEmitted (some token)))

variable {l m read : Lexer}

/-- Where reading fails, so does the turn. -/
theorem turn_of_error {e : LexError} (h : l.readToken = (.error e, read)) : l.turn = .failed e read := by
  rw [turn, h]

/-- At the end of a source the turn leaves it. -/
theorem turn_of_none (h : l.readToken = (.ok none, read)) : l.turn = read.leave := by
  rw [turn, h]

/-- Behind the keyword the turn reads the name. -/
theorem turn_of_keyword {token : String} (h : l.readToken = (.ok (some token), read))
    (hkey : read.config.sourceKeyword = some token) : l.turn = read.follow := by
  rw [turn, h]
  dsimp only
  rw [if_pos hkey]

/-- Any other token is handed out. -/
theorem turn_of_token {token : String} (h : l.readToken = (.ok (some token), read))
    (hkey : read.config.sourceKeyword ≠ some token) :
    l.turn = .handed token (read.notify (.tokenEmitted (some token))) := by
  rw [turn, h]
  dsimp only
  rw [if_neg hkey]

/-- A search is a turn and, unless that ends it, another search. -/
theorem search_eq_turn (l : Lexer) :
    l.search = match l.turn with
      | .failed e after => (.error e, after)
      | .ended after => (.ok none, after)
      | .handed token after => (.ok (some token), after)
      | .passed after => after.search := by
  rw [search]
  unfold turn
  split <;> rename_i hraw
  · simp only [hraw]
  · simp only [hraw]
    split
    · unfold follow
      split <;> rename_i hname
      · simp only [hname]
      · simp only [hname]
      · simp only [hname]
        split <;> rename_i hopen <;> simp only [hopen]
    · rfl
  · simp only [hraw]
    unfold leave
    split <;> rename_i hstack <;> simp only [hstack]

/-- A search comes from one lexer to the other, by turns in which no token is handed out. -/
def Visits (l m : Lexer) : Prop := Relation.ReflTransGen (fun k next => k.turn = .passed next) l m

/-- A search goes on where a source has ended, where there is no name behind the keyword, and where a name has been
resolved. -/
theorem passed_cases (h : l.turn = .passed m) :
    (∃ read parent rest, l.readToken = (.ok none, read) ∧ read.suspended = parent :: rest ∧
        m = read.resume parent rest) ∨
      (∃ keyword read, l.readToken = (.ok (some keyword), read) ∧ read.readToken = (.ok none, m)) ∨
      ∃ keyword read name named, l.readToken = (.ok (some keyword), read) ∧
        read.readToken = (.ok (some name), named) ∧ named.openInclusion name = (.ok (), m) := by
  unfold turn at h
  split at h <;> rename_i hraw
  · cases h
  · unfold leave at h
    split at h <;> rename_i hstack
    · exact .inl ⟨_, _, _, hraw, hstack, (Turn.passed.inj h).symm⟩
    · cases h
  · split at h
    · unfold follow at h
      split at h <;> rename_i hname
      · cases h
      · obtain rfl := Turn.passed.inj h
        exact .inr (.inl ⟨_, _, hraw, hname⟩)
      · split at h <;> rename_i hopen
        · cases h
        · obtain rfl := Turn.passed.inj h
          exact .inr (.inr ⟨_, _, _, _, hraw, hname, hopen⟩)
    · cases h

/-- A search hands out a raw token that is not the keyword. -/
theorem handed_cases {token : String} (h : l.turn = .handed token m) :
    ∃ read, l.readToken = (.ok (some token), read) ∧ m = read.notify (.tokenEmitted (some token)) := by
  unfold turn at h
  split at h <;> rename_i hraw
  · cases h
  · unfold leave at h
    split at h <;> cases h
  · split at h
    · unfold follow at h
      split at h
      · cases h
      · cases h
      · split at h <;> cases h
    · obtain ⟨rfl, rfl⟩ := Turn.handed.inj h
      exact ⟨_, hraw, rfl⟩

/-- A search fails where the automaton does, or where a name cannot be included. -/
theorem failed_cases {e : LexError} (h : l.turn = .failed e m) :
    (∃ n : Lexer, n.readToken = (.error e, m)) ∨
      ∃ keyword read name named, l.readToken = (.ok (some keyword), read) ∧
        read.readToken = (.ok (some name), named) ∧ named.openInclusion name = (.error e, m) := by
  unfold turn at h
  split at h <;> rename_i hraw
  · obtain ⟨rfl, rfl⟩ := Turn.failed.inj h
    exact .inl ⟨_, hraw⟩
  · unfold leave at h
    split at h <;> cases h
  · split at h
    · unfold follow at h
      split at h <;> rename_i hname
      · obtain ⟨rfl, rfl⟩ := Turn.failed.inj h
        exact .inl ⟨_, hname⟩
      · cases h
      · split at h <;> rename_i hopen
        · obtain ⟨rfl, rfl⟩ := Turn.failed.inj h
          exact .inr ⟨_, _, _, _, hraw, hname, hopen⟩
        · cases h
    · cases h

/-- A raw token that cannot be read ends the search. -/
theorem search_of_error {e : LexError} (h : l.readToken = (.error e, read)) :
    l.search = (.error e, read) := by
  rw [search_eq_turn, turn_of_error h]

/-- A raw token that is not the keyword is returned. -/
theorem search_of_token {token : String} (h : l.readToken = (.ok (some token), read))
    (hkey : read.config.sourceKeyword ≠ some token) :
    l.search = (.ok (some token), read.notify (.tokenEmitted (some token))) := by
  rw [search_eq_turn, turn_of_token h hkey]

/-- At the end of the last source there is no token. -/
theorem search_of_ended (h : l.readToken = (.ok none, read)) (hstack : read.suspended = []) :
    l.search = (.ok none, (read.setState .done).notify (.tokenEmitted none)) := by
  rw [search_eq_turn, turn_of_none h, leave, hstack]

/-- A token that was put back is returned first. -/
theorem nextToken_of_waiting {token : String} {rest : List String} (h : l.waiting = token :: rest) :
    l.nextToken =
      (.ok (some token), notify { l with waiting := rest } (.tokenEmitted (some token))) := by
  rw [nextToken, h]

/-- With no token put back, the next one is searched for. -/
theorem nextToken_of_no_waiting (h : l.waiting = []) : l.nextToken = l.search := by
  rw [nextToken, h]

/-- With one source and no keyword, what is handed out for a raw token. -/
def handed : Except LexError (Option String) × Lexer → Except LexError (Option String) × Lexer
  | (.error e, m) => (.error e, m)
  | (.ok none, m) => (.ok none, (m.setState .done).notify (.tokenEmitted none))
  | (.ok (some token), m) => (.ok (some token), m.notify (.tokenEmitted (some token)))

/-- So the next token is the next raw token. -/
theorem nextToken_eq_handed (hkeyword : l.config.sourceKeyword = none) (hsuspended : l.suspended = [])
    (hwaiting : l.waiting = []) : l.nextToken = handed l.readToken := by
  rw [nextToken_of_no_waiting hwaiting]
  rcases hraw : l.readToken with ⟨e | _ | token, read⟩
  · exact search_of_error hraw
  · exact search_of_ended hraw ((SameStack.of_readToken hraw).suspended.trans hsuspended)
  · refine search_of_token hraw ?_
    rw [(SameStack.of_readToken hraw).config, hkeyword]
    simp

/-! ## What is left to do -/

/-- A lexer that has less left to do comes first in the order that the search goes down. -/
theorem HasLess.lex {l m : Lexer} (h : HasLess m l) :
    Prod.Lex (· < ·) (· < ·) (m.allowance, m.workload) (l.allowance, l.workload) := by
  rcases h with hlt | ⟨heq, hlt⟩
  · exact .left _ _ hlt
  · rw [heq]
    exact .right _ hlt

/-- What lexers do can be proved from what those do that have less left to do. -/
theorem hasLess_induction {motive : Lexer → Prop}
    (step : ∀ l, (∀ m, HasLess m l → motive m) → motive l) (l : Lexer) : motive l :=
  step l fun m _h => hasLess_induction step m
termination_by (l.allowance, l.workload)
decreasing_by exact _h.lex

/-- The automaton fails where a read fails, and at the end of the source. -/
theorem error_of_run {r : Rules} {quoted : Bool} {e : LexError} (h : run r l quoted = (.error e, m)) :
    (∃ cause, e = .unreadable cause) ∨ ∃ origin line, e = .unterminatedQuotation origin line := by
  fun_induction run r l quoted with
  | case1 => simp at h
  | case2 l quoted hdone cause taken htake =>
    obtain ⟨he, -⟩ := Prod.mk.inj h
    exact .inl ⟨cause, (Except.error.inj he).symm⟩
  | case3 l quoted hdone taken htake told hopen =>
    obtain ⟨he, -⟩ := Prod.mk.inj h
    exact .inr ⟨_, _, (Except.error.inj he).symm⟩
  | case4 => simp at h
  | case5 l quoted hdone c taken htake move cause skipped hskip =>
    obtain ⟨he, -⟩ := Prod.mk.inj h
    exact .inl ⟨cause, (Except.error.inj he).symm⟩
  | case6 => simp at h
  | case7 l quoted hdone c taken htake move skipped hskip next hcomplete ih => exact ih h

/-- An error of the automaton is not a refused name. -/
theorem isRefusal_of_run {r : Rules} {quoted : Bool} {e : LexError}
    (h : run r l quoted = (.error e, m)) : e.isRefusal = false := by
  rcases error_of_run h with ⟨cause, rfl⟩ | ⟨origin, line, rfl⟩
  · rfl
  · rfl

/-- So no name was refused. -/
theorem not_isRefusal_of_run {r : Rules} {quoted : Bool} {e : LexError}
    (h : run r l quoted = (.error e, m)) : ¬e.isRefusal = true := by
  rw [isRefusal_of_run h]
  exact Bool.false_ne_true

/-- If something may come after this turn of a lexer, the turn has left less to do. -/
def Spends (l : Lexer) (t : Turn) : Prop := t.Leaves fun after => HasLess after l

/-- A raw token is work that is done. -/
theorem hasLess_of_readToken {token : String} (h : l.readToken = (.ok (some token), read)) :
    HasLess read l := by
  have hsame := SameStack.of_readToken h
  exact .inr ⟨hsame.allowance, workload_lt hsame (work_lt_of_readToken h)⟩

/-- Reading another raw token leaves no more to do than before. -/
theorem HasLess.readToken {n : Lexer} {x : Except LexError (Option String)} (hless : HasLess l n)
    (h : l.readToken = (x, read)) : HasLess read n := by
  have hsame := SameStack.of_readToken h
  have hle := l.work_readToken_le
  rw [h] at hle
  have hload : read.workload ≤ l.workload := workload_le hsame hle
  have hallowance : read.allowance = l.allowance := hsame.allowance
  unfold HasLess at hless ⊢
  omega

/-- A source that is left is less to do. -/
theorem spends_leave (h : l.readToken = (.ok none, read)) : l.Spends read.leave := by
  have hsame := SameStack.of_readToken h
  have hle := l.work_readToken_le
  rw [h] at hle
  unfold leave
  split <;> rename_i hstack
  · refine .inr ⟨(allowance_resume ..).trans hsame.allowance, ?_⟩
    exact Nat.lt_of_lt_of_le (workload_resume_lt hstack) (workload_le hsame hle)
  · trivial

/-- A name that is not resolved is only remembered, and one that is uses up a part of the allowance. -/
theorem openInclusion_cases {name : String} {x : Except LexError Unit}
    (h : l.openInclusion name = (x, m)) :
    (∃ e, x = .error e ∧ m = l.asking name) ∨
      ∃ inclusion left, l.resolver.answer name l.origin = .ok inclusion ∧ l.allowance = left + 1 ∧
        x = .ok () ∧
        m = ((l.asking name).allowing left).pushSource inclusion.stream inclusion.origin := by
  unfold openInclusion at h
  split at h
  · obtain ⟨rfl, rfl⟩ := Prod.mk.inj h
    exact .inl ⟨_, rfl, rfl⟩
  · rename_i inclusion hresolve
    split at h
    · obtain ⟨rfl, rfl⟩ := Prod.mk.inj h
      exact .inl ⟨_, rfl, rfl⟩
    · rename_i left hleft
      obtain ⟨rfl, rfl⟩ := Prod.mk.inj h
      exact .inr ⟨inclusion, left, hresolve, hleft, rfl, rfl⟩

/-- What is known of a resolver whatever it is asked, is known of it after every turn. -/
theorem resolver_turn {P : Resolver → Prop} (hafter : ∀ r name current, P r → P (r.after name current))
    (h : P l.resolver) : l.turn.Leaves fun after => P after.resolver := by
  have hread {n read : Lexer} {x : Except LexError (Option String)} (hn : P n.resolver)
      (hread : n.readToken = (x, read)) : P read.resolver := (SameStack.of_readToken hread).resolver ▸ hn
  rcases hraw : l.readToken with ⟨e | _ | token, read⟩
  · rw [turn_of_error hraw]
    exact fun _ => hread h hraw
  · rw [turn_of_none hraw, leave]
    split
    · simpa [Turn.Leaves, resume] using hread h hraw
    · trivial
  by_cases hkey : read.config.sourceKeyword = some token
  · rw [turn_of_keyword hraw hkey, follow]
    rcases hname : read.readToken with ⟨e | _ | name, named⟩
    · exact fun _ => hread (hread h hraw) hname
    · exact hread (hread h hraw) hname
    · have hasked : P (named.asking name).resolver := hafter _ _ _ (hread (hread h hraw) hname)
      dsimp only
      rcases hopen : named.openInclusion name with ⟨e | u, opened⟩
      · rcases openInclusion_cases hopen with ⟨e, -, rfl⟩ | ⟨inclusion, left, -, -, hok, -⟩
        · exact fun _ => hasked
        · cases hok
      · rcases openInclusion_cases hopen with ⟨e, herror, -⟩ | ⟨inclusion, left, -, -, -, rfl⟩
        · cases herror
        · simpa [Turn.Leaves, pushSource] using hasked
  · rw [turn_of_token hraw hkey]
    simpa [Turn.Leaves] using hread h hraw

/-- Behind the keyword, less is left to do whatever follows it. -/
theorem spends_follow {n : Lexer} (hless : HasLess l n) : n.Spends l.follow := by
  unfold follow
  split <;> rename_i named hname
  · intro hrefusal
    exact (not_isRefusal_of_run hname hrefusal).elim
  · exact hless.readToken hname
  · have hnamed := hless.readToken hname
    split <;> rename_i opened hopen
    · intro _
      rcases openInclusion_cases hopen with ⟨e, -, rfl⟩ | ⟨inclusion, left, -, -, hok, -⟩
      · exact hnamed
      · cases hok
    · have hlt : opened.allowance < named.allowance := allowance_lt_of_openInclusion hopen
      unfold Spends Turn.Leaves HasLess at *
      omega

/-- Every turn leaves less to do, unless nothing comes after it. -/
theorem spends_turn (l : Lexer) : l.Spends l.turn := by
  unfold turn
  split <;> rename_i hraw
  · intro hrefusal
    exact (not_isRefusal_of_run hraw hrefusal).elim
  · exact spends_leave hraw
  · have hless := hasLess_of_readToken hraw
    split
    · exact spends_follow hless
    · exact hless

end Lexer
end ShellWords
