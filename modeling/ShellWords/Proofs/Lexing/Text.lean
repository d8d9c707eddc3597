import ShellWords.Proofs.Decoding
import ShellWords.Proofs.Lexing.Resting
import ShellWords.Proofs.Lexing.Search
import ShellWords.Splitting

/-!
# The words of a text

`Rules.wordsFrom` runs the automaton over a list of characters and collects all tokens. It has no source,
no character or token put back, and no observer: a character that has ended a token without belonging to
it is read again, or is a token of its own, on the spot. `Lexer.words_ofText` shows that a lexer of
a text without a keyword returns the same words, so what is proved of `wordsFrom` holds of the lexer.

The proof carries `Lexer.Reads`, which says which characters are still to be read, wherever they are kept,
and at which line they end. The last line is the same before and after every move, so it is known when an
unclosed quotation is reported.
-/

namespace ShellWords

/-- All words of the rest of a text, in a given state and with a given token in progress. There are none
when the text ends inside a quotation. -/
def Rules.wordsFrom (r : Rules) (state : State) (token : String) (quoted : Bool) :
    List Char → Option (List String)
  | [] => if state.isOpen then none else some (if r.isToken token quoted then [token] else [])
  | c :: cs =>
    let m := r.move state token quoted c
    let rest := if m.skipsLine then Source.afterLine cs else cs
    if m.complete then
      (match _held : m.held with
        | .nothing => r.wordsFrom .start "" false rest
        | .char => r.wordsFrom .start "" false (c :: cs)
        | .token => (r.wordsFrom .start "" false cs).map (String.singleton c :: ·)).map (m.token :: ·)
    else r.wordsFrom m.state m.token m.quoted rest
termination_by cs => (cs.length, state.rank)
decreasing_by
  · refine .left _ _ (Nat.lt_succ_of_le ?_)
    split
    · exact Source.length_afterLine_le cs
    · exact Nat.le_refl _
  -- The character has ended a token in progress, and now starts one.
  · obtain ⟨hfrom, -⟩ := r.move_held state token quoted c (by simp [m, _held])
    rw [hfrom]
    exact .right _ (by decide)
  · exact .left _ _ (Nat.lt_succ_self _)
  · refine .left _ _ (Nat.lt_succ_of_le ?_)
    split
    · exact Source.length_afterLine_le cs
    · exact Nat.le_refl _

namespace Lexer

/-- The lexer still has these characters to read of its source, which ends at the line `last`. The first
of them may have been put back. -/
def Reads (l : Lexer) (cs : List Char) (last : Nat) : Prop :=
  ∃ ahead, l.source.stream = .ofChars ahead ∧ l.pending ++ ahead = cs ∧ l.pending.length ≤ 1 ∧
    l.source.line + ahead.count '\n' = last

/-- A lexer with one source and no keyword, which still has these characters to read. -/
structure OneSource (l : Lexer) (r : Rules) (origin : Option Path) (cs : List Char) (last : Nat) :
    Prop where
  rules : l.rules = r
  keyword : l.config.sourceKeyword = none
  suspended : l.suspended = []
  origin : l.origin = origin
  reads : l.Reads cs last

variable {l : Lexer} {r : Rules} {origin : Option Path} {c : Char} {cs : List Char} {last : Nat}

/-- At the end of the text there is no character to take. -/
theorem takeChar_of_reads_nil (h : l.Reads [] last) :
    l.takeChar = (.ok none, l) ∧ l.source.line = last := by
  obtain ⟨ahead, hstream, hcs, -, hline⟩ := h
  obtain ⟨hpending, rfl⟩ := List.append_eq_nil_iff.1 hcs
  refine ⟨?_, hline⟩
  unfold takeChar
  split
  · rename_i d rest hd
    simp [hd] at hpending
  · rw [Source.readChar_of_nil hstream]

/-- Inside the text the next character is taken. Nothing changes but the source and the character put
back. -/
theorem takeChar_of_reads_cons (h : l.Reads (c :: cs) last) :
    ∃ source, l.takeChar = (.ok (some c), { l with source, pending := [] }) ∧
      source.origin = l.origin ∧ Reads { l with source, pending := [] } cs last := by
  obtain ⟨ahead, hstream, hcs, hheld, hline⟩ := h
  have hlast := tail_pending_of_held hheld
  unfold takeChar
  split
  · rename_i d rest hd
    rw [hd, List.tail_cons] at hlast
    subst hlast
    rw [hd, List.singleton_append, List.cons.injEq] at hcs
    obtain ⟨rfl, rfl⟩ := hcs
    exact ⟨l.source, rfl, rfl, ahead, hstream, rfl, Nat.zero_le _, hline⟩
  · rename_i hd
    rw [hd, List.nil_append] at hcs
    subst hcs
    refine ⟨{ l.source with
      stream := .ofChars cs, line := l.source.line + [c].count '\n' }, ?_, rfl, cs, rfl, rfl, Nat.zero_le _, ?_⟩
    · rw [Source.readChar_of_cons hstream, ← hd]
    · have hcount : (c :: cs).count '\n' = [c].count '\n' + cs.count '\n' := by
        rw [← List.count_append]
        rfl
      show l.source.line + [c].count '\n' + cs.count '\n' = last
      omega

/-- Skipping a line of the text leaves what comes after the line. -/
theorem skipLine_of_reads (h : l.Reads cs last) (hpending : l.pending = []) :
    ∃ source, l.skipLine = (.ok (), { l with source }) ∧ source.origin = l.origin ∧
      Reads { l with source } (Source.afterLine cs) last := by
  obtain ⟨ahead, hstream, hcs, hheld, hline⟩ := h
  rw [hpending, List.nil_append] at hcs
  subst hcs
  obtain ⟨n, hskip, hcount⟩ := Source.skipLine_of_chars hstream
  refine ⟨{ l.source with stream := .ofChars (Source.afterLine ahead), line := l.source.line + n },
    ?_, rfl, Source.afterLine ahead, rfl, ?_, hheld, ?_⟩
  · rw [skipLine, hskip]
  · rw [hpending]
    rfl
  · dsimp only
    omega

/-- A move on a character that has been taken skips what it is to skip. -/
theorem skipFor_of_reads {taken : Lexer} (h : taken.Reads cs last) (hpending : taken.pending = [])
    (m : Move) :
    ∃ source, taken.skipFor m = (.ok (), { taken with source }) ∧ source.origin = taken.origin ∧
      Reads { taken with source } (if m.skipsLine then Source.afterLine cs else cs) last := by
  unfold skipFor
  by_cases hskips : m.skipsLine = true
  · rw [if_pos hskips, if_pos hskips]
    exact skipLine_of_reads h hpending
  · rw [if_neg hskips, if_neg hskips]
    exact ⟨taken.source, rfl, rfl, h⟩

/-! ## One move -/

/-- What a lexer is after a move on the next character of a text: what the move skips is skipped, what it
holds back is put back, and everything else stays as it is. -/
structure Moved (l next : Lexer) (m : Move) (c : Char) (cs : List Char) (last : Nat) : Prop where
  state : next.state = m.state
  config : next.config = l.config
  suspended : next.suspended = l.suspended
  origin : next.origin = l.origin
  waiting : next.waiting = (if m.held = .token then [String.singleton c] else []) ++ l.waiting
  reads : next.Reads ((if m.held = .char then [c] else []) ++
    if m.skipsLine then Source.afterLine cs else cs) last

/-- A move on the next character of the text is carried out. -/
theorem run_of_reads_cons {m : Move} {quoted : Bool} (h : l.Reads (c :: cs) last)
    (hstate : l.state ≠ .done) (hm : r.move l.state l.token quoted c = m) :
    ∃ next : Lexer, Moved l next m c cs last ∧ next.token = m.token ∧
      run r l quoted =
        if m.complete then (.ok (finish r m.quoted next).1, (finish r m.quoted next).2)
        else run r next m.quoted := by
  obtain ⟨source, htake, horigin, hreads⟩ := takeChar_of_reads_cons h
  have htold : Reads (notify { l with source, pending := [] } (.charRead l.state (some c))) cs last :=
    hreads
  obtain ⟨source', hskip, horigin', ahead, hstream, hcs, -, hline⟩ := skipFor_of_reads htold rfl m
  subst hm
  refine ⟨_, ⟨rfl, ?_, ?_, ?_, ?_, ahead, ?_, ?_, ?_, ?_⟩, ?_, run_of_move hstate htake hskip⟩
  · simp [apply]
  · simp [apply]
  · rw [← horigin]
    simpa [apply, Lexer.origin] using horigin'
  · by_cases hheld : (r.move l.state l.token quoted c).held = .token <;> simp [apply, hheld]
  · simpa [apply] using hstream
  · rw [← hcs]
    by_cases hheld : (r.move l.state l.token quoted c).held = .char <;> simp [apply, hheld]
  · by_cases hheld : (r.move l.state l.token quoted c).held = .char <;> simp [apply, hheld]
  · simpa [apply] using hline
  · simp [apply]

/-! ## All words -/

/-- The outcome of splitting a text: its words, or the report that it ends inside a quotation. -/
def outcome (origin : Option Path) (last : Nat) : Option (List String) → Except LexError (List String)
  | some ws => .ok ws
  | none => .error (.unterminatedQuotation origin last)

/-- What is done to the words is done to the outcome. -/
theorem outcome_map (f : List String → List String) (ws : Option (List String)) :
    outcome origin last (ws.map f) = (outcome origin last ws).map f := by
  cases ws <;> rfl

/-- All words of the input, when this is how its first raw token was read. -/
def wordsBehind : Except LexError (Option String) × Lexer → Except LexError (List String)
  | (.error e, _) => .error e
  | (.ok none, _) => .ok []
  | (.ok (some token), m) => (m.notify (.tokenEmitted (some token))).words.map (token :: ·)

/-- With one source and no keyword, every raw token is a word. -/
theorem words_eq_wordsBehind (h : l.OneSource r origin cs last) (hwaiting : l.waiting = []) :
    l.words = wordsBehind (run r l false) := by
  have hread : run r l false = l.readToken := by rw [readToken, h.rules]
  rw [words_eq, nextToken_eq_handed h.keyword h.suspended hwaiting, hread]
  rcases l.readToken with ⟨e | _ | token, read⟩ <;> rfl

/-- A token that was put back is the first word. -/
theorem words_of_waiting {token : String} (h : l.waiting = [token]) :
    l.words =
      (notify { l with waiting := [] } (.tokenEmitted (some token))).words.map (token :: ·) := by
  rw [words_eq, nextToken_of_waiting h]

/-- A move that completes a token returns it, and the lexer forgets it. -/
theorem run_of_completes {m : Move} {quoted : Bool} (h : l.OneSource r origin (c :: cs) last)
    (hstate : l.state ≠ .done) (hm : r.move l.state l.token quoted c = m)
    (hcomplete : m.complete = true) (htoken : r.isToken m.token m.quoted = true) :
    ∃ next : Lexer, Moved l next m c cs last ∧ next.token = "" ∧
      run r l quoted = (.ok (some m.token), next) := by
  obtain ⟨next, hmoved, hnext, hrun⟩ := run_of_reads_cons h.reads hstate hm
  rw [if_pos hcomplete, finish_of_isToken (by rw [hnext]; exact htoken), hnext] at hrun
  refine ⟨notify { next with token := "" } (.rawToken (some m.token)), ?_, rfl, hrun⟩
  exact ⟨hmoved.state, hmoved.config, hmoved.suspended, hmoved.origin, hmoved.waiting, hmoved.reads⟩

/-- A source that has ended before gives no more words. -/
theorem words_of_done (hstate : l.state = .done) (hsuspended : l.suspended = [])
    (hwaiting : l.waiting = []) : l.words = .ok [] := by
  have hraw : l.readToken = _ := run_of_done hstate
  rw [finish_of_not_isToken (by simp [Rules.isToken])] at hraw
  rw [words_eq, nextToken_of_no_waiting hwaiting, search_of_ended hraw hsuspended]

/-- At the end of the text the token in progress is the last word. -/
theorem wordsBehind_run_nil {quoted : Bool} (h : l.OneSource r origin [] last)
    (hwaiting : l.waiting = []) (hstate : l.state ≠ .done) (hopen : l.state.isOpen = false) :
    wordsBehind (run r l quoted) = .ok (if r.isToken l.token quoted then [l.token] else []) := by
  obtain ⟨htake, -⟩ := takeChar_of_reads_nil h.reads
  rw [run_of_end hstate htake hopen]
  by_cases htoken : r.isToken l.token quoted = true
  · rw [finish_of_isToken (by simpa using htoken), if_pos htoken]
    simp only [wordsBehind, setState_token, notify_token]
    rw [words_of_done rfl (by simp [h.suspended]) (by simp [hwaiting])]
    rfl
  · rw [finish_of_not_isToken (by simpa using htoken), if_neg htoken]
    rfl

/-- A lexer that has moved on in its source still has one source and no keyword. -/
theorem OneSource.of_moved {next : Lexer} {m : Move} (h : l.OneSource r origin (c :: cs) last)
    (hmoved : Moved l next m c cs last) :
    next.OneSource r origin ((if m.held = .char then [c] else []) ++
      if m.skipsLine then Source.afterLine cs else cs) last where
  rules := (congrArg Rules.ofConfig hmoved.config).trans h.rules
  keyword := (congrArg Config.sourceKeyword hmoved.config).trans h.keyword
  suspended := hmoved.suspended.trans h.suspended
  origin := hmoved.origin.trans h.origin
  reads := hmoved.reads

/-- Handing out a token does not change what is left of the source. -/
theorem OneSource.emit (h : l.OneSource r origin cs last) (token : String) (waiting : List String) :
    (notify { l with waiting } (.tokenEmitted (some token))).OneSource r origin cs last :=
  ⟨h.rules, h.keyword, h.suspended, h.origin, h.reads⟩

/-- In one run of the automaton, and then for all tokens after it, a lexer with one source and no keyword
finds the words of the text. -/
theorem wordsBehind_run (state : State) (token : String) (quoted : Bool) (cs : List Char)
    (l : Lexer) (h : l.OneSource r origin cs last) (hwaiting : l.waiting = [])
    (hstate : l.state = state) (htoken : l.token = token)
    (hprogress : r.InProgress state token quoted) :
    wordsBehind (run r l quoted) = outcome origin last (r.wordsFrom state token quoted cs) := by
  fun_induction Rules.wordsFrom r state token quoted cs generalizing l with
  | case1 state token quoted hopen =>
    subst hstate htoken
    obtain ⟨htake, hline⟩ := takeChar_of_reads_nil h.reads
    rw [run_of_end_open htake hopen, ← h.origin, ← hline]
    rfl
  | case2 state token quoted hopen =>
    subst hstate htoken
    rw [wordsBehind_run_nil h hwaiting (r.ne_done_of_inProgress hprogress) (by simpa using hopen)]
    rfl
  | case3 state token quoted c cs m rest hcomplete ihNothing ihChar ihToken =>
    subst hstate htoken
    rcases r.move_progress hprogress c with ⟨-, hstart, htok, hskips, -⟩ | ⟨hfalse, -, -⟩
    · have hdone := r.ne_done_of_inProgress hprogress
      obtain ⟨next, hmoved, hnext, hrun⟩ := run_of_completes (m := m) h hdone rfl hcomplete htok
      have hone := (h.of_moved hmoved).emit m.token next.waiting
      have hstarts : next.state = .start := hmoved.state.trans hstart
      have hput := hmoved.waiting
      rw [hwaiting, List.append_nil] at hput
      rw [hrun, outcome_map]
      simp only [wordsBehind]
      congr 1
      -- What is left of the text depends on what has become of the character that completed the token.
      split
      · rename_i hheld
        have hnone : next.waiting = [] := by rw [hput, hheld]; rfl
        rw [if_neg (by rw [hheld]; simp)] at hone
        rw [words_eq_wordsBehind hone hnone]
        exact ihNothing _ hone hnone hstarts hnext r.inProgress_start
      · rename_i hheld
        have hnone : next.waiting = [] := by rw [hput, hheld]; rfl
        have hstays : m.skipsLine = false := hskips (by show m.held ≠ _; rw [hheld]; simp)
        rw [if_pos hheld, if_neg (by rw [hstays]; simp)] at hone
        rw [words_eq_wordsBehind hone hnone]
        exact ihChar hheld _ hone hnone hstarts hnext r.inProgress_start
      · rename_i hheld
        have hone' := hone.emit (String.singleton c) []
        have hstays : m.skipsLine = false := hskips (by show m.held ≠ _; rw [hheld]; simp)
        rw [if_neg (by rw [hheld]; simp), if_neg (by rw [hstays]; simp)] at hone'
        have hlast : (next.notify (.tokenEmitted (some m.token))).waiting = [String.singleton c] :=
          hput.trans (if_pos hheld)
        rw [words_of_waiting hlast, outcome_map]
        congr 1
        rw [words_eq_wordsBehind hone' rfl]
        exact ihToken _ hone' rfl hstarts hnext r.inProgress_start
    · rw [hcomplete] at hfalse
      cases hfalse
  | case4 state token quoted c cs m rest hcomplete ih =>
    subst hstate htoken
    obtain ⟨next, hmoved, hnext, hrun⟩ :=
      run_of_reads_cons (m := m) h.reads (r.ne_done_of_inProgress hprogress) rfl
    rcases r.move_progress hprogress c with ⟨htrue, -, -, -, -⟩ | ⟨-, hheld, hprogress'⟩
    · exact (hcomplete htrue).elim
    · have hheld : m.held = .nothing := hheld
      have hone := h.of_moved hmoved
      have hnone : next.waiting = [] := by rw [hmoved.waiting, hwaiting, hheld]; rfl
      rw [if_neg (by rw [hheld]; simp)] at hone
      rw [hrun, if_neg hcomplete]
      exact ih next hone hnone hmoved.state hnext hprogress'

/-- The words of a text without a keyword are those that the automaton finds in its characters, wherever the text
comes from. When it ends inside a quotation, the report names that origin and the line of its end. -/
theorem words_ofSource_text {config : Config} (h : config.sourceKeyword = none) (resolver : Resolver)
    (text : String) (origin : Option Path) :
    (ofSource config resolver ⟨.ofText text, origin, 1⟩).words = outcome origin (1 + text.toList.count '\n')
      ((Rules.ofConfig config).wordsFrom .start "" false text.toList) := by
  have hone : (ofSource config resolver ⟨.ofText text, origin, 1⟩).OneSource (.ofConfig config) origin
      text.toList (1 + text.toList.count '\n') := by
    refine ⟨rfl, h, rfl, rfl, text.toList, ?_, rfl, Nat.zero_le _, rfl⟩
    exact Stream.ofText_eq_ofChars text
  rw [words_eq_wordsBehind hone rfl]
  exact wordsBehind_run _ _ _ _ _ hone rfl rfl rfl (Rules.inProgress_start _)

/-- The words of a text, or the report of the line that it ends in, follow from the rules. -/
theorem words_ofText {config : Config} (h : config.sourceKeyword = none) (resolver : Resolver)
    (text : String) :
    (ofText config resolver text).words = outcome none (1 + text.toList.count '\n')
      ((Rules.ofConfig config).wordsFrom .start "" false text.toList) :=
  words_ofSource_text h resolver text none

end Lexer
end ShellWords
