import ShellWords.Proofs.Lexing.Classes
import ShellWords.Proofs.Lexing.Operations
import ShellWords.Proofs.Lexing.Written

/-!
# Tokens that are put back

Only where words end at other characters than white space, and operators are off, is a character put back as a
token of its own (`Rules.move_held_token`). The next call returns it. It is left at the end of the input only if
the search goes on behind it, which it does behind the keyword. So there are two reasons why nothing is left: no
token is ever put back (`waiting_nextTokens`), or the keyword is never met in the text (`InText.nextTokens`).
Otherwise there is a text that leaves one behind (`exists_left_behind`).
-/

namespace ShellWords

/-! ## Options under which nothing is put back -/

/-- Without operators, and where words end early, a character is made a token of its own; nowhere else. -/
theorem Rules.move_held_token {r : Rules} {state : State} {token : String} {quoted : Bool} {c : Char}
    (h : (r.move state token quoted c).held = .token) :
    r.classes.punctuationActive = false ∧ r.whitespaceSplit = false := by
  cases state with
  | start => simp only [move, moveFromStart] at h; grind
  | word =>
    have hinactive (hpunct : r.classes.isPunctuation c = true) := r.punctuationActive_of_isPunctuation hpunct
    simp only [move, moveFromWord, moveAtBoundary] at h
    grind
  | punctuation => simp only [move, moveFromPunctuation, moveAtBoundary] at h; grind
  | quote q => simp only [move, moveFromQuote] at h; grind
  | escape resume => cases resume <;> simp [move, moveFromEscape] at h
  | done => simp [move] at h

namespace Lexer

section
variable {r : Rules} {l m : Lexer}
variable (hkeeps : r.classes.punctuationActive = true ∨ r.whitespaceSplit = true)
include hkeeps

/-- Under such options no move puts a token back. -/
theorem waiting_apply_move (l skipped : Lexer) (quoted : Bool) (c : Char) :
    (skipped.apply (r.move l.state l.token quoted c) c).waiting = skipped.waiting := by
  have hheld : (r.move l.state l.token quoted c).held ≠ .token := by
    intro hheld
    obtain ⟨hactive, hsplit⟩ := Rules.move_held_token hheld
    simp [hactive, hsplit] at hkeeps
  simp [apply, hheld]

/-- So no run does. -/
theorem waiting_run (l : Lexer) (quoted : Bool) : (run r l quoted).2.waiting = l.waiting := by
  fun_induction Lexer.run r l quoted with
  | case1 l quoted hdone result m hfin =>
    have hfinish : (finish r quoted { l with token := "" }).2.waiting = l.waiting := rfl
    rwa [hfin] at hfinish
  | case2 l quoted hdone e taken htake =>
    have htaken := l.takeChar_waiting
    rwa [htake] at htaken
  | case3 l quoted hdone taken htake told hopen =>
    have htaken := l.takeChar_waiting
    rwa [htake] at htaken
  | case4 l quoted hdone taken htake told hopen result m hfin =>
    have htaken := l.takeChar_waiting
    rw [htake] at htaken
    have hfinish : (finish r quoted (told.setState .done)).2.waiting = taken.waiting := by
      simp [finish, told]
    rw [hfin] at hfinish
    exact hfinish.trans htaken
  | case5 l quoted hdone c taken htake move e skipped hskip =>
    exact (took_of_skipFor htake hskip).waiting
  | case6 l quoted hdone c taken htake move skipped hskip next hcomplete result m hfin =>
    have hfinish : (finish r move.quoted next).2.waiting = next.waiting := rfl
    rw [hfin] at hfinish
    have hnext : next.waiting = skipped.waiting := waiting_apply_move hkeeps l skipped quoted c
    exact (hfinish.trans hnext).trans (took_of_skipFor htake hskip).waiting
  | case7 l quoted hdone c taken htake move skipped hskip next hcomplete ih =>
    have hnext : next.waiting = skipped.waiting := waiting_apply_move hkeeps l skipped quoted c
    exact (ih.trans hnext).trans (took_of_skipFor htake hskip).waiting

/-- So reading a raw token puts none back. -/
theorem waiting_readToken {x : Except LexError (Option String)} (hrules : l.rules = r)
    (hread : l.readToken = (x, m)) : m.waiting = l.waiting ∧ m.rules = r := by
  have hwaiting := waiting_run hkeeps l false
  have hsame := SameStack.of_readToken hread
  rw [Lexer.readToken, hrules] at hread
  rw [hread] at hwaiting
  exact ⟨hwaiting, (congrArg Rules.ofConfig hsame.config).trans hrules⟩

/-- And no search does. -/
theorem waiting_search {x : Except LexError (Option String)} (hrules : l.rules = r)
    (hsearch : l.search = (x, m)) : m.waiting = l.waiting ∧ m.rules = r := by
  refine (search_keeps (P := fun k => k.waiting = l.waiting ∧ k.rules = r) ?_ ?_ ?_ ?_ ?_
    ⟨rfl, hrules⟩ hsearch).1
  · intro k x read hk hread
    obtain ⟨hwaiting, hrules⟩ := waiting_readToken hkeeps hk.2 hread
    exact ⟨hwaiting.trans hk.1, hrules⟩
  · intro k keyword name x opened hk hkey hopen
    rcases openInclusion_cases hopen with ⟨e, -, rfl⟩ | ⟨inclusion, left, -, -, -, rfl⟩
    · exact hk
    · rw [pushSource_eq_switch]
      exact ⟨by simpa using hk.1, (switch_rules ..).trans hk.2⟩
  · intro k read parent rest _ hread _ hstack
    rw [resume_eq_switch]
    simpa using hread
  · exact fun _ hk => hk
  · intro k read hk hread
    obtain ⟨hwaiting, hrules⟩ := waiting_readToken hkeeps hk.2 hread
    exact ⟨by simpa using hwaiting.trans hk.1, by simpa [Lexer.rules] using hrules⟩

/-- So none is ever put back. -/
theorem waiting_nextTokens (hrules : l.rules = r) (hwaiting : l.waiting = []) (n : Nat) :
    (l.after (List.replicate n .nextToken)).nextToken.2.waiting = [] := by
  have hnext {k : Lexer} (hrules : k.rules = r) (hwaiting : k.waiting = []) :
      k.nextToken.2.waiting = [] ∧ k.nextToken.2.rules = r := by
    rw [nextToken_of_no_waiting hwaiting, ← hwaiting]
    exact waiting_search hkeeps hrules rfl
  induction n generalizing l with
  | zero => exact (hnext hrules hwaiting).1
  | succ n ih =>
    obtain ⟨hwaiting, hrules⟩ := hnext hrules hwaiting
    exact ih hrules hwaiting

end

/-! ## A keyword that cannot be read -/

variable {l m : Lexer}

/-- Whether a token can be read at the beginning of some source. -/
def Readable (config : Config) (token : String) : Prop :=
  ∃ source read, (ofSource config Resolver.refusing source).readToken = (.ok (some token), read)

/-- The text of a lexer has ended inside a quotation. -/
structure Unclosed (l : Lexer) : Prop where
  isOpen : l.state.isOpen = true
  exhausted : l.Exhausted

/-- Whatever it tells, its text has ended inside a quotation. -/
theorem Unclosed.notify (h : l.Unclosed) (e : Event) : (l.notify e).Unclosed := ⟨h.isOpen, h.exhausted⟩

/-- That is reported, and nothing else changes. -/
theorem Unclosed.readToken (h : l.Unclosed) :
    l.readToken = (.error (.unterminatedQuotation l.origin l.line), l.notify (.charRead l.state none)) :=
  run_of_end_open (takeChar_of_exhausted h.exhausted) h.isOpen

/-- A lexer is in a text without inclusions: between tokens, or at the end of it inside a quotation. -/
structure InText (config : Config) (l : Lexer) : Prop where
  config : l.config = config
  suspended : l.suspended = []
  place : (l.Resting ∧ l.pending = [] ∧ ∃ cs last, l.Reads cs last) ∨ l.Unclosed

/-- Handing out a token that waits leaves a lexer in its text. -/
theorem InText.emit {config : Config} (h : l.InText config) (waiting : List String) (e : Event) :
    (Lexer.notify { l with waiting } e).InText config where
  config := h.config
  suspended := h.suspended
  place := by
    rcases h.place with ⟨⟨htoken, hheld, hstate⟩, hplace⟩ | hplace
    · exact .inl ⟨⟨htoken, hheld, hstate⟩, hplace⟩
    · exact .inr ⟨hplace.isOpen, hplace.exhausted⟩

/-- In a text, reading a raw token leaves the rest of it, or fails at its end inside a quotation. -/
theorem reads_run {r : Rules} {last : Nat} (state : State) (token : String) (quoted : Bool)
    (cs : List Char) (l : Lexer) (hreads : l.Reads cs last) (hstate : l.state = state)
    (htoken : l.token = token) (hprogress : r.InProgress state token quoted) :
    (∃ m, run r l quoted = (.error (.unterminatedQuotation m.origin m.line), m) ∧ m.Unclosed ∧
        m.waiting = l.waiting) ∨
      (∃ result m rest, run r l quoted = (.ok result, m) ∧ m.Reads rest last) := by
  fun_induction Rules.wordsFrom r state token quoted cs generalizing l with
  | case1 state token quoted hopen =>
    subst hstate htoken
    obtain ⟨htake, -⟩ := takeChar_of_reads_nil hreads
    have hexhausted := (exhausted_of_takeChar htake).2
    exact .inl ⟨l.notify (.charRead l.state none), run_of_end_open htake hopen, ⟨hopen, hexhausted⟩, rfl⟩
  | case2 state token quoted hopen =>
    subst hstate htoken
    obtain ⟨htake, -⟩ := takeChar_of_reads_nil hreads
    have hended : ((l.notify (.charRead l.state none)).setState .done).Reads [] last := by
      simpa [Reads] using hreads
    have hdone := r.ne_done_of_inProgress hprogress
    exact .inr ⟨_, _, [], run_of_end hdone htake (by simpa using hopen), hended⟩
  | case3 state token quoted c cs m rest hcomplete ihNothing ihChar ihToken =>
    subst hstate htoken
    obtain ⟨next, hmoved, -, hrun⟩ :=
      run_of_reads_cons (m := m) hreads (r.ne_done_of_inProgress hprogress) rfl
    rw [if_pos hcomplete] at hrun
    exact .inr ⟨_, _, _, hrun, hmoved.reads⟩
  | case4 state token quoted c cs m rest hcomplete ih =>
    subst hstate htoken
    obtain ⟨next, hmoved, hnext, hrun⟩ :=
      run_of_reads_cons (m := m) hreads (r.ne_done_of_inProgress hprogress) rfl
    rcases r.move_progress hprogress c with ⟨htrue, -, -, -, -⟩ | ⟨-, hheld, hprogress'⟩
    · exact (hcomplete htrue).elim
    · have hheld : m.held = .nothing := hheld
      have hleft := hmoved.reads
      rw [hheld, if_neg (by simp), List.nil_append] at hleft
      have hkept := hmoved.waiting
      rw [hheld, if_neg (by simp), List.nil_append] at hkept
      rw [hrun, if_neg hcomplete, ← hkept]
      exact ih next hleft hmoved.state hnext hprogress'

/-- It does so for every lexer that rests. -/
theorem reads_readToken {cs : List Char} {last : Nat} (hresting : l.Resting) (hreads : l.Reads cs last) :
    (∃ m, l.readToken = (.error (.unterminatedQuotation m.origin m.line), m) ∧ m.Unclosed ∧
        m.waiting = l.waiting) ∨
      (∃ result m rest, l.readToken = (.ok result, m) ∧ m.Reads rest last) := by
  rcases hresting.state with hstart | ⟨hdone, -⟩
  · exact reads_run .start "" false cs l hreads hstart hresting.token l.rules.inProgress_start
  · exact .inr ⟨_, _, cs, run_of_done hdone, hreads⟩

/-- A token that is read between tokens can be read at the beginning of a source. -/
theorem Resting.readable {token : String} {read : Lexer} (hresting : l.Resting) (hpending : l.pending = [])
    (hraw : l.readToken = (.ok (some token), read)) : Readable l.config token := by
  rcases hresting.state with hstart | ⟨-, hexhausted⟩
  · have halike : Alike l.waiting [] l (ofSource l.config Resolver.refusing l.source) :=
      ⟨rfl, rfl, hstart.symm, hresting.token.symm, hpending.symm, [], rfl, rfl⟩
    obtain ⟨read', hraw', -⟩ := halike.readToken hraw
    exact ⟨l.source, read', hraw'⟩
  · obtain ⟨m, hnone, -⟩ := readToken_of_exhausted hresting hexhausted
    rw [hraw] at hnone
    cases hnone

/-- In a text without operators and without the keyword, a lexer that looks for a token stays in the text. If
there is no token, none was put back. -/
theorem InText.nextToken {config : Config} {x : Except LexError (Option String)} (h : l.InText config)
    (hinactive : config.punctuation.isActive = false)
    (habsent : ∀ keyword, config.sourceKeyword = some keyword → ¬ Readable config keyword)
    (hnext : l.nextToken = (x, m)) : m.InText config ∧ (x = .ok none → m.waiting = []) := by
  cases hwaiting : l.waiting with
  | cons token waiting =>
    rw [nextToken_of_waiting hwaiting] at hnext
    obtain ⟨rfl, rfl⟩ := Prod.mk.inj hnext
    exact ⟨h.emit waiting _, by simp⟩
  | nil =>
    rw [nextToken_of_no_waiting hwaiting] at hnext
    rcases h.place with ⟨hresting, hpending, cs, last, hreads⟩ | hunclosed
    · rcases reads_readToken hresting hreads with
        ⟨read, hraw, hplace, -⟩ | ⟨result, read, rest, hraw, hleft⟩
      · have hsame := SameStack.of_readToken hraw
        rw [search_of_error hraw] at hnext
        obtain ⟨rfl, rfl⟩ := Prod.mk.inj hnext
        exact ⟨⟨hsame.config.trans h.config, hsame.suspended.trans h.suspended, .inr hplace⟩, by simp⟩
      · have hsame := SameStack.of_readToken hraw
        have hsettled := settled_readToken hresting hraw
        have hconfig := hsame.config.trans h.config
        have hsuspended := hsame.suspended.trans h.suspended
        have hrules : l.rules.classes.punctuationActive = false := by
          rw [rules, h.config]
          exact hinactive
        have hread : read.InText config := ⟨hconfig, hsuspended,
          .inl ⟨hsettled.resting, hsettled.pending_of_inactive hrules, rest, last, hleft⟩⟩
        cases result with
        | none =>
          obtain ⟨hdone, hkept⟩ := hsettled.ended rfl
          rw [search_of_ended hraw hsuspended, setState_of_state hdone] at hnext
          obtain ⟨rfl, rfl⟩ := Prod.mk.inj hnext
          exact ⟨hread.emit read.waiting _, fun _ => hkept.trans hwaiting⟩
        | some token =>
          have hkey : read.config.sourceKeyword ≠ some token := by
            intro hkey
            rw [hconfig] at hkey
            refine habsent token hkey ?_
            rw [← h.config]
            exact hresting.readable hpending hraw
          rw [search_of_token hraw hkey] at hnext
          obtain ⟨rfl, rfl⟩ := Prod.mk.inj hnext
          exact ⟨hread.emit read.waiting _, by simp⟩
    · -- Inside a quotation, it is reported again that the text has ended.
      rw [search_of_error hunclosed.readToken] at hnext
      obtain ⟨rfl, rfl⟩ := Prod.mk.inj hnext
      exact ⟨⟨h.config, h.suspended, .inr ⟨hunclosed.isOpen, hunclosed.exhausted⟩⟩, by simp⟩

/-- So it never does. -/
theorem InText.nextTokens {config : Config} (h : l.InText config)
    (hinactive : config.punctuation.isActive = false)
    (habsent : ∀ keyword, config.sourceKeyword = some keyword → ¬ Readable config keyword) (n : Nat)
    (hnext : (l.after (List.replicate n .nextToken)).nextToken = (.ok none, m)) : m.waiting = [] := by
  induction n generalizing l with
  | zero => exact (h.nextToken hinactive habsent hnext).2 rfl
  | succ n ih => exact ih (h.nextToken hinactive habsent rfl).1 hnext

/-! ## A keyword that can be read -/

/-- Every name includes nothing. -/
def includingNothing : Resolver := .fixed fun _ _ => .ok ⟨.empty, none⟩

/-- Between tokens, at the end of a source, there is no raw token, and nothing is put back. -/
theorem Resting.readToken_none (hresting : l.Resting) (hexhausted : l.Exhausted) :
    ∃ read, l.readToken = (.ok none, read) ∧ read.token = "" ∧ read.pending = [] ∧
      read.waiting = l.waiting ∧ SameStack l read := by
  obtain ⟨read, hread, -⟩ := readToken_of_exhausted hresting hexhausted
  have hsettled := settled_readToken hresting hread
  obtain ⟨hdone, hwaiting⟩ := hsettled.ended rfl
  exact ⟨read, hread, hsettled.resting.token, (hsettled.resting.exhausted hdone).1, hwaiting,
    SameStack.of_readToken hread⟩

/-- At the end of a text nothing is left of it. -/
theorem exhausted_of_reads_nil {last : Nat} (h : l.Reads [] last) : l.Exhausted :=
  (exhausted_of_takeChar (takeChar_of_reads_nil h).1).2

/-- If a name at the end of the last source includes nothing, there is no token, and what was put back
remains. -/
theorem search_of_nothing_included {keyed named : Lexer} {keyword name : String} {left : Nat}
    (hkeyed : l.readToken = (.ok (some keyword), keyed)) (hkey : keyed.config.sourceKeyword = some keyword)
    (hname : keyed.readToken = (.ok (some name), named)) (hresolver : named.resolver = includingNothing)
    (hallowance : named.allowance = left + 1) (htoken : named.token = "") (hexhausted : named.Exhausted)
    (hsuspended : named.suspended = []) :
    ∃ m, l.search = (.ok none, m) ∧ m.waiting = named.waiting := by
  let opened := ((named.asking name).allowing left).pushSource .empty none
  have hopen : named.openInclusion name = (.ok (), opened) := by
    have hresolve : named.resolver.answer name named.origin = .ok ⟨.empty, none⟩ := by rw [hresolver]; rfl
    rw [openInclusion, hresolve]
    dsimp only
    rw [hallowance]
  have hturn : l.turn = .passed opened := by
    rw [turn_of_keyword hkeyed hkey, follow, hname]
    dsimp only
    rw [hopen]
  -- The empty source ends, and then the one that it was read in front of.
  obtain ⟨read, hread, hforgot, hpending, hkept, hsame⟩ := Resting.readToken_none (l := opened)
    ⟨by simpa [opened, pushSource] using htoken, by simp [opened, pushSource, hexhausted.1], .inl rfl⟩
    ⟨by simpa [opened, pushSource] using hexhausted.1, by simp [opened, pushSource]; rfl⟩
  let resumed := read.resume named.source []
  have hturn' : opened.turn = .passed resumed := by
    have hstack : read.suspended = [named.source] := by
      rw [hsame.suspended]
      simp [opened, pushSource, hsuspended]
    rw [turn_of_none hread, leave, hstack]
  obtain ⟨ended, hended, -, -, hkept', hsame'⟩ := Resting.readToken_none (l := resumed)
    ⟨by simpa [resumed, resume] using hforgot, by simp [resumed, resume, hpending], .inl rfl⟩
    ⟨by simpa [resumed, resume] using hpending, by simpa [resumed, resume] using hexhausted.2⟩
  have hstack : ended.suspended = [] := by
    rw [hsame'.suspended]
    simp [resumed, resume]
  have hwaiting : ended.waiting = named.waiting := by
    have hsame : resumed.waiting = read.waiting ∧ opened.waiting = named.waiting := by
      simp [resumed, resume, opened, pushSource]
    rw [hkept', hsame.1, hkept, hsame.2]
  refine ⟨(ended.setState .done).notify (.tokenEmitted none), ?_, by simpa using hwaiting⟩
  rw [search_eq_turn, hturn]
  dsimp only
  rw [search_eq_turn, hturn']
  exact search_of_ended hended hstack

section
variable {config : Config} (hinactive : config.punctuation.isActive = false)
include hinactive

/-- A letter begins a word. -/
theorem move_letter : (Rules.ofConfig config).move .start "" false 'a' =
    { state := .word, token := "a", quoted := false } := by
  have hchars : config.punctuation.chars = [] := by simpa [Punctuation.isActive] using hinactive
  have hword : (Rules.ofConfig config).classes.isWord 'a' = true :=
    Rules.isWord_ofConfig_iff.2 ⟨.ascii (.inl rfl), by simp [hchars]⟩
  exact (Rules.onlyWord_ofConfig hword).move_start "" false

variable (hsplit : config.whitespaceSplit = false)
include hsplit

/-- A colon ends a word and is a token of its own. -/
theorem move_colon : (Rules.ofConfig config).move .word "a" false ':' =
    { state := .start, token := "a", quoted := false, complete := true, held := .token } := by
  have hword : (Rules.ofConfig config).classes.isWord ':' = false := by
    rw [← Bool.not_eq_true, Rules.isWord_ofConfig_iff]
    rintro ⟨hascii | ⟨-, hlatin⟩ | ⟨hactive, -⟩, -⟩
    · exact absurd hascii (by decide)
    · exact absurd (isLatinLetter_iff_toNat.1 hlatin).1 (by decide)
    · exact Bool.false_ne_true (hinactive.symm.trans hactive)
  have hplain := Rules.unmarked_of_notMem config (c := ':') (by decide)
  have hactive : (Rules.ofConfig config).classes.punctuationActive = false := hinactive
  have hsplit : (Rules.ofConfig config).whitespaceSplit = false := hsplit
  simp [Rules.move, Rules.moveFromWord, Rules.moveAtBoundary, hword, hplain.space, hplain.escape,
    hplain.comment, hplain.quote, hactive, hsplit, Rules.isToken]

/-- A name with a colon behind it is read, and the colon is put back. -/
theorem readToken_letter_colon {last : Nat} (hconfig : l.config = config) (hstate : l.state = .start)
    (htoken : l.token = "") (hreads : l.Reads ['a', ':'] last) :
    ∃ named, l.readToken = (.ok (some "a"), named) ∧ named.waiting = ":" :: l.waiting ∧
      named.Reads [] last := by
  have hrules : l.rules = .ofConfig config := congrArg Rules.ofConfig hconfig
  have hletter : (Rules.ofConfig config).move l.state l.token false 'a' =
      (Rules.ofConfig config).move .start "" false 'a' := by rw [hstate, htoken]
  obtain ⟨next, hmoved, hnext, hrun⟩ :=
    run_of_reads_cons hreads (by simp [hstate]) (hletter.trans (move_letter hinactive))
  have hcolon : (Rules.ofConfig config).move next.state next.token false ':' =
      (Rules.ofConfig config).move .word "a" false ':' := by rw [hmoved.state, hnext]
  obtain ⟨last, hmoved', hlast, hrun'⟩ :=
    run_of_reads_cons hmoved.reads (by simp [hmoved.state]) (hcolon.trans (move_colon hinactive hsplit))
  rw [if_neg (by simp)] at hrun
  rw [if_pos rfl, finish_of_isToken (by simp [hlast, Rules.isToken]), hlast, ← hrun, ← hrules] at hrun'
  refine ⟨_, hrun', ?_, hmoved'.reads⟩
  have hput := hmoved'.waiting
  have hsame := hmoved.waiting
  simp only [if_true, List.singleton_append, reduceCtorEq, if_false, List.nil_append] at hput hsame
  rw [hsame] at hput
  exact hput

/-- Under options that put tokens back, one is left at the end of some text in which the keyword is read. -/
theorem exists_left_behind {keyword : String} (hkey : config.sourceKeyword = some keyword)
    (hreadable : Readable config keyword) :
    ∃ text m, (ofText config includingNothing text).nextToken = (.ok none, m) ∧ m.waiting = [":"] := by
  obtain ⟨source, read, hread⟩ := hreadable
  have hrun : run (.ofConfig config) (ofSource config Resolver.refusing source) false = _ := hread
  obtain ⟨written, hwritten⟩ := exists_written rfl (Rules.inProgress_start _) hrun
  let l := ofText config includingNothing (String.ofList (written ++ ['a', ':']))
  have hreads : l.Reads (written ++ ['a', ':']) (1 + (written ++ ['a', ':']).count '\n') :=
    ⟨written ++ ['a', ':'], by simp [l, ofText, ofSource, Stream.ofText_eq_ofChars], rfl, Nat.zero_le _, rfl⟩
  -- The keyword is read, and then the name. The colon behind the name is put back.
  obtain ⟨keyed, hkeyed, hbehind⟩ := hwritten l _ _ rfl rfl hreads
  have hkeyed : l.readToken = (.ok (some keyword), keyed) := hkeyed
  have hsame := SameStack.of_readToken hkeyed
  have hresting : keyed.Resting := (settled_readToken (resting_ofSource ..) hkeyed).resting
  obtain ⟨named, hname, hput, hnamed⟩ := readToken_letter_colon hinactive hsplit hsame.config
    hbehind.state hresting.token hbehind.reads
  have hsame' := hsame.trans (SameStack.of_readToken hname)
  have hwaiting : named.waiting = [":"] := by rw [hput, hbehind.waiting]; rfl
  have hforgot : named.token = "" :=
    (settled_readToken hresting hname).resting.token
  have hallowance : named.allowance = defaultAllowance - 1 + 1 := hsame'.allowance
  obtain ⟨m, hsearch, hkept⟩ := search_of_nothing_included hkeyed (by rw [hsame.config]; exact hkey) hname
    hsame'.resolver hallowance hforgot (exhausted_of_reads_nil hnamed) hsame'.suspended
  exact ⟨_, m, hsearch, hkept.trans hwaiting⟩

end

end Lexer
end ShellWords
