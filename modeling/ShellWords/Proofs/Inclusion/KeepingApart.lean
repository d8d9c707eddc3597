import ShellWords.Proofs.Decoding
import ShellWords.Proofs.Inclusion.Operators
import ShellWords.Proofs.Lexing.FirstChar

/-!
# When inclusion keeps sources apart

`Lexer.KeepsApart` says of a lexer that has just read a name that its results are those of the included
source on its own and then those of the rest, whatever is included and wherever names are looked up. Where
there are operators, this is so exactly if no character was put back behind the name
(`keepsApart_iff_pending_eq_nil`).

A character that was put back is always noticed. If it opens a quotation or escapes, an included source that
is empty ends in an error. If it is the keyword, a name in the included source is refused. And otherwise it
is returned as a token, which is seen when reading fails right behind it.
-/

namespace ShellWords

namespace Lexer

variable {config : Config} {l read named taken : Lexer} {c : Char} {cs : List Char} {e : ReadError}

/-! ## Sources that fail -/

/-- The stream that fails behind these characters. -/
def failing (cs : List Char) (e : ReadError) : Stream := ⟨Text.Utf8.encode cs, some e⟩

/-- A lexer is between tokens, and what is left of its source are these characters, maybe behind a blank,
and then a failure. -/
structure Facing (cs : List Char) (e : ReadError) (l : Lexer) : Prop where
  resting : l.Resting
  pending : l.pending = []
  stream : l.source.stream = failing cs e ∨ l.source.stream = failing (' ' :: cs) e

/-- A source fails where its stream does. -/
theorem readChar_of_failing {s : Source} (h : s.stream = failing [] e) : s.readChar.1 = .error e := by
  rw [Source.readChar, h]
  rfl

/-- Before that it gives the characters. -/
theorem readChar_of_failing_cons {s : Source} (h : s.stream = failing (c :: cs) e) :
    s.readChar.1 = .ok (some c) ∧ s.readChar.2.stream = failing cs e := by
  have hnext : (failing (c :: cs) e).next = (.ok (some c), failing cs e) :=
    Stream.next_encode_cons c cs (some e)
  rw [Source.readChar, h, hnext]
  exact ⟨rfl, rfl⟩

/-- A source that fails has not ended. -/
theorem Facing.state_eq (h : Facing cs e l) : l.state = .start := by
  rcases h.resting.state with hstart | ⟨-, hexhausted⟩
  · exact hstart
  · have hfails (ds : List Char) (hstream : l.source.stream = failing ds e) : False := by
      cases ds with
      | nil => simpa [hexhausted.2] using readChar_of_failing hstream
      | cons d ds => simpa [hexhausted.2] using (readChar_of_failing_cons hstream).1
    exact (h.stream.elim (hfails _) (hfails _)).elim

/-- What a lexer is after a move that has used up the character taken. -/
structure Used (m : Move) (taken next : Lexer) : Prop where
  state : next.state = m.state
  token : next.token = m.token
  pending : next.pending = taken.pending
  source : next.source = taken.source
  config : next.config = taken.config

/-- A move that uses up its character completes the token, or the run goes on behind it. -/
theorem run_of_used {r : Rules} {quoted : Bool} {m : Move} (hstate : l.state ≠ .done)
    (htake : l.takeChar = (.ok (some c), taken)) (hm : r.move l.state l.token quoted c = m)
    (hskips : m.skipsLine = false) (hheld : m.held = .nothing) :
    ∃ next, Used m taken next ∧ run r l quoted =
      if m.complete then (.ok (finish r m.quoted next).1, (finish r m.quoted next).2)
      else run r next m.quoted := by
  subst hm
  have hskip : (taken.notify (.charRead l.state (some c))).skipFor (r.move l.state l.token quoted c) =
      (.ok (), taken.notify (.charRead l.state (some c))) := by
    rw [skipFor, hskips]
    rfl
  refine ⟨_, ⟨rfl, ?_, ?_, ?_, ?_⟩, run_of_move hstate htake hskip⟩
  · simp [apply]
  · simp [apply, hheld]
  · simp [apply]
  · simp [apply]

/-- A character that was put back is taken first. -/
theorem takeChar_of_pending (h : l.pending = [c]) :
    l.takeChar = (.ok (some c), { l with pending := [] }) := by
  rw [takeChar, h]

/-- Without a character that was put back, the next one is taken from the source. -/
theorem takeChar_of_readChar {x : Except ReadError (Option Char)} (hpending : l.pending = [])
    (h : l.source.readChar.1 = x) : l.takeChar = (x, { l with source := l.source.readChar.2 }) := by
  rw [takeChar, hpending, h]

/-- A blank is white space under all rules. -/
theorem isWhitespace_blank (l : Lexer) : l.rules.classes.isWhitespace ' ' = true := rfl

/-- A blank in front is passed over. -/
theorem Facing.ahead (h : Facing cs e l) :
    ∃ next : Lexer, l.readToken = next.readToken ∧ next.state = .start ∧ next.token = "" ∧
      next.pending = [] ∧ next.config = l.config ∧ next.source.stream = failing cs e := by
  rcases h.stream with hstream | hstream
  · exact ⟨l, rfl, h.state_eq, h.resting.token, h.pending, rfl, hstream⟩
  obtain ⟨hread, hleft⟩ := readChar_of_failing_cons hstream
  have hmove : l.rules.move l.state l.token false ' ' =
      { state := .start, token := "", quoted := false } := by
    rw [h.state_eq, h.resting.token]
    show l.rules.moveFromStart "" false ' ' = _
    rw [Rules.moveFromStart, if_pos l.isWhitespace_blank]
    simp [Rules.isToken]
  obtain ⟨next, hused, hrun⟩ := run_of_used (by simp [h.state_eq]) (takeChar_of_readChar h.pending hread)
    hmove rfl rfl
  rw [if_neg (by simp)] at hrun
  refine ⟨next, ?_, hused.state, hused.token, hused.pending.trans h.pending, hused.config, ?_⟩
  · rw [readToken, readToken, hrun, rules, rules, hused.config]
  · rw [hused.source]
    exact hleft

/-- Where nothing is left but a failure, reading fails. -/
theorem readToken_of_facing_nil (h : Facing [] e l) :
    ∃ read, l.readToken = (.error (.unreadable e), read) := by
  obtain ⟨next, hread, hstate, -, hpending, -, hstream⟩ := h.ahead
  rw [hread, readToken]
  have htake := takeChar_of_readChar hpending (readChar_of_failing hstream)
  exact ⟨_, run_of_takeChar_error (by simp [hstate]) htake⟩

/-- A character that opens nothing is a token on its own when a blank follows it. -/
theorem readToken_of_closed (hresting : l.Resting) (hstate : l.state = .start)
    (htake : l.takeChar = (.ok (some c), taken)) (hstream : taken.source.stream = failing (' ' :: cs) e)
    (hspace : l.rules.classes.isWhitespace c = false) (hcomment : l.rules.classes.isComment c = false)
    (hopen : (l.rules.moveFromStart "" false c).state.isOpen = false) :
    ∃ read, l.readToken = (.ok (some (.singleton c)), read) ∧ Facing cs e read := by
  have hnone : taken.pending = [] := by
    have htail := l.takeChar_pending
    rw [htake] at htail
    exact htail.trans (tail_pending_of_held hresting.held)
  have htoken := l.rules.isToken_singleton c false
  have hmove : l.rules.move l.state l.token false c = l.rules.moveFromStart "" false c := by
    rw [hstate, hresting.token]
    rfl
  rcases l.rules.moveFromStart_of_closed "" false hspace hcomment hopen with ⟨state, hin, hm⟩ | hm
  · -- The character starts a token, which the blank ends.
    obtain ⟨next, hused, hrun⟩ := run_of_used (by simp [hstate]) htake (hmove.trans hm) rfl rfl
    rw [if_neg (by simp)] at hrun
    rw [← hused.source] at hstream
    obtain ⟨hread, hleft⟩ := readChar_of_failing_cons hstream
    have hblank : l.rules.move next.state next.token false ' ' =
        { state := .start, token := .singleton c, quoted := false, complete := true } := by
      rw [hused.state, hused.token, l.rules.move_break hin l.isWhitespace_blank, htoken]
    have hne : next.state ≠ .done := by
      rw [hused.state]
      rcases hin with rfl | rfl <;> simp
    obtain ⟨last, hlast, hrun'⟩ := run_of_used hne
      (takeChar_of_readChar (hused.pending.trans hnone) hread) hblank rfl rfl
    rw [if_pos rfl, finish_of_isToken (by rw [hlast.token]; exact htoken), hlast.token, ← hrun] at hrun'
    refine ⟨_, hrun', (settled_readToken hresting hrun').resting, ?_, .inl ?_⟩
    · exact hlast.pending.trans (hused.pending.trans hnone)
    · show last.source.stream = _
      rw [hlast.source]
      exact hleft
  · -- The character is a token, and the blank is left.
    obtain ⟨last, hlast, hrun⟩ := run_of_used (by simp [hstate]) htake (hmove.trans hm) rfl rfl
    rw [if_pos rfl, finish_of_isToken (by rw [hlast.token]; exact htoken), hlast.token] at hrun
    refine ⟨_, hrun, (settled_readToken hresting hrun).resting, hlast.pending.trans hnone, .inr ?_⟩
    show last.source.stream = _
    rw [hlast.source]
    exact hstream

/-- So it is behind another blank. -/
theorem readToken_of_facing_cons (h : Facing (c :: ' ' :: cs) e l)
    (hspace : l.rules.classes.isWhitespace c = false) (hcomment : l.rules.classes.isComment c = false)
    (hopen : (l.rules.moveFromStart "" false c).state.isOpen = false) :
    ∃ read, l.readToken = (.ok (some (.singleton c)), read) ∧ Facing cs e read := by
  obtain ⟨next, hread, hstate, htoken, hpending, hconfig, hstream⟩ := h.ahead
  have hrules : next.rules = l.rules := by rw [rules, rules, hconfig]
  rw [← hrules] at hspace hcomment hopen
  obtain ⟨hchar, hleft⟩ := readChar_of_failing_cons hstream
  rw [hread]
  exact readToken_of_closed ⟨htoken, by simp [hpending], .inl hstate⟩ hstate (takeChar_of_readChar hpending hchar) hleft
    hspace hcomment hopen

/-- A letter is read as a token, and a blank and a failure come behind it. -/
theorem readToken_letter (h : Facing ['a', ' '] e l) :
    ∃ read, l.readToken = (.ok (some (.singleton 'a')), read) ∧ Facing [] e read := by
  have hletter : l.rules.Unmarked 'a' := Rules.unmarked_letter l.config (by decide)
  exact readToken_of_facing_cons h hletter.space hletter.comment hletter.closed

/-- In front of an empty source, a character that opens something leaves it open. -/
theorem readToken_of_open {origin : Option Path} (htoken : l.token = "") (hstate : l.state = .start)
    (hpending : l.pending = [c]) (hsource : l.source = ⟨.empty, origin, 1⟩)
    (hopen : (l.rules.moveFromStart "" false c).state.isOpen = true) :
    ∃ read, l.readToken = (.error (.unterminatedQuotation origin 1), read) := by
  obtain ⟨hcomplete, hheld, hskips⟩ : (l.rules.moveFromStart "" false c).complete = false ∧
      (l.rules.moveFromStart "" false c).held = .nothing ∧
      (l.rules.moveFromStart "" false c).skipsLine = false := by
    rcases l.rules.moveFromStart_of_open hopen with ⟨-, -, hm⟩ | ⟨-, hm⟩ <;> rw [hm] <;> exact ⟨rfl, rfl, rfl⟩
  have hmove : l.rules.move l.state l.token false c = l.rules.moveFromStart "" false c := by
    rw [hstate, htoken]
    rfl
  obtain ⟨next, hused, hrun⟩ := run_of_used (by simp [hstate]) (takeChar_of_pending hpending) hmove
    hskips hheld
  rw [if_neg (by simp [hcomplete])] at hrun
  have hnext : next.source = ⟨.empty, origin, 1⟩ := hused.source.trans hsource
  have hend : next.source.readChar = (.ok none, next.source) := by
    rw [hnext]
    rfl
  have htake' := takeChar_of_readChar hused.pending (congrArg Prod.fst hend)
  rw [hend] at htake'
  rw [readToken, hrun, run_of_end_open htake' (by rw [hused.state]; exact hopen)]
  simp only [Lexer.origin, Lexer.line, hnext]
  exact ⟨_, rfl⟩

/-! ## The law -/

/-- Whatever a lexer includes where it has just read a name, and whatever catalogue names are looked up in, its
results are those of the included source on its own and then those of the rest. -/
def KeepsApart (l : Lexer) : Prop :=
  ∀ catalogue stream origin own rest,
    (ofSource l.config (.fixed catalogue) ⟨stream, origin, 1⟩).Delivers own →
      (l.resolving (.fixed catalogue)).Delivers rest →
        ((l.resolving (.fixed catalogue)).pushSource stream origin).Delivers (own.andThen rest)

/-- A character that was put back and opens nothing is a token of its own in front of a blank. -/
theorem Quiet.readToken_alone (h : Quiet config l) (e : ReadError) (cs : List Char)
    (hpending : l.pending = [c]) (hspace : l.rules.classes.isWhitespace c = false)
    (hcomment : l.rules.classes.isComment c = false)
    (hopen : (l.rules.moveFromStart "" false c).state.isOpen = false) :
    ∃ read, ((l.resolving Resolver.refusing).alone (failing (' ' :: cs) e) none).readToken =
      (.ok (some (.singleton c)), read) ∧ Facing cs e read := by
  have halone := (h.resolving Resolver.refusing).alone (failing (' ' :: cs) e) none
  exact readToken_of_closed halone.resting rfl (takeChar_of_pending hpending) rfl hspace hcomment hopen

section
variable (hactive : config.punctuation.isActive = true)
include hactive

/-- Where no character was put back, the law holds. -/
theorem keepsApart_of_pending_eq_nil (h : Quiet config l) (hpending : l.pending = []) :
    l.KeepsApart := by
  intro catalogue stream origin own rest hown hrest
  have hquiet := h.resolving (.fixed catalogue)
  have hnone : (l.resolving (.fixed catalogue)).pending = [] := hpending
  refine delivers_pushSource hactive hquiet (Resolver.memoryless_fixed catalogue) ?_ ?_
  · rw [alone_eq hnone]
    exact hown
  · rw [dropPending_eq hnone]
    exact hrest

/-- By the law, an included source adds to some results what it does with the character that was put back
in front of it, and to some others what it does without. -/
theorem KeepsApart.andThen_eq (h : Quiet config l) (hlaw : l.KeepsApart) :
    ∃ d d', ∀ stream origin own actual,
      (ofSource l.config Resolver.refusing ⟨stream, origin, 1⟩).Delivers own →
        ((l.resolving Resolver.refusing).alone stream origin).Delivers actual →
          Yield.andThen own d = Yield.andThen actual d' := by
  obtain ⟨d, hd⟩ := h.exists_delivers
  obtain ⟨d', hd'⟩ := h.dropPending.exists_delivers
  refine ⟨d, d', ?_⟩
  intro stream origin own actual hown hactual
  -- What is delivered is unique, so what the law says is what happens.
  have hlawful := hlaw _ stream origin own d hown hd
  exact hlawful.unique (delivers_pushSource hactive (h.resolving _) (Resolver.memoryless_fixed _) hactual hd')

/-- The law fails for a character that opens something. -/
theorem not_keepsApart_of_open (h : Quiet config l) (hpending : l.pending = [c])
    (hopen : (l.rules.moveFromStart "" false c).state.isOpen = true) : ¬ l.KeepsApart := by
  intro hlaw
  obtain ⟨d, d', hsame⟩ := hlaw.andThen_eq hactive h
  -- Nothing is included, so the results are those of the rest. But they name the included file.
  have hfails (origin : Option Path) : d = ⟨[], some (.unterminatedQuotation origin 1)⟩ := by
    have hown := quiet_ofSource l.config Resolver.refusing ⟨.empty, origin, 1⟩
    rw [h.config] at hown
    have hends : Exhausted (ofSource config Resolver.refusing ⟨.empty, origin, 1⟩) := ⟨rfl, rfl⟩
    obtain ⟨read, hread, -⟩ := readToken_of_exhausted hown.resting hends
    have halone := (h.resolving Resolver.refusing).alone .empty origin
    obtain ⟨read', hread'⟩ := readToken_of_open
      (l := (l.resolving Resolver.refusing).alone .empty origin) rfl rfl hpending rfl hopen
    have hempty := hown.delivers_of_ended hactive hread rfl
    rw [← h.config] at hempty
    exact hsame .empty origin .empty _ hempty (halone.delivers_of_error hactive hread')
  have hclash := (hfails none).symm.trans (hfails (some ⟨""⟩))
  simp at hclash

/-- The law says that an included source that fails does so in the same way behind any character. -/
theorem KeepsApart.eq_of_failing (h : Quiet config l) (hlaw : l.KeepsApart) {cs : List Char}
    {f : LexError} {xs ys : List (Except LexError String)}
    (hown : (ofSource config Resolver.refusing ⟨failing cs e, none, 1⟩).Delivers ⟨xs, some f⟩)
    (hactual : ((l.resolving Resolver.refusing).alone (failing cs e) none).Delivers ⟨ys, some f⟩) :
    xs = ys := by
  obtain ⟨d, d', hsame⟩ := hlaw.andThen_eq hactive h
  rw [← h.config] at hown
  have heq := hsame _ _ _ _ hown hactual
  rw [Yield.andThen_of_failure rfl, Yield.andThen_of_failure rfl] at heq
  exact congrArg Yield.items heq

/-- The law fails for a character that is the keyword: a name in the included source is refused behind it. -/
theorem not_keepsApart_of_keyword (h : Quiet config l) (hpending : l.pending = [c])
    (hspace : l.rules.classes.isWhitespace c = false) (hcomment : l.rules.classes.isComment c = false)
    (hopen : (l.rules.moveFromStart "" false c).state.isOpen = false)
    (hkey : config.sourceKeyword = some (.singleton c)) : ¬ l.KeepsApart := by
  intro hlaw
  let cause : ReadError := .truncatedCharacter
  -- Behind the character, the letter is a name.
  have halone := (h.resolving Resolver.refusing).alone (failing [' ', 'a', ' '] cause) none
  obtain ⟨read, hread, hfacing⟩ := h.readToken_alone cause ['a', ' '] hpending hspace hcomment hopen
  obtain ⟨named, hname, hfacing'⟩ := readToken_letter hfacing
  obtain ⟨last, hlast⟩ := readToken_of_facing_nil hfacing'
  have hsame := SameStack.of_readToken hread
  have hsame' := SameStack.of_readToken hname
  have hresolve : named.resolver.answer (.singleton 'a') named.origin =
      .error (.unresolved (.singleton 'a') .notFound) := by
    rw [hsame'.resolver, hsame.resolver]
    rfl
  have hforgets : named.resolver.Memoryless := by
    rw [hsame'.resolver, hsame.resolver]
    exact Resolver.memoryless_fixed _
  have hnamed := (halone.readToken hactive hread).readToken hactive hname
  have hactual := halone.delivers_of_refused hactive hread hkey hname hresolve rfl
    (by rw [asking_eq hforgets]; exact hnamed.delivers_of_error hactive hlast)
  -- On its own, it is a token, or a keyword without a name.
  have hown := quiet_ofSource config Resolver.refusing ⟨failing [' ', 'a', ' '] cause, none, 1⟩
  obtain ⟨read, hread, hfacing⟩ := readToken_letter ⟨hown.resting, rfl, .inr rfl⟩
  obtain ⟨last, hlast⟩ := readToken_of_facing_nil hfacing
  by_cases hletter : config.sourceKeyword = some (.singleton 'a')
  · have heq := hlaw.eq_of_failing hactive h
      (hown.delivers_of_name_error hactive hread hletter hlast) hactual
    simp at heq
  · have hrest := (hown.readToken hactive hread).delivers_of_error hactive hlast
    have heq := hlaw.eq_of_failing hactive h
      (hown.delivers_of_token hactive hread hletter hrest) hactual
    simp at heq

/-- The law fails for any other character that opens nothing: it is returned before the included source
fails. -/
theorem not_keepsApart_of_token (h : Quiet config l) (hpending : l.pending = [c])
    (hspace : l.rules.classes.isWhitespace c = false) (hcomment : l.rules.classes.isComment c = false)
    (hopen : (l.rules.moveFromStart "" false c).state.isOpen = false)
    (hkey : config.sourceKeyword ≠ some (.singleton c)) : ¬ l.KeepsApart := by
  intro hlaw
  let cause : ReadError := .truncatedCharacter
  have halone := (h.resolving Resolver.refusing).alone (failing [' '] cause) none
  obtain ⟨read, hread, hfacing⟩ := h.readToken_alone cause [] hpending hspace hcomment hopen
  obtain ⟨last, hlast⟩ := readToken_of_facing_nil hfacing
  have hrest := (halone.readToken hactive hread).delivers_of_error hactive hlast
  have hactual := halone.delivers_of_token hactive hread hkey hrest
  have hown := quiet_ofSource config Resolver.refusing ⟨failing [' '] cause, none, 1⟩
  obtain ⟨last, hlast⟩ := readToken_of_facing_nil ⟨hown.resting, rfl, .inr rfl⟩
  have heq := hlaw.eq_of_failing hactive h (hown.delivers_of_error hactive hlast) hactual
  simp at heq

end

/-- Where there are operators, a lexer that has read the keyword and a name returns what it returns when it
goes on with the source that the name stands for. The included source and the rest are kept apart exactly if
no character was put back behind the name. -/
theorem keepsApart_iff_pending_eq_nil {keyword name : String}
    (hactive : config.punctuation.isActive = true) (hkey : config.sourceKeyword = some keyword)
    (h : Quiet config l) (hread : l.readToken = (.ok (some keyword), read))
    (hname : read.readToken = (.ok (some name), named)) :
    (∀ inclusion y, named.resolver.answer name named.origin = .ok inclusion →
      ((named.asking name).pushSource inclusion.stream inclusion.origin).Delivers y → l.Delivers y) ∧
    (named.KeepsApart ↔ named.pending = []) := by
  have hquiet := h.readToken hactive hread
  have hnamed := hquiet.readToken hactive hname
  constructor
  · intro inclusion y hresolve hpushed
    rw [← ((hnamed.asking name).pushSource _ _).runs_iff hactive] at hpushed
    rw [← bare_eq h.waiting] at hread
    rw [← h.config] at hkey
    have hruns := Runs.of_opened h.resting hread hkey hname hresolve hpushed
    rw [hnamed.waiting] at hruns
    exact (h.runs_iff hactive).1 hruns
  constructor
  · intro hlaw
    -- A character that was put back is neither white space nor does it start a comment.
    by_contra hpending
    obtain ⟨c, hc⟩ : ∃ c, named.pending = [c] := by
      refine List.length_eq_one_iff.1 (Nat.le_antisymm hnamed.resting.held ?_)
      exact List.length_pos_iff.2 hpending
    obtain ⟨-, hspace, hcomment⟩ := (settled_readToken hquiet.resting hname).pending c (by simp [hc])
    have hrules : read.rules = named.rules := by rw [rules, rules, hquiet.config, hnamed.config]
    rw [hrules] at hspace hcomment
    cases hopen : (named.rules.moveFromStart "" false c).state.isOpen with
    | true => exact not_keepsApart_of_open hactive hnamed hc hopen hlaw
    | false =>
      by_cases hcharacter : config.sourceKeyword = some (.singleton c)
      · exact not_keepsApart_of_keyword hactive hnamed hc hspace hcomment hopen hcharacter hlaw
      · exact not_keepsApart_of_token hactive hnamed hc hspace hcomment hopen hcharacter hlaw
  · exact keepsApart_of_pending_eq_nil hactive hnamed

/-- The operators of the shell and a word that includes files. -/
def shellInclusion : Config := { punctuation := .shell, sourceKeyword := some "source" }

set_option maxRecDepth 4000 in
/-- Behind a blank nothing was put back, and behind an operator the operator was. -/
theorem keepsApart_behind_blank :
    (ofText shellInclusion oneFile "x").KeepsApart ∧
      ¬ ({ ofText shellInclusion oneFile "x" with pending := [';'] } : Lexer).KeepsApart := by
  have hblank : (ofText shellInclusion oneFile "source inc x").readToken =
      (.ok (some "source"), ofText shellInclusion oneFile "inc x") := run_of_runWithin 10 rfl
  have hblank' : (ofText shellInclusion oneFile "inc x").readToken =
      (.ok (some "inc"), ofText shellInclusion oneFile "x") := run_of_runWithin 10 rfl
  have hoperator : (ofText shellInclusion oneFile "source inc;x").readToken =
      (.ok (some "source"), ofText shellInclusion oneFile "inc;x") := run_of_runWithin 10 rfl
  have hoperator' : (ofText shellInclusion oneFile "inc;x").readToken =
      (.ok (some "inc"), { ofText shellInclusion oneFile "x" with pending := [';'] }) :=
    run_of_runWithin 10 rfl
  constructor
  · exact (keepsApart_iff_pending_eq_nil rfl rfl (quiet_ofSource ..) hblank hblank').2.2 rfl
  · intro hlaw
    have hnone := (keepsApart_iff_pending_eq_nil rfl rfl (quiet_ofSource ..) hoperator hoperator').2.1 hlaw
    cases hnone

/-- An operator that stands directly behind a name comes before all that the name includes. -/
theorem operator_overtakes_included_source :
    (ofText shellInclusion oneFile "source inc;x").results =
        ⟨[.ok ";", .ok "two", .ok "three", .ok "x"], none⟩ ∧
      (ofText shellInclusion oneFile "source inc;x").results ≠
        (ofSource shellInclusion oneFile ⟨.ofText "two three", some ⟨"inc"⟩, 1⟩).results.andThen
          (ofText shellInclusion oneFile ";x").results := by
  have hall : (ofText shellInclusion oneFile "source inc;x").results =
      ⟨[.ok ";", .ok "two", .ok "three", .ok "x"], none⟩ :=
    results_of_resultsWithin 30 (by decide +kernel)
  have hown : (ofSource shellInclusion oneFile ⟨.ofText "two three", some ⟨"inc"⟩, 1⟩).results =
      ⟨[.ok "two", .ok "three"], none⟩ := results_of_resultsWithin 30 (by decide +kernel)
  have hrest : (ofText shellInclusion oneFile ";x").results = ⟨[.ok ";", .ok "x"], none⟩ :=
    results_of_resultsWithin 30 (by decide +kernel)
  refine ⟨hall, ?_⟩
  rw [hall, hown, hrest]
  decide

end Lexer
end ShellWords
