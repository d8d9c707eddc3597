import ShellWords.Proofs.Inclusion.Within
import ShellWords.Proofs.Lexing.FirstChar
import ShellWords.Proofs.Lexing.Operations
import ShellWords.Proofs.Text.Utf8

/-!
# Going on with another source

A lexer keeps the token in progress and the character that was put back when it goes on with another source.
What it reads from then on is what a lexer at the beginning of that source reads behind this token and this
character (`switch_readsAlike`), and nothing else of its past matters. Whatever it carries over shows in front of
some text, so another source is read as it should be exactly if nothing is carried over that should not be
(`readsAlike_switch_iff`).
-/

namespace ShellWords

/-- A source with these characters in front of what is unread. -/
def Source.preceded (s : Source) (before : List Char) : Source :=
  { s with stream := { s.stream with bytes := Text.Utf8.encode before ++ s.stream.bytes } }

/-- In front of a source, any character but a newline is read first, and then the source. -/
theorem Source.readChar_preceded (s : Source) {c : Char} (h : c ≠ '\n') :
    (s.preceded [c]).readChar = (.ok (some c), s) := by
  rw [readChar, preceded, Text.Utf8.encode, List.flatMap_singleton, Stream.next_encodeChar_append]
  simp [h]

/-- In front of a text, they are characters of the text. -/
theorem Source.preceded_ofChars (cs : List Char) (origin : Option Path) (line : Nat) (before : List Char) :
    (Source.mk (.ofChars cs) origin line).preceded before = ⟨.ofChars (before ++ cs), origin, line⟩ := by
  rw [preceded, Stream.ofChars, Stream.ofChars, Text.Utf8.encode_append]

namespace Lexer

variable {l m n : Lexer} {w v : List String}

/-! ## Reading alike -/

/-- Two lexers read the same from their current sources, to the end and beyond. -/
def ReadsAlike (l m : Lexer) : Prop :=
  ∀ n, (l.after (List.replicate n .readToken)).readToken.1 =
    (m.after (List.replicate n .readToken)).readToken.1

/-- If one lexer reads like another, and that like a third, all three read alike. -/
theorem ReadsAlike.trans (h : ReadsAlike l m) (k : ReadsAlike m n) : ReadsAlike l n :=
  fun i => (h i).trans (k i)

/-- They read alike if they do so behind their next raw token. -/
theorem ReadsAlike.of_next (h : l.readToken.1 = m.readToken.1) (k : ReadsAlike l.readToken.2 m.readToken.2) :
    ReadsAlike l m := by
  intro n
  cases n with
  | zero => exact h
  | succ n => exact k n

/-- Two lexers that stand at the same place of the same source read alike. -/
theorem Alike.readsAlike (h : Alike w v l m) : ReadsAlike l m := by
  intro n
  induction n generalizing l m with
  | zero =>
    obtain ⟨m', hread, -⟩ := h.readToken (x := l.readToken.1) rfl
    exact (congrArg Prod.fst hread).symm
  | succ n ih =>
    obtain ⟨m', hread, halike⟩ := h.readToken (x := l.readToken.1) rfl
    have hnext : m.readToken.2 = m' := congrArg Prod.snd hread
    show (l.readToken.2.after _).readToken.1 = (m.readToken.2.after _).readToken.1
    rw [hnext]
    exact ih halike

/-- Where a lexer takes its first character from makes no difference. -/
theorem readToken_congr (hrules : m.rules = l.rules) (hstate : m.state = l.state) (htoken : m.token = l.token)
    (hdone : l.state ≠ .done) (htake : m.takeChar = l.takeChar) : m.readToken = l.readToken := by
  rw [readToken, readToken, hrules, run_eq _ m, run_eq _ l, hstate, htoken, htake, if_neg hdone, if_neg hdone]

/-! ## What is carried over -/

/-- A lexer at the beginning of a source, behind the character that this lexer has put back, and with the token
that it has in progress. -/
def behindLeft (l : Lexer) (source : Source) : Lexer :=
  { ofSource l.config l.resolver (source.preceded l.pending) with token := l.token }

section
variable (h : l.Reached)
include h

/-- What a lexer reads when it goes on with another source. -/
theorem switch_readsAlike (source : Source) (suspended : List Source) (e : Event) :
    ReadsAlike (l.switch source suspended e) (l.behindLeft source) := by
  -- It does not matter whether the character was put back or stands in front of the source.
  let held : Lexer := { ofSource l.config l.resolver source with token := l.token, pending := l.pending }
  have hheld : ReadsAlike (l.switch source suspended e) held := by
    have halike : Alike l.waiting [] (l.switch source suspended e) held :=
      ⟨by rw [switch_rules]; rfl, by simp [held, ofSource], rfl, by simp [held], by simp [held],
        [], by simp, rfl⟩
    exact halike.readsAlike
  refine hheld.trans ?_
  cases hpending : l.pending with
  | nil =>
    have hsame : held = l.behindLeft source := by
      simp [held, behindLeft, hpending, Source.preceded, Text.Utf8.encode, ofSource]
    rw [hsame]
    exact fun _ => rfl
  | cons c rest =>
    obtain rfl : rest = [] := by simpa [hpending] using tail_pending_of_held h.consistent.held
    have hnewline : c ≠ '\n' := by
      rintro rfl
      obtain ⟨-, -, -, hspace, -⟩ := h.consistent.pending '\n' (by simp [hpending])
      cases hspace
    have htake : (l.behindLeft source).takeChar = held.takeChar := by
      have hread := source.readChar_preceded hnewline
      simp only [takeChar, behindLeft, held, hpending, ofSource, hread]
    have hsame : (l.behindLeft source).readToken = held.readToken :=
      readToken_congr rfl rfl rfl (by simp [held, ofSource]) htake
    refine .of_next (by rw [hsame]) ?_
    rw [hsame]
    exact fun _ => rfl

/-- Whatever is unread there, it is the source with this character in front exactly if the character was put
back, and no token is in progress. -/
theorem readsAlike_switch_iff (before : List Char) (hheld : before.length ≤ 1)
    (hbefore : ∀ b ∈ before, l.rules.Holds b .char) (source : Source) (suspended : List Source) (e : Event) :
    (∀ stream, ReadsAlike (l.switch { source with stream } suspended e)
      (ofSource l.config l.resolver ({ source with stream }.preceded before))) ↔
        l.token = "" ∧ l.pending = before := by
  constructor
  · intro hclean
    by_contra hne
    have hpending : ∀ c ∈ l.pending, l.token = "" ∧ (Rules.ofConfig l.config).Holds c .char :=
      fun c hc => (h.consistent.pending c hc).2
    obtain ⟨cs, happart⟩ := exists_told_apart h.consistent.held hpending hheld hbefore hne
    let text : Source := { source with stream := .ofChars cs }
    have hl : (l.switch text suspended e).Stands .start l.token (l.pending ++ cs) :=
      ⟨rfl, by simp, _, cs, by simp [text], by simp, by simpa using h.consistent.held, rfl⟩
    have hm : (ofSource l.config l.resolver (text.preceded before)).Stands .start ""
        (before ++ cs) := by
      refine ⟨rfl, rfl, _, before ++ cs, ?_, rfl, Nat.zero_le _, rfl⟩
      show (text.preceded before).stream = _
      rw [Source.preceded_ofChars]
    have hsame := hclean (.ofChars cs) 0
    refine happart _ _ hl hm ?_
    have hrules : (l.switch text suspended e).rules = .ofConfig l.config := switch_rules ..
    show _ = (ofSource l.config l.resolver (text.preceded before)).readToken.1
    rw [← hrules]
    exact hsame
  · rintro ⟨htoken, hpending⟩ stream
    have hsame : l.behindLeft { source with stream } =
        ofSource l.config l.resolver ({ source with stream }.preceded before) := by
      rw [behindLeft, htoken, hpending]
      rfl
    rw [← hsame]
    exact switch_readsAlike h _ suspended e

end

/-! ## Sources that are suspended -/

/-- A lexer reads a source in front of the one that the first lexer was reading. -/
inductive InFrontOf (below : Lexer) : Lexer → Prop where
  | pushSource (stream : Stream) (origin : Option Path) : InFrontOf below (below.pushSource stream origin)
  | perform {l : Lexer} (h : InFrontOf below l) (op : Op) (hdepth : below.depth < (op.perform l).depth) :
      InFrontOf below (op.perform l)

/-- A lexer under the same options reads the same source, or one of those that were suspended below it. -/
structure Outward (l m : Lexer) : Prop where
  config : m.config = l.config
  suspended : m.suspended <:+ l.suspended

/-- A lexer reads its own source. -/
theorem Outward.refl (l : Lexer) : Outward l l := ⟨rfl, List.suffix_refl _⟩

/-- A step that leaves the stack alone stays there. -/
theorem Outward.of_sameStack (h : Outward l m) (hsame : SameStack m n) : Outward l n := by
  refine ⟨hsame.config.trans h.config, ?_⟩
  rw [hsame.suspended]
  exact h.suspended

/-- Going back to a suspended source leads outward. -/
theorem Outward.resume {parent : Source} {rest : List Source} (h : Outward l m)
    (hstack : m.suspended = parent :: rest) : Outward l (m.resume parent rest) := by
  rw [resume_eq_switch]
  refine ⟨by simpa using h.config, ?_⟩
  rw [switch_suspended]
  have hsuspended := h.suspended
  rw [hstack] at hsuspended
  exact (List.suffix_cons parent rest).trans hsuspended

section
variable (hkey : l.config.sourceKeyword = none)
include hkey

/-- Without a keyword, searching for a token only leaves sources. -/
theorem outward_search {x : Except LexError (Option String)} (hsearch : l.search = (x, m)) : Outward l m := by
  refine (search_keeps (P := Outward l) ?_ ?_ ?_ ?_ ?_ (.refl l) hsearch).1
  · exact fun h hread => h.of_sameStack (SameStack.of_readToken hread)
  · intro k keyword name x opened h hkeyword hopen
    rw [h.config, hkey] at hkeyword
    cases hkeyword
  · exact fun parent rest _ h _ hstack => h.resume hstack
  · exact fun _ h => ⟨h.config, h.suspended⟩
  · exact fun h hread =>
      (h.of_sameStack (SameStack.of_readToken hread)).of_sameStack (sameStack_setState _ .done)

/-- So does asking for the next token. -/
theorem outward_nextToken : Outward l l.nextToken.2 := by
  cases hwaiting : l.waiting with
  | cons token rest =>
    rw [nextToken_of_waiting hwaiting]
    exact ⟨rfl, List.suffix_refl _⟩
  | nil =>
    rw [nextToken_of_no_waiting hwaiting]
    exact outward_search hkey rfl

/-- No operation does anything else to the sources, except to suspend the current one. -/
theorem outward_perform (op : Op) :
    Outward l (op.perform l) ∨ ∃ stream origin, op = .pushSource stream origin := by
  have hnext := outward_nextToken hkey
  cases op with
  | nextToken => exact .inl hnext
  | readToken => exact .inl ((Outward.refl l).of_sameStack l.sameStack_readToken)
  | hasNext =>
    refine .inl ?_
    show Outward l l.hasNext.2
    rcases l.hasNext_cases with hsame | ⟨token, hsame⟩ <;> rw [hsame]
    · exact hnext
    · exact ⟨hnext.config, hnext.suspended⟩
  | iterate =>
    refine .inl ?_
    show Outward l l.iterate.2
    rcases l.iterate_cases with hsame | hsame | hsame <;> rw [hsame]
    · exact .refl l
    · exact hnext
    · exact ⟨hnext.config, hnext.suspended⟩
  | pushToken token => exact .inl ⟨rfl, List.suffix_refl _⟩
  | pushSource stream origin => exact .inr ⟨stream, origin, rfl⟩
  | popSource =>
    refine .inl ?_
    show Outward l l.popSource.2
    unfold popSource
    split
    · exact .refl l
    · rename_i parent rest hstack
      exact (Outward.refl l).resume hstack
  | close => exact .inl ⟨rfl, List.nil_suffix⟩

end

/-- Without a keyword, a lexer that reads a source in front of another one goes on with that when it has left all
sources above it. -/
theorem InFrontOf.suspended {below : Lexer} (hkey : below.config.sourceKeyword = none)
    (h : InFrontOf below l) :
    l.config = below.config ∧ below.source :: below.suspended <:+ l.suspended := by
  have hpush {k : Lexer} (stream : Stream) (origin : Option Path) :
      (k.pushSource stream origin).config = k.config ∧
        (k.pushSource stream origin).suspended = k.source :: k.suspended := by
    rw [pushSource_eq_switch]
    simp
  induction h with
  | pushSource stream origin =>
    obtain ⟨hconfig, hsuspended⟩ := hpush (k := below) stream origin
    exact ⟨hconfig, hsuspended ▸ List.suffix_refl _⟩
  | perform h op hdepth ih =>
    rename_i k
    obtain ⟨hconfig, hstack⟩ := ih
    rcases outward_perform (by rw [hconfig]; exact hkey) op with hout | ⟨stream, origin, rfl⟩
    · refine ⟨hout.config.trans hconfig, ?_⟩
      exact List.suffix_of_suffix_length_le hstack hout.suspended hdepth
    · obtain ⟨hconfig', hsuspended⟩ := hpush (k := k) stream origin
      refine ⟨hconfig'.trans hconfig, ?_⟩
      show _ <:+ (k.pushSource stream origin).suspended
      rw [hsuspended]
      exact hstack.trans (List.suffix_cons _ _)

/-- A lexer that reads in front of one in use is in use. -/
theorem InFrontOf.reached {below : Lexer} (h : InFrontOf below l) (hbelow : below.Reached) : l.Reached := by
  induction h with
  | pushSource stream origin => exact hbelow.perform (.pushSource stream origin)
  | perform h op hdepth ih => exact ih.perform op

/-- Directly above it, closing the current source is all it takes. -/
theorem InFrontOf.popSource {below : Lexer} (hkey : below.config.sourceKeyword = none)
    (h : InFrontOf below l) (hdepth : l.depth = below.depth + 1) :
    l.popSource = (.ok (), l.resume below.source below.suspended) := by
  obtain ⟨-, hstack⟩ := h.suspended hkey
  have hsuspended : l.suspended = below.source :: below.suspended :=
    (hstack.eq_of_length hdepth.symm).symm
  rw [Lexer.popSource, hsuspended]

/-! ## Switching sources -/

/-- A lexer in use that goes on with another source reads it behind the token in progress and the character that
was put back, whether it suspends its source for that or closes it. So whatever is unread there, it reads a new
source as a lexer at its beginning does exactly if it carries nothing over; and the source below, which it comes
back to without a keyword wherever it has been above it, exactly if it carries over the character alone that was
put back when that source was suspended. -/
theorem switching_sources {l : Lexer} (h : l.Reached) :
    (∀ stream origin, ReadsAlike (l.pushSource stream origin) (l.behindLeft ⟨stream, origin, 1⟩)) ∧
    (∀ origin, (∀ stream, ReadsAlike (l.pushSource stream origin)
        (ofSource l.config l.resolver ⟨stream, origin, 1⟩)) ↔ l.token = "" ∧ l.pending = []) ∧
    ∀ below : Lexer, below.Reached → below.config.sourceKeyword = none → InFrontOf below l →
      l.depth = below.depth + 1 →
        l.popSource = (.ok (), l.resume below.source below.suspended) ∧
        ReadsAlike (l.resume below.source below.suspended) (l.behindLeft below.source) ∧
        ((∀ stream, ReadsAlike (l.resume { below.source with stream } below.suspended)
            (ofSource l.config l.resolver ({ below.source with stream }.preceded below.pending))) ↔
          l.token = "" ∧ l.pending = below.pending) := by
  refine ⟨?_, ?_, ?_⟩
  · intro stream origin
    exact switch_readsAlike h _ _ _
  · intro origin
    exact readsAlike_switch_iff h [] (by simp) (by simp) ⟨.ofChars [], origin, 1⟩ (l.source :: l.suspended)
      (.sourcePushed origin (l.depth + 1))
  · intro below hbelow hkey hfront hdepth
    have hrules : below.rules = l.rules := congrArg Rules.ofConfig (hfront.suspended hkey).1.symm
    have hbefore : ∀ b ∈ below.pending, l.rules.Holds b .char := by
      intro b hb
      rw [← hrules]
      exact (hbelow.consistent.pending b hb).2.2
    exact ⟨hfront.popSource hkey hdepth, switch_readsAlike h _ _ _,
      readsAlike_switch_iff h below.pending hbelow.consistent.held hbefore below.source _ _⟩

/-- A source with an operator behind its word, which is read in front of another. -/
def wordInFront : Lexer :=
  (ofText { punctuation := .shell } Resolver.refusing "y").pushSource (.ofText "x;") none

set_option maxRecDepth 4000 in
/-- Its word is read first, and the operator is put back. -/
theorem readToken_wordInFront : wordInFront.readToken =
    (.ok (some "x"), { wordInFront with
      source := { wordInFront.source with stream := .ofText "" }, pending := [';'] }) :=
  run_of_runWithin 10 rfl

/-- When the word has been read, the operator comes next whether the source is closed or another one is read. -/
theorem switching_behind_word :
    wordInFront.readToken.2.popSource.1 = .ok () ∧
    (¬ ∀ stream, ReadsAlike (wordInFront.readToken.2.resume ⟨stream, none, 1⟩ [])
      (ofSource { punctuation := .shell } Resolver.refusing ⟨stream, none, 1⟩)) ∧
    ¬ ∀ stream, ReadsAlike (wordInFront.readToken.2.pushSource stream none)
      (ofSource { punctuation := .shell } Resolver.refusing ⟨stream, none, 1⟩) := by
  have hbelow : (ofText { punctuation := .shell } Resolver.refusing "y").Reached := reached_ofSource ..
  have hfront : InFrontOf (ofText { punctuation := .shell } Resolver.refusing "y") wordInFront.readToken.2 := by
    refine .perform (.pushSource _ _) .readToken ?_
    show _ < wordInFront.readToken.2.depth
    rw [readToken_wordInFront]
    decide
  have hreached := hfront.reached hbelow
  obtain ⟨-, hpush, hpop⟩ := switching_sources hreached
  obtain ⟨hclosed, -, hparent⟩ := hpop _ hbelow rfl hfront (by rw [readToken_wordInFront]; rfl)
  rw [readToken_wordInFront] at *
  refine ⟨by rw [hclosed], ?_, ?_⟩
  · intro hclean
    have hcarried := hparent.1 hclean
    cases hcarried.2
  · intro hclean
    have hcarried := (hpush none).1 hclean
    cases hcarried.2

set_option maxRecDepth 4000 in
/-- A quotation without an end leaves its token in progress, which comes in front of a new source. -/
theorem token_in_front_of_source :
    (ofText {} Resolver.refusing "'ab").readToken.1 = .error (.unterminatedQuotation none 1) ∧
    ((ofText {} Resolver.refusing "'ab").readToken.2.pushSource (.ofText " x y") none).readToken.1 =
      .ok (some "ab") ∧
    (ofText {} Resolver.refusing " x y").readToken.1 = .ok (some "x") := by
  have hread : (ofText {} Resolver.refusing "'ab").readToken =
      (.error (.unterminatedQuotation none 1), { ofText {} Resolver.refusing "" with
        state := .quote '\'', token := "ab" }) := run_of_runWithin 10 rfl
  have hcarried : (({ ofText {} Resolver.refusing "" with
      state := .quote '\'', token := "ab" } : Lexer).pushSource (.ofText " x y") none).readToken =
        (.ok (some "ab"), { ofText {} Resolver.refusing "x y" with suspended := [⟨.ofText "", none, 1⟩] }) :=
    run_of_runWithin 10 rfl
  have hfresh : (ofText {} Resolver.refusing " x y").readToken =
      (.ok (some "x"), ofText {} Resolver.refusing "y") := run_of_runWithin 10 rfl
  rw [hread, hcarried, hfresh]
  exact ⟨rfl, rfl, rfl⟩

end Lexer
end ShellWords
