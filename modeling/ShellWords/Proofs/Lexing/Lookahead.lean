import ShellWords.Proofs.Lexing.Ending
import ShellWords.Proofs.Trace.Listening

/-!
# Looking ahead

Whether there is another token is found out by reading it and putting it back. That changes the lexer, which may have
read on, may be in another state and may have told its listener of it. But it does not change what the lexer has in
prospect, which is what it returns if it is asked for one token after another (`Lexer.outlook`). A token that is put
back comes in front of that (`nextToken_pushToken`), so a token that has been read and put back is where it was.
Where there was none, or an error, it has to be known that the same comes again. In a text without inclusions it does,
as at its end nothing waits, and a quotation without an end is reported as often as it is met (`OnText.nextToken`).

So two lexers with the same in prospect stay so if one of them looks ahead and the other does not (`Ahead`), and by
induction on the operations nothing else is returned by any of them (`lookahead_transparent`).
-/

namespace ShellWords

/-- Whether an operation looks ahead. -/
def Op.looksAhead : Op → Bool
  | .hasNext => true
  | _ => false

/-- Whether an operation is about the next token: it takes it, puts another one in front of it, or looks ahead. -/
def Op.isOfTokens : Op → Bool
  | .nextToken | .pushToken _ | .hasNext => true
  | _ => false

/-- Whether this is what an operation that looks ahead returns. -/
def Answer.isMore : Answer → Bool
  | .more _ => true
  | _ => false

namespace Lexer

variable {l m : Lexer}

/-- What these operations return, one after another. -/
def answers (l : Lexer) (ops : List Op) : List Answer := (l.transcript ops).map Prod.fst

/-- The first operation returns its answer, and then the others return theirs. -/
@[simp] theorem answers_cons (l : Lexer) (op : Op) (ops : List Op) :
    l.answers (op :: ops) = op.answer l :: (op.perform l).answers ops := rfl

/-- The first operation is performed, and then the others are. -/
@[simp] theorem after_cons (l : Lexer) (op : Op) (ops : List Op) :
    l.after (op :: ops) = (op.perform l).after ops := rfl

/-! ## What a lexer has in prospect -/

/-- What a lexer that is asked for one token after another returns when it has been asked for so many. -/
def outlook (l : Lexer) (n : Nat) : Except LexError (Option String) :=
  (l.after (List.replicate n .nextToken)).nextToken.1

/-- What comes first is the next token. -/
theorem outlook_zero (l : Lexer) : l.outlook 0 = l.nextToken.1 := rfl

/-- What comes later is what comes behind the next token. -/
theorem outlook_succ (l : Lexer) (n : Nat) : l.outlook (n + 1) = l.nextToken.2.outlook n := rfl

/-- Two lexers have the same in prospect if they return the same next token, and then have the same in prospect. -/
theorem outlook_eq_iff :
    m.outlook = l.outlook ↔ m.nextToken.1 = l.nextToken.1 ∧ m.nextToken.2.outlook = l.nextToken.2.outlook := by
  constructor
  · intro h
    exact ⟨congrFun h 0, funext fun n => congrFun h (n + 1)⟩
  · rintro ⟨hfirst, hrest⟩
    funext n
    cases n with
    | zero => exact hfirst
    | succ n => exact congrFun hrest n

/-- It does not matter who listens. -/
theorem Unheard.outlook (h : Unheard l m) : m.outlook = l.outlook := by
  funext n
  induction n generalizing l m with
  | zero => exact h.nextToken.1
  | succ n ih => exact ih h.nextToken.2

/-- A token that is put back comes first, and then what was in prospect before. -/
theorem nextToken_pushToken (l : Lexer) (token : String) :
    (l.pushToken token).nextToken.1 = .ok (some token) ∧
      (l.pushToken token).nextToken.2.outlook = l.outlook := by
  have hnext : (l.pushToken token).nextToken = _ := nextToken_of_waiting rfl
  rw [hnext]
  refine ⟨rfl, Unheard.outlook ?_⟩
  have hsame := (List.append_nil l.waiting).symm
  exact ⟨⟨rfl, rfl, rfl, rfl, rfl, l.waiting, hsame, hsame⟩, rfl, rfl, rfl, rfl, rfl⟩

/-- If two lexers have the same in prospect, they do so behind a token that is put back in both. -/
theorem outlook_pushToken (h : m.outlook = l.outlook) (token : String) :
    (m.pushToken token).outlook = (l.pushToken token).outlook := by
  obtain ⟨hl, hl'⟩ := l.nextToken_pushToken token
  obtain ⟨hm, hm'⟩ := m.nextToken_pushToken token
  rw [outlook_eq_iff, hl, hl', hm, hm']
  exact ⟨rfl, h⟩

/-! ## Texts without inclusions -/

/-- A lexer without a keyword is in its only text: between tokens, or at the end of it inside a quotation. -/
structure OnText (l : Lexer) : Prop where
  keyword : l.config.sourceKeyword = none
  suspended : l.suspended = []
  place : (l.Resting ∧ ∃ cs last, l.Reads cs last) ∨ l.Unclosed

/-- What waits and who listens has nothing to do with it. -/
theorem OnText.emit (h : l.OnText) (waiting : List String) (e : Event) :
    (Lexer.notify { l with waiting } e).OnText where
  keyword := h.keyword
  suspended := h.suspended
  place := by
    rcases h.place with ⟨⟨htoken, hheld, hstate⟩, hreads⟩ | hunclosed
    · exact .inl ⟨⟨htoken, hheld, hstate⟩, hreads⟩
    · exact .inr ⟨hunclosed.isOpen, hunclosed.exhausted⟩

/-- At the end of a quotation that is not closed, the same error is returned again and again. -/
theorem Unclosed.outlook (h : l.Unclosed) (hwaiting : l.waiting = []) (n : Nat) :
    l.outlook n = .error (.unterminatedQuotation l.origin l.line) := by
  induction n generalizing l with
  | zero => rw [outlook_zero, nextToken_of_no_waiting hwaiting, search_of_error h.readToken]
  | succ n ih =>
    rw [outlook_succ, nextToken_of_no_waiting hwaiting, search_of_error h.readToken]
    exact ih (h.notify _) hwaiting

/-- At the end of a text, if nothing was put back, there is no token from then on. -/
theorem AtEnd.outlook (h : l.AtEnd []) (n : Nat) : l.outlook n = .ok none := h.nextToken_after n

/-- In a text, a lexer that has read a raw token is in the text. If there is none, the text has ended, and if there is
an error, it has ended inside a quotation. In both cases nothing has been put back. -/
theorem OnText.readToken {x : Except LexError (Option String)} (h : l.OnText) (hraw : l.readToken = (x, m)) :
    m.OnText ∧ (x = .ok none → m.AtEnd l.waiting) ∧
      ∀ e, x = .error e → e = .unterminatedQuotation m.origin m.line ∧ m.Unclosed ∧ m.waiting = l.waiting := by
  have hsame := SameStack.of_readToken hraw
  have hkeyword : m.config.sourceKeyword = none := hsame.config ▸ h.keyword
  have hsuspended := hsame.suspended.trans h.suspended
  rcases h.place with ⟨hresting, cs, last, hreads⟩ | hunclosed
  · rcases reads_readToken hresting hreads with
      ⟨read, hread, hunclosed, hkept⟩ | ⟨result, read, rest, hread, hleft⟩
    · rw [hread] at hraw
      obtain ⟨rfl, rfl⟩ := Prod.mk.inj hraw
      refine ⟨⟨hkeyword, hsuspended, .inr hunclosed⟩, by simp, fun e he => ?_⟩
      exact ⟨(Except.error.inj he).symm, hunclosed, hkept⟩
    · rw [hread] at hraw
      obtain ⟨rfl, rfl⟩ := Prod.mk.inj hraw
      have hsettled := settled_readToken hresting hread
      refine ⟨⟨hkeyword, hsuspended, .inl ⟨hsettled.resting, rest, last, hleft⟩⟩, fun hnone => ?_, by simp⟩
      obtain ⟨hdone, hkept⟩ := hsettled.ended (Except.ok.inj hnone)
      exact ⟨hdone, hsettled.resting.token, hsuspended, hsettled.resting.exhausted hdone, hkept⟩
  · rw [hunclosed.readToken] at hraw
    obtain ⟨rfl, rfl⟩ := Prod.mk.inj hraw
    refine ⟨h.emit l.waiting _, by simp, fun e he => ?_⟩
    exact ⟨(Except.error.inj he).symm, hunclosed.notify _, rfl⟩

/-- In a text, a lexer that is asked for a token stays in the text. If it returns none, or an error, it returns the
same from then on. -/
theorem OnText.nextToken {x : Except LexError (Option String)} (h : l.OnText) (hnext : l.nextToken = (x, m)) :
    m.OnText ∧ ((∃ token, x = .ok (some token)) ∨ ∀ n, m.outlook n = x) := by
  cases hwaiting : l.waiting with
  | cons token waiting =>
    rw [nextToken_of_waiting hwaiting] at hnext
    obtain ⟨rfl, rfl⟩ := Prod.mk.inj hnext
    exact ⟨h.emit waiting _, .inl ⟨token, rfl⟩⟩
  | nil =>
    rw [nextToken_eq_handed h.keyword h.suspended hwaiting] at hnext
    rcases hraw : l.readToken with ⟨e | _ | token, read⟩ <;> rw [hraw] at hnext <;>
      obtain ⟨hread, hended, hfailed⟩ := h.readToken hraw
    · obtain ⟨rfl, hunclosed, hkept⟩ := hfailed e rfl
      obtain ⟨rfl, rfl⟩ := Prod.mk.inj hnext
      exact ⟨hread, .inr (hunclosed.outlook (hkept.trans hwaiting))⟩
    · have hend := hended rfl
      rw [hwaiting] at hend
      rw [handed, setState_of_state hend.state] at hnext
      obtain ⟨rfl, rfl⟩ := Prod.mk.inj hnext
      exact ⟨hread.emit read.waiting _, .inr (hend.notify _).outlook⟩
    · obtain ⟨rfl, rfl⟩ := Prod.mk.inj hnext
      exact ⟨hread.emit read.waiting _, .inl ⟨token, rfl⟩⟩

/-! ## Looking ahead -/

/-- A lexer that looks ahead says of the next token whether there is one. -/
theorem hasNext_fst (l : Lexer) : l.hasNext.1 = l.nextToken.1.map Option.isSome := by
  unfold hasNext
  rcases l.nextToken with ⟨e | _ | token, m⟩ <;> rfl

/-- If what comes next is all that comes, it is so behind it as well. -/
theorem outlook_of_again {x : Except LexError (Option String)} (hnext : l.nextToken = (x, m))
    (hagain : ∀ n, m.outlook n = x) : m.outlook = l.outlook := by
  rw [outlook_eq_iff, hnext]
  refine ⟨hagain 0, funext fun n => ?_⟩
  rw [← outlook_succ, hagain, hagain]

/-- In a text, a lexer that looks ahead stays in the text, with the same in prospect. -/
theorem OnText.hasNext (h : l.OnText) : l.hasNext.2.OnText ∧ l.hasNext.2.outlook = l.outlook := by
  rcases hnext : l.nextToken with ⟨x, m⟩
  obtain ⟨hm, hagain⟩ := h.nextToken hnext
  unfold Lexer.hasNext
  rw [hnext]
  rcases x with e | _ | token
  · exact ⟨hm, outlook_of_again hnext (hagain.resolve_left (by simp))⟩
  · exact ⟨hm, outlook_of_again hnext (hagain.resolve_left (by simp))⟩
  · obtain ⟨hfirst, hrest⟩ := m.nextToken_pushToken token
    refine ⟨hm.emit (token :: m.waiting) _, ?_⟩
    rw [outlook_eq_iff, hnext]
    exact ⟨hfirst, hrest⟩

/-- A lexer in a text, and one that has the same in prospect without having looked ahead. -/
structure Ahead (l m : Lexer) : Prop where
  onText : l.OnText
  outlook : m.outlook = l.outlook

/-- Whatever is done with tokens, both return the same, and have the same in prospect afterwards. When only the first
looks ahead, this is so as well. -/
theorem Ahead.answers (h : Ahead l m) {ops : List Op} (hops : ∀ op ∈ ops, op.isOfTokens = true) :
    (l.answers ops).filter (!·.isMore) = m.answers (ops.filter (!·.looksAhead)) ∧
      Ahead (l.after ops) (m.after (ops.filter (!·.looksAhead))) := by
  induction ops generalizing l m with
  | nil => exact ⟨rfl, h⟩
  | cons op ops ih =>
    rw [List.forall_mem_cons] at hops
    obtain ⟨hop, hops⟩ := hops
    cases op with
    | nextToken =>
      obtain ⟨hfirst, hrest⟩ := outlook_eq_iff.1 h.outlook
      obtain ⟨hanswers, hafter⟩ := ih (l := l.nextToken.2) (m := m.nextToken.2)
        ⟨(h.onText.nextToken rfl).1, hrest⟩ hops
      have hanswer : Answer.token l.nextToken.1 = Answer.token m.nextToken.1 := by rw [hfirst]
      exact ⟨List.cons_eq_cons.2 ⟨hanswer, hanswers⟩, hafter⟩
    | pushToken token =>
      obtain ⟨hanswers, hafter⟩ := ih (l := l.pushToken token) (m := m.pushToken token)
        ⟨h.onText.emit _ _, outlook_pushToken h.outlook token⟩ hops
      exact ⟨congrArg _ hanswers, hafter⟩
    | hasNext =>
      -- The second lexer stays as it is.
      obtain ⟨hontext, hsame⟩ := h.onText.hasNext
      exact ih (l := l.hasNext.2) ⟨hontext, h.outlook.trans hsame.symm⟩ hops
    | readToken | iterate | popSource | close => cases hop
    | pushSource stream origin => cases hop

/-- In a text without inclusions, tokens are read and put back in any order, and in between it is asked at any places
whether there is another one. What is returned to the other operations is what they return if it is not asked. And
wherever it is asked, the answer is right: there is a token, there is none, or there is an error, just as the next
token would be returned there, and as it would be if it had not been asked before either. -/
theorem lookahead_transparent {config : Config} (hkeyword : config.sourceKeyword = none) (resolver : Resolver)
    (text : String) {ops : List Op} (hops : ∀ op ∈ ops, op.isOfTokens = true) :
    ((ofText config resolver text).answers ops).filter (!·.isMore) =
        (ofText config resolver text).answers (ops.filter (!·.looksAhead)) ∧
      ∀ before rest, ops = before ++ .hasNext :: rest →
        ((ofText config resolver text).after before).hasNext.1 =
            ((ofText config resolver text).after before).nextToken.1.map Option.isSome ∧
          ((ofText config resolver text).after before).nextToken.1 =
            ((ofText config resolver text).after (before.filter (!·.looksAhead))).nextToken.1 := by
  have hreads : (ofText config resolver text).Reads text.toList (1 + text.toList.count '\n') :=
    ⟨text.toList, Stream.ofText_eq_ofChars text, rfl, Nat.zero_le _, rfl⟩
  have hahead : Ahead (ofText config resolver text) (ofText config resolver text) :=
    ⟨⟨hkeyword, rfl, .inl ⟨resting_ofSource .., _, _, hreads⟩⟩, rfl⟩
  refine ⟨(hahead.answers hops).1, ?_⟩
  rintro before rest rfl
  have hbefore : ∀ op ∈ before, op.isOfTokens = true := fun op hop => hops op (List.mem_append_left _ hop)
  exact ⟨hasNext_fst _, (congrFun (hahead.answers hbefore).2.outlook 0).symm⟩

set_option maxRecDepth 4000 in
/-- A colon waits behind the word that it ends, and behind it a quotation is left open. The word, another token that is
put back in front of the colon, the colon and the error come as they do if nobody looks ahead, and the error is
announced to those who do. -/
theorem lookahead_colon :
    ((ofText { whitespaceSplit := false } Resolver.refusing "a:'").answers
        [.hasNext, .nextToken, .pushToken "p", .hasNext, .nextToken, .nextToken, .hasNext, .hasNext,
          .nextToken]).filter (!·.isMore) =
        [.token (.ok (some "a")), .nothing, .token (.ok (some "p")), .token (.ok (some ":")),
          .token (.error (.unterminatedQuotation none 1))] ∧
      ((ofText { whitespaceSplit := false } Resolver.refusing "a:'").after
        [.hasNext, .nextToken, .pushToken "p", .hasNext, .nextToken, .nextToken, .hasNext]).hasNext.1 =
        .error (.unterminatedQuotation none 1) := by
  have hword : (ofText { whitespaceSplit := false } Resolver.refusing "a:'").nextToken =
      (.ok (some "a"), { ofText { whitespaceSplit := false } Resolver.refusing "'" with waiting := [":"] }) :=
    nextToken_of_nextTokenWithin (n := 10) rfl
  have hput : (pushToken { ofText { whitespaceSplit := false } Resolver.refusing "'" with
      waiting := [":"] } "p").nextToken =
        (.ok (some "p"), { ofText { whitespaceSplit := false } Resolver.refusing "'" with waiting := [":"] }) := rfl
  have hcolon : Lexer.nextToken { ofText { whitespaceSplit := false } Resolver.refusing "'" with
      waiting := [":"] } = (.ok (some ":"), ofText { whitespaceSplit := false } Resolver.refusing "'") := rfl
  have hquote : (ofText { whitespaceSplit := false } Resolver.refusing "'").nextToken =
      (.error (.unterminatedQuotation none 1), { ofText { whitespaceSplit := false } Resolver.refusing "" with
        state := .quote '\'' }) :=
    nextToken_of_nextTokenWithin (n := 10) rfl
  obtain ⟨hanswers, hasked⟩ := @lookahead_transparent { whitespaceSplit := false } rfl Resolver.refusing "a:'"
    [.hasNext, .nextToken, .pushToken "p", .hasNext, .nextToken, .nextToken, .hasNext, .hasNext, .nextToken]
    (by decide)
  obtain ⟨hnext, hplain⟩ := hasked
    [.hasNext, .nextToken, .pushToken "p", .hasNext, .nextToken, .nextToken, .hasNext] [.nextToken] rfl
  constructor
  · rw [hanswers]
    simp only [List.filter, Op.looksAhead, Bool.not_true, Bool.not_false, answers_cons, Op.answer, Op.perform, hword,
      hput, hcolon, hquote]
    rfl
  · rw [hnext, hplain]
    simp only [List.filter, Op.looksAhead, Bool.not_true, Bool.not_false, after_cons, Op.perform, hword, hput, hcolon]
    exact congrArg (·.1.map Option.isSome) hquote

end Lexer
end ShellWords
