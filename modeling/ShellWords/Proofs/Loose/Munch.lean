import ShellWords.Proofs.Lexing.Words

/-!
# Splitting without POSIX rules

Without POSIX rules a text can be cut into tokens by looking at the first character of each and taking as much
as belongs to it. `Rules.tokensOf?` does so, with no state, no token in progress and nothing put back: it
passes over white space and comments (`Rules.behindBlanks`), and then takes a word, a run of operators, a
quotation with its quotes, or a character that stands alone. Words and runs go on behind a comment
(`Rules.munch`). `splitWith_loose`: these are the words that the lexer returns.

The automaton is compared with `munch` once, for all states in which a token goes on as long as characters of
some class follow (`Rules.Munches`).
-/

namespace ShellWords
namespace Rules

variable (r : Rules)

/-! ## Tokens by their first character -/

/-- What a text is behind the white space and the comments that it begins with. A comment ends with its
line. -/
def behindBlanks : List Char → List Char
  | [] => []
  | c :: cs =>
    if r.classes.isWhitespace c then behindBlanks cs
    else if r.classes.isComment c then behindBlanks (Source.afterLine cs)
    else c :: cs
termination_by cs => cs.length
decreasing_by
  · exact Nat.lt_succ_self _
  · exact Nat.lt_succ_of_le (Source.length_afterLine_le cs)

/-- The characters of a class that a text begins with, and what is left behind them. White space ends them, and
a comment between them is passed over with its line. -/
def munch (belongs : Char → Bool) : List Char → List Char × List Char
  | [] => ([], [])
  | c :: cs =>
    if r.classes.isWhitespace c then ([], c :: cs)
    else if r.classes.isComment c then munch belongs (Source.afterLine cs)
    else if belongs c then (c :: (munch belongs cs).1, (munch belongs cs).2)
    else ([], c :: cs)
termination_by cs => cs.length
decreasing_by
  · exact Nat.lt_succ_of_le (Source.length_afterLine_le cs)
  · exact Nat.lt_succ_self _

/-- Whether a character extends a word. -/
def extendsWord (c : Char) : Bool :=
  r.classes.isWord c || r.classes.isQuote c || (r.whitespaceSplit && !r.classes.isPunctuation c)

/-- The token that starts with this character, and what is left behind it. There is none when the character
opens a quotation that nothing closes. -/
def tokenAt? (c : Char) (cs : List Char) : Option (List Char × List Char) :=
  if r.classes.isWord c then some (c :: (r.munch r.extendsWord cs).1, (r.munch r.extendsWord cs).2)
  else if r.classes.isPunctuation c then
    some (c :: (r.munch r.classes.isPunctuation cs).1, (r.munch r.classes.isPunctuation cs).2)
  else if r.classes.isQuote c then
    if c ∈ cs then some (c :: (cs.takeWhile (· != c) ++ [c]), (cs.dropWhile (· != c)).drop 1)
    else none
  else if r.whitespaceSplit then
    some (c :: (r.munch r.extendsWord cs).1, (r.munch r.extendsWord cs).2)
  else some ([c], cs)

/-! ## What is left becomes shorter -/

/-- Behind the blanks the text is no longer than before. -/
theorem length_behindBlanks_le (cs : List Char) : (r.behindBlanks cs).length ≤ cs.length := by
  fun_induction behindBlanks r cs with
  | case1 => exact Nat.le_refl _
  | case2 c cs hspace ih => exact Nat.le_succ_of_le ih
  | case3 c cs hspace hcomment ih =>
    exact Nat.le_succ_of_le (Nat.le_trans ih (Source.length_afterLine_le cs))
  | case4 c cs hspace hcomment => exact Nat.le_refl _

/-- Nor is it behind a run of characters. -/
theorem length_munch_le (belongs : Char → Bool) (cs : List Char) :
    (r.munch belongs cs).2.length ≤ cs.length := by
  fun_induction munch r belongs cs with
  | case1 => exact Nat.le_refl _
  | case2 c cs hspace => exact Nat.le_refl _
  | case3 c cs hspace hcomment ih =>
    exact Nat.le_succ_of_le (Nat.le_trans ih (Source.length_afterLine_le cs))
  | case4 c cs hspace hcomment hbelongs ih => exact Nat.le_succ_of_le ih
  | case5 c cs hspace hcomment hnot => exact Nat.le_refl _

/-- What is left behind a token is no longer than what follows its first character. -/
theorem length_tokenAt?_le {c : Char} {cs token rest : List Char}
    (h : r.tokenAt? c cs = some (token, rest)) : rest.length ≤ cs.length := by
  unfold tokenAt? at h
  split_ifs at h
  all_goals
    obtain ⟨-, rfl⟩ := Prod.mk.inj (Option.some.inj h)
  · exact r.length_munch_le r.extendsWord cs
  · exact r.length_munch_le r.classes.isPunctuation cs
  · have hle := (List.dropWhile_suffix (l := cs) (· != c)).length_le
    rw [List.length_drop]
    omega
  · exact r.length_munch_le r.extendsWord cs
  · exact Nat.le_refl _

/-- All tokens of a text. There are none when it ends inside a quotation. -/
def tokensOf? (cs : List Char) : Option (List String) :=
  match _hskip : r.behindBlanks cs with
  | [] => some []
  | c :: behind =>
    match _htoken : r.tokenAt? c behind with
    | none => none
    | some (token, rest) => (tokensOf? rest).map (String.ofList token :: ·)
termination_by cs.length
decreasing_by
  have hskip := r.length_behindBlanks_le cs
  rw [_hskip, List.length_cons] at hskip
  have hrest := r.length_tokenAt?_le _htoken
  omega

variable {r}

/-! ## The automaton takes as much as belongs to a token -/

/-- In this state a token takes the characters of this class, passes over comments, and ends at white space and
at any other character, which is read as the first of what follows. -/
structure Munches (r : Rules) (state : State) (belongs : Char → Bool) : Prop where
  closed : state.isOpen = false
  boundary : ∀ token quoted c,
    ∃ inside, r.move state token quoted c = r.moveAtBoundary state token quoted c inside
  takes : ∀ token quoted c, r.classes.isWhitespace c = false → r.classes.isComment c = false →
    belongs c = true →
    r.move state token quoted c = { state, token := token.push c, quoted }
  ends : ∀ token quoted c cs, r.isToken token quoted = true → r.classes.isWhitespace c = false →
    r.classes.isComment c = false → belongs c = false →
    r.wordsFrom state token quoted (c :: cs) =
      (r.wordsFrom .start "" false (c :: cs)).map (token :: ·)

variable {state : State} {belongs : Char → Bool} {token : String} {quoted : Bool} {c : Char}
  {cs : List Char}

/-- A token in progress takes what belongs to it, and is a word. -/
theorem Munches.wordsFrom_eq (h : r.Munches state belongs) (hposix : r.posix = false)
    (token : String) (htoken : r.isToken token quoted = true) (cs : List Char) :
    r.wordsFrom state token quoted cs =
      (r.wordsFrom .start "" false (r.munch belongs cs).2).map
        ((token ++ String.ofList (r.munch belongs cs).1) :: ·) := by
  fun_induction munch r belongs cs generalizing token with
  | case1 =>
    rw [String.ofList_nil, String.append_empty]
    exact wordsFrom_nil_of_isToken h.closed htoken
  | case2 c cs hspace =>
    obtain ⟨inside, hmove⟩ := h.boundary token quoted c
    rw [String.ofList_nil, String.append_empty, wordsFrom_start_space hspace]
    refine wordsFrom_of_completes (m := { state := .start, token, quoted, complete := true })
      ?_ rfl rfl rfl
    rw [hmove, moveAtBoundary, if_pos hspace, htoken]
  | case3 c cs hspace hcomment ih =>
    -- Without POSIX rules the token goes on behind the comment.
    obtain ⟨inside, hmove⟩ := h.boundary token quoted c
    rw [← ih token htoken]
    refine wordsFrom_of_skips (m := { state, token, quoted, skipsLine := true }) ?_ rfl rfl
    rw [hmove, moveAtBoundary, if_neg hspace, if_pos hcomment, hposix]
    rfl
  | case4 c cs hspace hcomment hbelongs ih =>
    rw [Bool.not_eq_true] at hspace hcomment
    rw [← push_append_ofList, ← ih (token.push c) (r.isToken_push ..)]
    exact wordsFrom_of_continues (h.takes token quoted c hspace hcomment hbelongs) rfl rfl
  | case5 c cs hspace hcomment hnot =>
    rw [Bool.not_eq_true] at hspace hcomment hnot
    rw [String.ofList_nil, String.append_empty]
    exact h.ends token quoted c cs htoken hspace hcomment hnot

/-- A character with which a token begins that goes on as `munch` does. -/
theorem Munches.wordsFrom_start (h : r.Munches state belongs) (hposix : r.posix = false)
    (hm : r.move .start "" false c = { state, token := String.singleton c, quoted := false }) :
    r.wordsFrom .start "" false (c :: cs) =
      (r.wordsFrom .start "" false (r.munch belongs cs).2).map
        (String.ofList (c :: (r.munch belongs cs).1) :: ·) := by
  have hfirst : String.ofList (c :: (r.munch belongs cs).1) =
      String.singleton c ++ String.ofList (r.munch belongs cs).1 := by
    rw [← String.toList_inj]
    simp
  rw [hfirst, ← h.wordsFrom_eq hposix _ (r.isToken_singleton c false) cs]
  exact wordsFrom_of_continues hm rfl rfl

/-- A character that neither begins nor extends anything is a token, between tokens. -/
theorem wordsFrom_start_single (hposix : r.posix = false) (hspace : r.classes.isWhitespace c = false)
    (hcomment : r.classes.isComment c = false) (hword : r.classes.isWord c = false)
    (hoperator : r.classes.isPunctuation c = false) (hquote : r.classes.isQuote c = false)
    (hsplit : r.whitespaceSplit = false) :
    r.wordsFrom .start "" false (c :: cs) =
      (r.wordsFrom .start "" false cs).map (String.singleton c :: ·) := by
  refine wordsFrom_of_completes
    (m := { state := .start, token := String.singleton c, quoted := false, complete := true })
    ?_ rfl rfl rfl
  simp [move, moveFromStart, hspace, hcomment, hposix, hword, hoperator, hquote, hsplit]

/-- A word takes the characters that extend it. -/
theorem munches_word (hposix : r.posix = false) : r.Munches .word r.extendsWord where
  closed := rfl
  boundary := fun token quoted c => ⟨_, rfl⟩
  takes := by
    intro token quoted c hspace hcomment hbelongs
    have hextends : (r.classes.isWord c || r.classes.isQuote c ||
        (r.whitespaceSplit && !r.classes.isPunctuation c)) = true := hbelongs
    simp only [move, moveFromWord, moveAtBoundary, hspace, hcomment, hposix, Bool.false_and,
      Bool.false_eq_true, if_false, hextends, if_true]
  ends := by
    intro token quoted c cs htoken hspace hcomment hnot
    have hends : (r.classes.isWord c || r.classes.isQuote c ||
        (r.whitespaceSplit && !r.classes.isPunctuation c)) = false := hnot
    by_cases hactive : r.classes.punctuationActive = true
    · refine wordsFrom_of_char
        (m := { state := .start, token, quoted, held := .char, complete := true }) ?_ rfl rfl
      simp only [move, moveFromWord, moveAtBoundary, hspace, hcomment, hposix, Bool.false_and,
        Bool.false_eq_true, if_false, hends, hactive, if_true, htoken]
    · -- Without operators the character is put back as a token, and it would be one in any case.
      have hoperator : r.classes.isPunctuation c = false := by
        rw [← Bool.not_eq_true]
        intro hoperator
        exact hactive (r.punctuationActive_of_isPunctuation hoperator)
      have hclasses := hends
      rw [hoperator, Bool.not_false, Bool.and_true, Bool.or_eq_false_iff, Bool.or_eq_false_iff] at hclasses
      rw [wordsFrom_start_single hposix hspace hcomment hclasses.1.1 hoperator hclasses.1.2 hclasses.2]
      refine wordsFrom_of_token
        (m := { state := .start, token, quoted, held := .token, complete := true }) ?_ rfl rfl
      simp only [move, moveFromWord, moveAtBoundary, hspace, hcomment, hposix, Bool.false_and,
        Bool.false_eq_true, if_false, hends, if_neg hactive, htoken]

/-- A run takes operators. -/
theorem munches_run : r.Munches .punctuation r.classes.isPunctuation where
  closed := rfl
  boundary := fun token quoted c => ⟨_, rfl⟩
  takes := by
    intro token quoted c hspace hcomment hbelongs
    simp only [move, moveFromPunctuation, moveAtBoundary, hspace, hcomment, hbelongs,
      Bool.false_eq_true, if_false, if_true]
  ends := by
    intro token quoted c cs htoken hspace hcomment hnot
    refine wordsFrom_of_char
      (m := { state := .start, token, quoted, held := .char, complete := true }) ?_ rfl rfl
    simp only [move, moveFromPunctuation, moveAtBoundary, hspace, hcomment, hnot,
      Bool.false_eq_true, if_false]

/-! ## Quotations -/

/-- A quotation takes everything up to the next quote, and is a word with it. Where there is none, the text ends
inside. -/
theorem wordsFrom_quotation_loose (hposix : r.posix = false) (q : Char) (token : String) (quoted : Bool)
    (cs : List Char) :
    r.wordsFrom (.quote q) token quoted cs =
      if q ∈ cs then
        (r.wordsFrom .start "" false ((cs.dropWhile (· != q)).drop 1)).map
          ((token ++ String.ofList (cs.takeWhile (· != q) ++ [q])) :: ·)
      else none := by
  induction cs generalizing token quoted with
  | nil => simp [wordsFrom, State.isOpen]
  | cons c cs ih =>
    by_cases hc : c = q
    · subst hc
      have htoken : token ++ String.ofList [c] = token.push c := by
        rw [← push_append_ofList, String.ofList_nil, String.append_empty]
      rw [if_pos List.mem_cons_self, List.takeWhile_cons_of_neg (by simp),
        List.dropWhile_cons_of_neg (by simp), List.nil_append, htoken]
      refine wordsFrom_of_completes
        (m := { state := .start, token := token.push c, quoted := true, complete := true }) ?_ rfl rfl rfl
      simp [move, moveFromQuote, hposix]
    · have hmove : r.move (.quote q) token quoted c =
          { state := .quote q, token := token.push c, quoted := true } := by
        simp [move, moveFromQuote, hposix, hc]
      have hmem : q ∈ c :: cs ↔ q ∈ cs := by simp [Ne.symm hc]
      rw [wordsFrom_of_continues hmove rfl rfl, List.takeWhile_cons_of_pos (by simpa using hc),
        List.dropWhile_cons_of_pos (by simpa using hc), List.cons_append, ← push_append_ofList]
      simp only [hmem]
      exact ih (token.push c) true

/-! ## All tokens -/

/-- The automaton passes over white space and comments. -/
theorem wordsFrom_behindBlanks (cs : List Char) :
    r.wordsFrom .start "" false (r.behindBlanks cs) = r.wordsFrom .start "" false cs := by
  fun_induction behindBlanks r cs with
  | case1 => rfl
  | case2 c cs hspace ih => rw [ih, wordsFrom_start_space hspace]
  | case3 c cs hspace hcomment ih =>
    rw [Bool.not_eq_true] at hspace
    rw [ih, wordsFrom_start_comment hspace hcomment]
  | case4 c cs hspace hcomment => rfl

/-- Behind blanks there is neither white space nor a comment. -/
theorem not_blank_of_behindBlanks {behind : List Char} (h : r.behindBlanks cs = c :: behind) :
    r.classes.isWhitespace c = false ∧ r.classes.isComment c = false := by
  fun_induction behindBlanks r cs with
  | case1 => cases h
  | case2 d cs hspace ih => exact ih h
  | case3 d cs hspace hcomment ih => exact ih h
  | case4 d cs hspace hcomment =>
    obtain ⟨rfl, -⟩ := List.cons.inj h
    exact ⟨by simpa using hspace, by simpa using hcomment⟩

/-- The automaton finds the token at the start of a text, or ends inside a quotation. -/
theorem wordsFrom_tokenAt? (hposix : r.posix = false) (hspace : r.classes.isWhitespace c = false)
    (hcomment : r.classes.isComment c = false) (cs : List Char) :
    r.wordsFrom .start "" false (c :: cs) = match r.tokenAt? c cs with
      | none => none
      | some (token, rest) => (r.wordsFrom .start "" false rest).map (String.ofList token :: ·) := by
  unfold tokenAt?
  split_ifs with hword hoperator hquote hclosed hsplit
  · refine (munches_word hposix).wordsFrom_start hposix ?_
    simp [move, moveFromStart, hspace, hcomment, hposix, hword]
  · refine munches_run.wordsFrom_start hposix ?_
    simp [move, moveFromStart, hspace, hcomment, hposix, hword, hoperator]
  · have hmove : r.move .start "" false c =
        { state := .quote c, token := String.singleton c, quoted := false } := by
      simp [move, moveFromStart, hspace, hcomment, hposix, hword, hoperator, hquote]
    have hfirst : String.singleton c ++ String.ofList (cs.takeWhile (· != c) ++ [c]) =
        String.ofList (c :: (cs.takeWhile (· != c) ++ [c])) := by
      rw [← String.toList_inj]
      simp
    rw [wordsFrom_of_continues hmove rfl rfl, wordsFrom_quotation_loose hposix, if_pos hclosed, hfirst]
  · have hmove : r.move .start "" false c =
        { state := .quote c, token := String.singleton c, quoted := false } := by
      simp [move, moveFromStart, hspace, hcomment, hposix, hword, hoperator, hquote]
    rw [wordsFrom_of_continues hmove rfl rfl, wordsFrom_quotation_loose hposix, if_neg hclosed]
  · refine (munches_word hposix).wordsFrom_start hposix ?_
    simp [move, moveFromStart, hspace, hcomment, hposix, hword, hoperator, hquote, hsplit]
  · rw [Bool.not_eq_true] at hword hoperator hquote hsplit
    exact wordsFrom_start_single hposix hspace hcomment hword hoperator hquote hsplit

/-- The automaton finds the tokens that the first characters announce. -/
theorem wordsFrom_eq_tokensOf? (hposix : r.posix = false) (cs : List Char) :
    r.wordsFrom .start "" false cs = r.tokensOf? cs := by
  fun_induction tokensOf? r cs with
  | case1 cs hskip => rw [← wordsFrom_behindBlanks, hskip, wordsFrom_start_nil]
  | case2 cs c behind hskip htoken =>
    obtain ⟨hspace, hcomment⟩ := not_blank_of_behindBlanks hskip
    rw [← wordsFrom_behindBlanks, hskip, wordsFrom_tokenAt? hposix hspace hcomment, htoken]
  | case3 cs c behind hskip token rest htoken ih =>
    obtain ⟨hspace, hcomment⟩ := not_blank_of_behindBlanks hskip
    rw [← wordsFrom_behindBlanks, hskip, wordsFrom_tokenAt? hposix hspace hcomment, htoken, ← ih]

end Rules

/-- Without POSIX rules and files, the words of a text are its tokens, each as long as its first character allows.
A text with a quotation that nothing closes is reported at its last line. -/
theorem splitWith_loose {config : Config} (hposix : config.posix = false)
    (hkeyword : config.sourceKeyword = none) (resolver : Resolver) (text : String) :
    splitWith config resolver text =
      match (Rules.ofConfig config).tokensOf? text.toList with
      | some tokens => .ok tokens
      | none => .error (.unterminatedQuotation none (1 + text.toList.count '\n')) := by
  have hsplit : splitWith config resolver text = _ := Lexer.words_ofText hkeyword resolver text
  rw [hsplit, Rules.wordsFrom_eq_tokensOf? hposix]
  cases (Rules.ofConfig config).tokensOf? text.toList <;> rfl

/-- A word goes on behind a comment, and a quotation that stands at the start of a token is one. -/
theorem splitWith_loose_comment :
    splitWith { posix := false, comments := true, punctuation := .shell } Resolver.refusing
      "a#b\nc|'d e'f" = .ok ["ac", "|", "'d e'", "f"] := by
  have htokens : (Rules.ofConfig { posix := false, comments := true, punctuation := .shell }).tokensOf?
      "a#b\nc|'d e'f".toList = some ["ac", "|", "'d e'", "f"] := by decide +kernel
  rw [splitWith_loose rfl rfl, htokens]

end ShellWords
