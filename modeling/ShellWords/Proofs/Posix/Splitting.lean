import ShellWords.Proofs.Posix.Automaton

/-!
# POSIX splitting follows the grammar

For each part of the grammar there are two statements: where a text begins with such a part, the automaton
passes over it and adds its value to the token; and a text either begins with such a part or leads the
automaton to an end inside a quotation. From both together, `splitWith_posix`: the words of a text are
those that the grammar gives to it, and a text that the grammar does not contain is reported as ending
inside a quotation.
-/

namespace ShellWords

/-- A quotation stands between single or double quotes. -/
theorem Quotation.isQuote {q : Char} {body value : List Char} (h : Quotation q body value) :
    q = '\'' ∨ q = '"' := by
  cases h with
  | single h => exact .inl rfl
  | double h => exact .inr rfl

/-- A piece begins with a character that starts a word. -/
theorem Rules.Piece.starts {r : Rules} {text value : List Char} (h : r.Piece text value) :
    ∃ c rest, text = c :: rest ∧ r.StartsWord c := by
  cases h with
  | plain h => exact ⟨_, _, rfl, .inr (.inr h)⟩
  | escaped c => exact ⟨_, _, rfl, .inr (.inl rfl)⟩
  | quotation h => exact ⟨_, _, rfl, .inl h.isQuote⟩

/-- Every text begins with operators, possibly none, that go on as far as can be. -/
theorem Rules.exists_run (r : Rules) (cs : List Char) :
    ∃ run rest, cs = run ++ rest ∧ (∀ c ∈ run, r.Operator c) ∧ r.EndsRun rest := by
  induction cs with
  | nil => exact ⟨[], [], rfl, by simp, by simp [EndsRun]⟩
  | cons c cs ih =>
    by_cases hc : r.Operator c
    · obtain ⟨run, rest, rfl, hrun, hends⟩ := ih
      refine ⟨c :: run, rest, rfl, ?_, hends⟩
      rw [List.forall_mem_cons]
      exact ⟨hc, hrun⟩
    · exact ⟨[], c :: cs, rfl, by simp, by simpa [EndsRun] using hc⟩

namespace Rules.Posix

variable {r : Rules} (hr : r.Posix) {token : String} {quoted : Bool} {text value cs : List Char}
include hr

/-! ## Quotations -/

/-- The inside of a double quotation adds what it stands for to the token. -/
theorem wordsFrom_doubleQuoted (h : DoubleQuoted text value) (token : String) (quoted : Bool)
    (cs : List Char) :
    r.wordsFrom (.quote '"') token quoted (text ++ '"' :: cs) =
      r.wordsFrom .word (token ++ String.ofList value) true cs := by
  induction h generalizing token quoted with
  | nil =>
    rw [List.nil_append, hr.wordsFrom_quote_close]
    simp
  | char hquote hescape h ih =>
    rw [List.cons_append, hr.wordsFrom_quote_char hquote (fun _ => hescape), ih, push_append_ofList]
  | escapedQuote h ih =>
    rw [List.cons_append, List.cons_append, hr.wordsFrom_double_escape,
      hr.wordsFrom_double_escaped (.inl rfl), ih, push_append_ofList]
  | escapedEscape h ih =>
    rw [List.cons_append, List.cons_append, hr.wordsFrom_double_escape,
      hr.wordsFrom_double_escaped (.inr rfl), ih, push_append_ofList]
  | keptEscape hquote hescape h ih =>
    rw [List.cons_append, List.cons_append, hr.wordsFrom_double_escape,
      hr.wordsFrom_double_kept hquote hescape, ih, push_append_ofList, push_append_ofList]

/-- A character that is not the quote adds itself in a single quotation. -/
theorem wordsFrom_singleQuoted (h : '\'' ∉ text) (token : String) (quoted : Bool) (cs : List Char) :
    r.wordsFrom (.quote '\'') token quoted (text ++ '\'' :: cs) =
      r.wordsFrom .word (token ++ String.ofList text) true cs := by
  induction text generalizing token quoted with
  | nil =>
    rw [List.nil_append, hr.wordsFrom_quote_close]
    simp
  | cons c text ih =>
    rw [List.mem_cons, not_or] at h
    rw [List.cons_append, hr.wordsFrom_quote_char (Ne.symm h.1) (by simp), ih h.2, push_append_ofList]

/-- A quotation adds what it stands for to the token. -/
theorem wordsFrom_quotation {q : Char} (h : Quotation q text value) (token : String) (quoted : Bool)
    (cs : List Char) :
    r.wordsFrom (.quote q) token quoted (text ++ q :: cs) =
      r.wordsFrom .word (token ++ String.ofList value) true cs := by
  cases h with
  | single h => exact hr.wordsFrom_singleQuoted h token quoted cs
  | double h => exact hr.wordsFrom_doubleQuoted h token quoted cs

/-- A double quotation is closed, or the text ends inside it. -/
theorem doubleQuoted_or_open (cs : List Char) :
    (∃ text value rest, cs = text ++ '"' :: rest ∧ DoubleQuoted text value) ∨
      ∀ token quoted, r.wordsFrom (.quote '"') token quoted cs = none := by
  match cs with
  | [] => exact .inr fun token quoted => by simp [wordsFrom, State.isOpen]
  | c :: cs =>
    by_cases hquote : c = '"'
    · subst hquote
      exact .inl ⟨[], [], cs, rfl, .nil⟩
    by_cases hescape : c = '\\'
    · subst hescape
      match cs with
      | [] =>
        refine .inr fun token quoted => ?_
        rw [hr.wordsFrom_double_escape]
        simp [wordsFrom, State.isOpen]
      | d :: cs =>
        rcases doubleQuoted_or_open cs with ⟨text, value, rest, rfl, h⟩ | hopen
        · by_cases hd : d = '"'
          · subst hd
            exact .inl ⟨_, _, rest, rfl, .escapedQuote h⟩
          by_cases hd' : d = '\\'
          · subst hd'
            exact .inl ⟨_, _, rest, rfl, .escapedEscape h⟩
          · exact .inl ⟨_, _, rest, rfl, .keptEscape hd hd' h⟩
        · refine .inr fun token quoted => ?_
          rw [hr.wordsFrom_double_escape]
          by_cases hd : d = '"' ∨ d = '\\'
          · rw [hr.wordsFrom_double_escaped hd]
            exact hopen _ _
          · rw [not_or] at hd
            rw [hr.wordsFrom_double_kept hd.1 hd.2]
            exact hopen _ _
    · rcases doubleQuoted_or_open cs with ⟨text, value, rest, rfl, h⟩ | hopen
      · exact .inl ⟨_, _, rest, rfl, .char hquote hescape h⟩
      · refine .inr fun token quoted => ?_
        rw [hr.wordsFrom_quote_char hquote (fun _ => hescape)]
        exact hopen _ _

/-- A single quotation is closed, or the text ends inside it. -/
theorem singleQuoted_or_open (cs : List Char) :
    (∃ text rest, cs = text ++ '\'' :: rest ∧ '\'' ∉ text) ∨
      ∀ token quoted, r.wordsFrom (.quote '\'') token quoted cs = none := by
  induction cs with
  | nil => exact .inr fun token quoted => by simp [wordsFrom, State.isOpen]
  | cons c cs ih =>
    by_cases hquote : c = '\''
    · subst hquote
      exact .inl ⟨[], cs, rfl, by simp⟩
    rcases ih with ⟨text, rest, rfl, h⟩ | hopen
    · exact .inl ⟨c :: text, rest, rfl, by simp [h, Ne.symm hquote]⟩
    · refine .inr fun token quoted => ?_
      rw [hr.wordsFrom_quote_char hquote (by simp)]
      exact hopen _ _

/-- A quotation is closed, or the text ends inside it. -/
theorem quotation_or_open {q : Char} (hq : q = '\'' ∨ q = '"') (cs : List Char) :
    (∃ text value rest, cs = text ++ q :: rest ∧ Quotation q text value) ∨
      ∀ token quoted, r.wordsFrom (.quote q) token quoted cs = none := by
  rcases hq with rfl | rfl
  · rcases hr.singleQuoted_or_open cs with ⟨text, rest, hcs, h⟩ | hopen
    · exact .inl ⟨text, text, rest, hcs, .single h⟩
    · exact .inr hopen
  · rcases hr.doubleQuoted_or_open cs with ⟨text, value, rest, hcs, h⟩ | hopen
    · exact .inl ⟨text, value, rest, hcs, .double h⟩
    · exact .inr hopen

/-! ## Words -/

/-- A piece adds what it stands for to the token. Then something is in progress, and be it an empty
quotation. -/
theorem wordsFrom_piece (h : r.Piece text value) (token : String) (quoted : Bool) (cs : List Char) :
    ∃ quoted', r.isToken (token ++ String.ofList value) quoted' = true ∧
      r.wordsFrom .word token quoted (text ++ cs) =
        r.wordsFrom .word (token ++ String.ofList value) quoted' cs := by
  have hpush (c : Char) : token ++ String.ofList [c] = token.push c := by
    rw [← push_append_ofList]
    simp
  cases h with
  | @plain c h =>
    rw [hpush]
    exact ⟨quoted, r.isToken_push .., hr.wordsFrom_word_plain h⟩
  | escaped c =>
    rw [hpush]
    refine ⟨quoted, r.isToken_push .., ?_⟩
    rw [List.cons_append, List.cons_append, hr.wordsFrom_word_escape, wordsFrom_escape_word,
      List.nil_append]
  | @quotation q body _ h =>
    refine ⟨true, by simp [isToken, hr.posix], ?_⟩
    calc r.wordsFrom .word token quoted (q :: (body ++ [q]) ++ cs)
        = r.wordsFrom (.quote q) token quoted (body ++ q :: cs) := by
          rw [List.cons_append, List.append_assoc, List.singleton_append, hr.wordsFrom_word_quote h.isQuote]
      _ = r.wordsFrom .word (token ++ String.ofList value) true cs := hr.wordsFrom_quotation h ..

/-- Pieces add what they stand for to the token. -/
theorem wordsFrom_pieces (h : r.Pieces text value) (token : String) (quoted : Bool) (cs : List Char)
    (htoken : r.isToken token quoted = true) :
    ∃ quoted', r.isToken (token ++ String.ofList value) quoted' = true ∧
      r.wordsFrom .word token quoted (text ++ cs) =
        r.wordsFrom .word (token ++ String.ofList value) quoted' cs := by
  induction h generalizing token quoted with
  | nil => exact ⟨quoted, by simpa using htoken, by simp⟩
  | @cons text value text' value' piece pieces ih =>
    obtain ⟨quoted₁, htoken₁, hpiece⟩ := hr.wordsFrom_piece piece token quoted (text' ++ cs)
    obtain ⟨quoted₂, htoken₂, hpieces⟩ := ih (token ++ String.ofList value) quoted₁ htoken₁
    have hvalue : token ++ String.ofList value ++ String.ofList value' =
        token ++ String.ofList (value ++ value') := by
      rw [String.append_assoc, String.ofList_append]
    rw [hvalue] at htoken₂ hpieces
    refine ⟨quoted₂, htoken₂, ?_⟩
    rw [List.append_assoc, hpiece, hpieces]

/-- Between items, a piece is read as in a word that is still empty. -/
theorem wordsFrom_start_piece (h : r.Piece text value) (cs : List Char) :
    r.wordsFrom .start "" false (text ++ cs) = r.wordsFrom .word "" false (text ++ cs) := by
  obtain ⟨c, rest, rfl, hc⟩ := h.starts
  exact hr.wordsFrom_start_eq_word hc

/-- A word before a text that it can end before is one of the words. -/
theorem wordsFrom_word {text' value' : List Char} (piece : r.Piece text value)
    (pieces : r.Pieces text' value') (hends : r.EndsWord cs) :
    r.wordsFrom .start "" false (text ++ text' ++ cs) =
      (r.wordsFrom .start "" false cs).map (String.ofList (value ++ value') :: ·) := by
  obtain ⟨quoted₁, htoken₁, hpiece⟩ := hr.wordsFrom_piece piece "" false (text' ++ cs)
  obtain ⟨quoted₂, htoken₂, hpieces⟩ := hr.wordsFrom_pieces pieces _ quoted₁ cs htoken₁
  have hvalue : "" ++ String.ofList value ++ String.ofList value' = String.ofList (value ++ value') := by
    rw [String.empty_append, String.ofList_append]
  rw [hvalue] at htoken₂ hpieces
  rw [List.append_assoc, hr.wordsFrom_start_piece piece, hpiece, hpieces,
    hr.wordsFrom_word_ends htoken₂ hends]

/-- A text begins with pieces before something that ends a word, or leads to an end inside a
quotation. -/
theorem pieces_or_open (cs : List Char) :
    (∃ text value rest, cs = text ++ rest ∧ r.Pieces text value ∧ r.EndsWord rest) ∨
      ∀ token quoted, r.wordsFrom .word token quoted cs = none := by
  match cs with
  | [] => exact .inl ⟨[], [], [], rfl, .nil, by simp [EndsWord]⟩
  | c :: cs =>
    have hends (h : r.classes.isWhitespace c = true ∨ r.Operator c ∨ r.Alone c) :
        r.EndsWord (c :: cs) := by simpa [EndsWord] using h
    rcases r.role c with hspace | hquote | rfl | hplain | hoperator | halone
    · exact .inl ⟨[], [], c :: cs, rfl, .nil, hends (.inl hspace)⟩
    · rcases hr.quotation_or_open hquote cs with ⟨body, value, rest, hcs, h⟩ | hopen
      · have hlt : rest.length < cs.length := by
          rw [hcs, List.length_append, List.length_cons]
          omega
        rcases pieces_or_open rest with ⟨text', value', rest', hrest, h', hends'⟩ | hopen
        · refine .inl ⟨_, _, rest', ?_, .cons (.quotation h) h', hends'⟩
          rw [hcs, hrest]
          simp
        · refine .inr fun token quoted => ?_
          rw [hr.wordsFrom_word_quote hquote, hcs, hr.wordsFrom_quotation h]
          exact hopen _ _
      · refine .inr fun token quoted => ?_
        rw [hr.wordsFrom_word_quote hquote]
        exact hopen _ _
    · match cs with
      | [] =>
        refine .inr fun token quoted => ?_
        rw [hr.wordsFrom_word_escape]
        simp [wordsFrom, State.isOpen]
      | d :: cs =>
        rcases pieces_or_open cs with ⟨text', value', rest', rfl, h', hends'⟩ | hopen
        · exact .inl ⟨_, _, rest', rfl, .cons (.escaped d) h', hends'⟩
        · refine .inr fun token quoted => ?_
          rw [hr.wordsFrom_word_escape, wordsFrom_escape_word]
          exact hopen _ _
    · rcases pieces_or_open cs with ⟨text', value', rest', rfl, h', hends'⟩ | hopen
      · exact .inl ⟨_, _, rest', rfl, .cons (.plain hplain) h', hends'⟩
      · refine .inr fun token quoted => ?_
        rw [hr.wordsFrom_word_plain hplain]
        exact hopen _ _
    · exact .inl ⟨[], [], c :: cs, rfl, .nil, hends (.inr (.inl hoperator))⟩
    · exact .inl ⟨[], [], c :: cs, rfl, .nil, hends (.inr (.inr halone))⟩
termination_by cs.length
decreasing_by all_goals (simp only [List.length_cons]; omega)

/-! ## Runs of operators -/

/-- Operators extend a run, up to a text that it can end before. -/
theorem wordsFrom_operators (h : ∀ c ∈ text, r.Operator c) (hends : r.EndsRun cs)
    (htoken : r.isToken token quoted = true) :
    r.wordsFrom .punctuation token quoted (text ++ cs) =
      (r.wordsFrom .start "" false cs).map ((token ++ String.ofList text) :: ·) := by
  induction text generalizing token with
  | nil => simpa using hr.wordsFrom_run_ends htoken hends
  | cons c text ih =>
    rw [List.forall_mem_cons] at h
    rw [List.cons_append, hr.wordsFrom_run_operator h.1, ih h.2 (r.isToken_push ..),
      push_append_ofList]

/-- A run of operators before a text that it can end before is one of the words. -/
theorem wordsFrom_run (hne : text ≠ []) (h : ∀ c ∈ text, r.Operator c) (hends : r.EndsRun cs) :
    r.wordsFrom .start "" false (text ++ cs) =
      (r.wordsFrom .start "" false cs).map (String.ofList text :: ·) := by
  obtain ⟨c, text, rfl⟩ := List.exists_cons_of_ne_nil hne
  rw [List.forall_mem_cons] at h
  have htext : String.singleton c ++ String.ofList text = String.ofList (c :: text) := by
    rw [← String.toList_inj]
    simp
  rw [List.cons_append, hr.wordsFrom_start_operator h.1,
    hr.wordsFrom_operators h.2 hends (r.isToken_singleton ..), htext]

/-! ## Texts -/

omit hr in
/-- An operator is not plain, and neither is a character that stands alone. -/
theorem not_operator_of_plain {c : Char} (h : r.Plain c) :
    ¬(r.classes.isWhitespace c = true ∨ r.Operator c ∨ r.Alone c) := by
  rintro (hspace | hoperator | halone)
  · exact Bool.false_ne_true (h.notWhitespace.symm.trans hspace)
  · exact Bool.false_ne_true (h.notOperator.symm.trans hoperator.operator)
  · exact Bool.false_ne_true (halone.notWord.symm.trans (h.word halone.noSplit))

/-- Neither a word nor a run holds back a character that starts a word: a word cannot end before it, and
a run does. -/
theorem ends_of_starts {c : Char} (hc : r.StartsWord c)
    (cs : List Char) : ¬r.EndsWord (c :: cs) ∧ r.EndsRun (c :: cs) := by
  have hnot : ¬(r.classes.isWhitespace c = true ∨ r.Operator c ∨ r.Alone c) := by
    rcases or_assoc.2 hc with hc | hplain
    · have hquoting : c ∈ Rules.quoting := by
        rcases hc with (rfl | rfl) | rfl <;> simp [Rules.quoting]
      obtain ⟨hspace, -, hoperator⟩ := hr.quoting c hquoting
      rintro (h | h | h)
      · exact Bool.false_ne_true (hspace.symm.trans h)
      · exact Bool.false_ne_true (hoperator.symm.trans h.operator)
      · exact h.notQuoting hquoting
    · exact not_operator_of_plain hplain
  constructor
  · intro hends
    exact hnot (hends c rfl)
  · rintro d hd hoperator
    obtain rfl : c = d := by simpa using hd
    exact hnot (.inr (.inl hoperator))

/-- An item can end before another exactly where the grammar lets the two meet. -/
theorem ends_item {before kind : Kind} (item : r.Item kind text value) (cs : List Char) :
    r.Ends before (text ++ cs) ↔ (before = kind → kind = .alone) := by
  cases item with
  | word piece pieces =>
    obtain ⟨c, rest, htext, hc⟩ := piece.starts
    obtain ⟨hword, hrun⟩ := hr.ends_of_starts hc (rest ++ _ ++ cs)
    rw [htext]
    cases before with
    | word => simpa [Ends] using hword
    | run => simpa [Ends] using hrun
    | alone => simp [Ends]
  | run hne h =>
    obtain ⟨c, text, rfl⟩ := List.exists_cons_of_ne_nil hne
    have hc := h c (by simp)
    cases before with
    | word => simp [Ends, EndsWord, hc]
    | run => simp [Ends, EndsRun, hc]
    | alone => simp [Ends]
  | @alone c h =>
    have hc : ¬r.Operator c := fun hoperator =>
      Bool.false_ne_true (h.notOperator.symm.trans hoperator.operator)
    cases before with
    | word => simp [Ends, EndsWord, h]
    | run => simp [Ends, EndsRun, hc]
    | alone => simp [Ends]

/-- Behind an item the grammar asks for a text that the item can end before, and for no more. -/
theorem lexes_some_iff {kind : Kind} {ws : List String} :
    r.Lexes (some kind) cs ws ↔ r.Lexes none cs ws ∧ r.Ends kind cs := by
  constructor
  · intro h
    cases h with
    | nil => exact ⟨.nil, by cases kind <;> simp [Ends, EndsWord, EndsRun]⟩
    | @space _ c _ _ hspace h =>
      have hoperator : ¬r.Operator c := fun hoperator =>
        Bool.false_ne_true (hoperator.notWhitespace.symm.trans hspace)
      exact ⟨.space hspace h, by cases kind <;> simp [Ends, EndsWord, EndsRun, hspace, hoperator]⟩
    | item hmeet item h =>
      refine ⟨.item (by simp) item h, (hr.ends_item item _).2 ?_⟩
      rintro rfl
      exact hmeet rfl
  · rintro ⟨h, hends⟩
    cases h with
    | nil => exact .nil
    | space hspace h => exact .space hspace h
    | item hmeet item h =>
      refine .item ?_ item h
      rintro hkind
      exact (hr.ends_item item _).1 hends (Option.some.inj hkind)

/-- An item before a text that it can end before is one of the words. -/
theorem wordsFrom_item {kind : Kind} (item : r.Item kind text value) (hends : r.Ends kind cs) :
    r.wordsFrom .start "" false (text ++ cs) =
      (r.wordsFrom .start "" false cs).map (String.ofList value :: ·) := by
  cases item with
  | word piece pieces => exact hr.wordsFrom_word piece pieces hends
  | run hne h => exact hr.wordsFrom_run hne h hends
  | alone h => exact hr.wordsFrom_start_alone h

/-- The words that the grammar gives to a text are those that the automaton finds. -/
theorem wordsFrom_of_lexes {before : Option Kind} {ws : List String} (h : r.Lexes before cs ws) :
    r.wordsFrom .start "" false cs = some ws := by
  induction h with
  | nil => simp [wordsFrom, State.isOpen, isToken]
  | space hspace h ih => rw [wordsFrom_start_space hspace, ih]
  | item hmeet item h ih =>
    have hends := (hr.lexes_some_iff.1 h).2
    rw [hr.wordsFrom_item item hends, ih]
    rfl

/-- What the automaton makes of an item and a rest, the grammar makes of both, given that it does so of
the rest. -/
theorem lexes_or_open_of_item {kind : Kind} (item : r.Item kind text value) (hends : r.Ends kind cs)
    (h : (∃ ws, r.Lexes none cs ws) ∨ r.wordsFrom .start "" false cs = none) :
    (∃ ws, r.Lexes none (text ++ cs) ws) ∨ r.wordsFrom .start "" false (text ++ cs) = none := by
  rcases h with ⟨ws, h⟩ | hopen
  · exact .inl ⟨_, .item (by simp) item (hr.lexes_some_iff.2 ⟨h, hends⟩)⟩
  · refine .inr ?_
    rw [hr.wordsFrom_item item hends, hopen]
    rfl

/-- A text that begins with a word begins with one as long as can be, or leads to an end inside a
quotation. -/
theorem lexes_or_open_of_starts {c : Char} (hc : r.StartsWord c)
    (cs : List Char)
    (hrest : ∀ rest : List Char, rest.length < (c :: cs).length →
      (∃ ws, r.Lexes none rest ws) ∨ r.wordsFrom .start "" false rest = none) :
    (∃ ws, r.Lexes none (c :: cs) ws) ∨ r.wordsFrom .start "" false (c :: cs) = none := by
  rcases hr.pieces_or_open (c :: cs) with ⟨text, value, rest, hcs, pieces, hends⟩ | hopen
  · cases pieces with
    | nil =>
      -- No piece was found, so the word would end before its first character.
      rw [List.nil_append] at hcs
      rw [← hcs] at hends
      exact ((hr.ends_of_starts hc cs).1 hends).elim
    | @cons text value text' value' piece pieces =>
      obtain ⟨d, text, rfl, -⟩ := piece.starts
      have hlt : rest.length < (c :: cs).length := by
        rw [hcs]
        simp only [List.length_append, List.length_cons]
        omega
      rw [hcs]
      exact hr.lexes_or_open_of_item (.word piece pieces) hends (hrest rest hlt)
  · refine .inr ?_
    rw [hr.wordsFrom_start_eq_word hc]
    exact hopen _ _

/-- The grammar gives words to a text, or the text leads to an end inside a quotation. -/
theorem lexes_or_open (cs : List Char) :
    (∃ ws, r.Lexes none cs ws) ∨ r.wordsFrom .start "" false cs = none := by
  match cs with
  | [] => exact .inl ⟨[], .nil⟩
  | c :: cs =>
    rcases r.role c with hspace | hquote | hescape | hplain | hoperator | halone
    · rcases lexes_or_open cs with ⟨ws, h⟩ | hopen
      · exact .inl ⟨ws, .space hspace h⟩
      · refine .inr ?_
        rw [wordsFrom_start_space hspace, hopen]
    · exact hr.lexes_or_open_of_starts (.inl hquote) cs fun rest _ => lexes_or_open rest
    · exact hr.lexes_or_open_of_starts (.inr (.inl hescape)) cs fun rest _ => lexes_or_open rest
    · exact hr.lexes_or_open_of_starts (.inr (.inr hplain)) cs fun rest _ => lexes_or_open rest
    · -- The run goes as far as there are operators.
      obtain ⟨run, rest, hcs, hrun, hends⟩ := r.exists_run cs
      have hlt : rest.length < (c :: cs).length := by
        rw [hcs, List.length_cons, List.length_append]
        omega
      have hitem : r.Item .run (c :: run) (c :: run) := by
        refine .run (List.cons_ne_nil c run) ?_
        rw [List.forall_mem_cons]
        exact ⟨hoperator, hrun⟩
      rw [hcs]
      exact hr.lexes_or_open_of_item hitem hends (lexes_or_open rest)
    · exact hr.lexes_or_open_of_item (.alone halone) trivial (lexes_or_open cs)
termination_by cs.length
decreasing_by all_goals (simp only [List.length_cons] at *; omega)

/-- The automaton finds exactly the words that the grammar gives to a text. -/
theorem wordsFrom_iff {ws : List String} :
    r.wordsFrom .start "" false cs = some ws ↔ r.Lexes none cs ws := by
  constructor
  · intro h
    rcases hr.lexes_or_open cs with ⟨ws', h'⟩ | hopen
    · have heq : some ws = some ws' := h.symm.trans (hr.wordsFrom_of_lexes h')
      rw [Option.some.inj heq]
      exact h'
    · rw [hopen] at h
      cases h
  · exact hr.wordsFrom_of_lexes

end Rules.Posix

/-- Under POSIX rules without comments and files, and with no quoting character among the operators, a
text is split into exactly the words that the grammar gives to it, and a text to which it gives none is
reported as ending inside a quotation, at its last line. -/
theorem splitWith_posix {config : Config} (hposix : config.posix = true)
    (hcomments : config.comments = false) (hkeyword : config.sourceKeyword = none)
    (hoperators : ∀ c ∈ Rules.quoting, c ∉ config.punctuation.chars) (resolver : Resolver)
    (text : String) :
    (∀ ws, splitWith config resolver text = .ok ws ↔
      (Rules.ofConfig config).Lexes none text.toList ws) ∧
    ((¬∃ ws, (Rules.ofConfig config).Lexes none text.toList ws) →
      splitWith config resolver text =
        .error (.unterminatedQuotation none (1 + text.toList.count '\n'))) := by
  have hr := Rules.posix_ofConfig hposix hcomments hoperators
  have hsplit : splitWith config resolver text = _ := Lexer.words_ofText hkeyword resolver text
  rw [hsplit]
  constructor
  · intro ws
    rw [← hr.wordsFrom_iff]
    cases (Rules.ofConfig config).wordsFrom .start "" false text.toList with
    | none => simp [Lexer.outcome]
    | some ws' => simp [Lexer.outcome]
  · intro hnone
    rcases hr.lexes_or_open text.toList with hsome | hopen
    · exact (hnone hsome).elim
    · rw [hopen]
      rfl

/-- A word, an operator and a quoted word meet without white space between them. -/
theorem splitWith_posix_pipe :
    splitWith { punctuation := .shell } Resolver.refusing "a|'b c'" = .ok ["a", "|", "b c"] := by
  have hoperators : ∀ c ∈ Rules.quoting, c ∉ Punctuation.shell.chars := by
    simp [Rules.quoting, Punctuation.chars, Punctuation.text, shellOperators]
  refine ((splitWith_posix rfl rfl rfl hoperators Resolver.refusing _).1 _).2 ?_
  have hword : (Rules.ofConfig { punctuation := .shell }).Item .word ['a'] ['a'] :=
    .word (.plain ⟨by decide, by decide, by decide, by decide⟩) .nil
  have hpipe : (Rules.ofConfig { punctuation := .shell }).Operator '|' := ⟨by decide, by decide⟩
  have hrun : (Rules.ofConfig { punctuation := .shell }).Item .run ['|'] ['|'] :=
    .run (by decide) (by simpa using hpipe)
  have hinside : Quotation '\'' ['b', ' ', 'c'] ['b', ' ', 'c'] := .single (by decide)
  have hquoted : (Rules.ofConfig { punctuation := .shell }).Item .word
      ['\'', 'b', ' ', 'c', '\''] ['b', ' ', 'c'] := .word (.quotation hinside) .nil
  exact .item (by simp) hword (.item (by decide) hrun (.item (by decide) hquoted .nil))

end ShellWords
