import ShellWords.Proofs.Lexing.Classes
import ShellWords.Proofs.Lexing.Text

/-!
# What the first character of a source begins

Between tokens, a character that is no white space and starts no comment either opens something, a quotation or an
escape, or it is a token or the beginning of one. So a character that was put back shows in front of any source:
in front of an empty one it is a token or leaves something open, and no two characters look the same in front of
all sources (`exists_told_apart`).
-/

namespace ShellWords

namespace Rules

variable (r : Rules) {c : Char}

/-- Between tokens, a character that is no break and opens nothing starts a token or is one, whatever was in
progress before. -/
theorem moveFromStart_of_closed (token : String) (quoted : Bool) (hspace : r.classes.isWhitespace c = false)
    (hcomment : r.classes.isComment c = false)
    (hopen : (r.moveFromStart "" false c).state.isOpen = false) :
    (∃ state, (state = .word ∨ state = .punctuation) ∧
      r.moveFromStart token quoted c = { state, token := .singleton c, quoted }) ∨
    r.moveFromStart token quoted c =
      { state := .start, token := .singleton c, quoted, complete := true } := by
  unfold moveFromStart at hopen ⊢
  rw [hspace, hcomment] at *
  split_ifs at * with hescape hword hpunct hquote hposix hsplit
  · cases hopen
  · exact .inl ⟨.word, .inl rfl, rfl⟩
  · exact .inl ⟨.punctuation, .inr rfl, rfl⟩
  · cases hopen
  · cases hopen
  · exact .inl ⟨.word, .inl rfl, rfl⟩
  · exact .inr rfl

/-- A character that opens something escapes the next one, or begins a quotation. -/
theorem moveFromStart_of_open (hopen : (r.moveFromStart "" false c).state.isOpen = true) :
    r.posix = true ∧ r.classes.isEscape c = true ∧
        r.moveFromStart "" false c = { state := .escape .word, token := "", quoted := false } ∨
      (r.posix && r.classes.isEscape c) = false ∧
        r.moveFromStart "" false c =
          { state := .quote c, token := if r.posix then "" else .singleton c, quoted := false } := by
  have hspace : r.classes.isWhitespace c = false := by
    rw [← Bool.not_eq_true]
    intro hspace
    simp [moveFromStart, hspace, State.isOpen] at hopen
  have hcomment : r.classes.isComment c = false := by
    rw [← Bool.not_eq_true]
    intro hcomment
    simp [moveFromStart, hspace, hcomment, State.isOpen] at hopen
  cases hescape : r.posix && r.classes.isEscape c with
  | true =>
    obtain ⟨hposix, hchar⟩ := Bool.and_eq_true_iff.1 hescape
    exact .inl ⟨hposix, hchar, by simp [moveFromStart, hspace, hcomment, hescape]⟩
  | false =>
    simp only [moveFromStart, hspace, hcomment, hescape, Bool.false_eq_true, if_false] at hopen ⊢
    refine .inr ⟨trivial, ?_⟩
    split_ifs at hopen ⊢ <;> first | rfl | cases hopen

end Rules

namespace Rules

/-- Such a character opens no quotation and no escape. -/
theorem Unmarked.closed {r : Rules} {c : Char} (h : r.Unmarked c) :
    (r.moveFromStart "" false c).state.isOpen = false := by
  unfold moveFromStart
  rw [h.space, h.comment, h.quote, h.escape]
  cases r.classes.isWord c <;> cases r.classes.isPunctuation c <;> cases r.whitespaceSplit <;>
    simp [State.isOpen]

end Rules

namespace Lexer

variable {r : Rules} {l m : Lexer} {state : State} {token : String} {quoted : Bool} {b c : Char}
  {cs : List Char}

/-! ## A few moves -/

/-- Where a lexer stands: in this state, with this token in progress, and with these characters to read. -/
structure Stands (l : Lexer) (state : State) (token : String) (cs : List Char) : Prop where
  state : l.state = state
  token : l.token = token
  reads : ∃ last, l.Reads cs last

/-- A move that completes nothing and uses its character up is followed by the rest. -/
theorem Stands.goesOn {state' : State} {token' : String} {quoted' : Bool}
    (h : l.Stands state token (c :: cs)) (hdone : state ≠ .done)
    (hmove : r.move state token quoted c = { state := state', token := token', quoted := quoted' }) :
    ∃ next : Lexer, next.Stands state' token' cs ∧ run r l quoted = run r next quoted' := by
  obtain ⟨last, hreads⟩ := h.reads
  rw [← h.state, ← h.token] at hmove
  obtain ⟨next, hmoved, hnext, hrun⟩ := run_of_reads_cons hreads (by rwa [h.state]) hmove
  exact ⟨next, ⟨hmoved.state, hnext, last, by simpa using hmoved.reads⟩, by simpa using hrun⟩

/-- A move that completes a token returns it, whatever becomes of the character. -/
theorem Stands.completes {move : Move} (h : l.Stands state token (c :: cs)) (hdone : state ≠ .done)
    (hmove : r.move state token quoted c = move) (hcomplete : move.complete = true)
    (htoken : r.isToken move.token move.quoted = true) :
    (run r l quoted).1 = .ok (some move.token) := by
  obtain ⟨last, hreads⟩ := h.reads
  rw [← h.state, ← h.token] at hmove
  obtain ⟨next, hmoved, hnext, hrun⟩ := run_of_reads_cons hreads (by rwa [h.state]) hmove
  rw [hrun, if_pos hcomplete]
  simp [finish, hnext, htoken]

/-- The end of the text completes the token in progress. -/
theorem Stands.ends (h : l.Stands state token []) (hdone : state ≠ .done) (hopen : state.isOpen = false) :
    (run r l quoted).1 = .ok (if r.isToken token quoted then some token else none) := by
  obtain ⟨last, hreads⟩ := h.reads
  obtain ⟨htake, -⟩ := takeChar_of_reads_nil hreads
  rw [run_of_end (by rwa [h.state]) htake (by rwa [h.state])]
  simp [finish, h.token]

/-- The end of the text leaves open what is open. -/
theorem Stands.ends_open (h : l.Stands state token []) (hopen : state.isOpen = true) :
    ∃ e, (run r l quoted).1 = .error e := by
  obtain ⟨last, hreads⟩ := h.reads
  obtain ⟨htake, -⟩ := takeChar_of_reads_nil hreads
  rw [run_of_end_open htake (by rwa [h.state])]
  exact ⟨_, rfl⟩

/-! ## One character -/

/-- In front of nothing, a character that opens nothing is a token, whatever was in progress before. -/
theorem Stands.closed (h : l.Stands .start token [c]) (hspace : r.classes.isWhitespace c = false)
    (hcomment : r.classes.isComment c = false)
    (hopen : (r.moveFromStart "" false c).state.isOpen = false) :
    (run r l false).1 = .ok (some (.singleton c)) := by
  have htoken := r.isToken_singleton c false
  rcases r.moveFromStart_of_closed token false hspace hcomment hopen with ⟨state, hin, hm⟩ | hm
  · obtain ⟨next, hnext, hrun⟩ := h.goesOn (by simp) hm
    have hends : state ≠ .done ∧ state.isOpen = false := by
      rcases hin with rfl | rfl <;> simp [State.isOpen]
    rw [hrun, hnext.ends hends.1 hends.2, if_pos htoken]
  · exact h.completes (by simp) hm rfl htoken

/-- In front of nothing, a character that opens something leaves it open. -/
theorem Stands.opened (h : l.Stands .start "" [c])
    (hopen : (r.moveFromStart "" false c).state.isOpen = true) : ∃ e, (run r l false).1 = .error e := by
  rcases r.moveFromStart_of_open hopen with ⟨-, -, hm⟩ | ⟨-, hm⟩
  · obtain ⟨next, hnext, hrun⟩ := h.goesOn (by simp) hm
    rw [hrun]
    exact hnext.ends_open rfl
  · obtain ⟨next, hnext, hrun⟩ := h.goesOn (by simp) hm
    rw [hrun]
    exact hnext.ends_open rfl

/-! ## Two characters -/

/-- A letter, say, behind a character that opens nothing ends the token, or extends it. -/
theorem Stands.closed_letter {d : Char} (h : l.Stands .start "" [b, d])
    (hspace : r.classes.isWhitespace b = false) (hcomment : r.classes.isComment b = false)
    (hopen : (r.moveFromStart "" false b).state.isOpen = false) (hletter : r.Unmarked d) :
    ∃ w, (run r l false).1 = .ok (some w) ∧ (w = .singleton b ∨ w = (String.singleton b).push d) := by
  have htoken := r.isToken_singleton b false
  have hpush := r.isToken_push (.singleton b) d false
  rcases r.moveFromStart_of_closed "" false hspace hcomment hopen with ⟨state, hin, hm⟩ | hm
  · obtain ⟨next, hnext, hrun⟩ := h.goesOn (by simp) hm
    have hdone : state ≠ .done ∧ state.isOpen = false := by
      rcases hin with rfl | rfl <;> simp [State.isOpen]
    rw [hrun]
    -- Within the token, the letter is one more of its characters, or it ends the token.
    have hmove : r.move state (.singleton b) false d =
          { state, token := (String.singleton b).push d, quoted := false } ∨
        ∃ held, r.move state (.singleton b) false d =
          { state := .start, token := .singleton b, quoted := false, held, complete := true } := by
      rcases hin with rfl | rfl
      · simp only [Rules.move, Rules.moveFromWord, Rules.moveAtBoundary, hletter.space, hletter.comment,
          hletter.quote, hletter.escape, htoken, Bool.and_false, Bool.false_eq_true, if_false]
        split_ifs
        · exact .inl rfl
        · exact .inr ⟨_, rfl⟩
        · exact .inr ⟨_, rfl⟩
      · simp only [Rules.move, Rules.moveFromPunctuation, Rules.moveAtBoundary, hletter.space,
          hletter.comment, Bool.false_eq_true, if_false]
        split_ifs
        · exact .inl rfl
        · exact .inr ⟨_, rfl⟩
    rcases hmove with hmove | ⟨held, hmove⟩
    · obtain ⟨last, hlast, hrun'⟩ := hnext.goesOn hdone.1 hmove
      exact ⟨_, by rw [hrun', hlast.ends hdone.1 hdone.2, if_pos hpush], .inr rfl⟩
    · exact ⟨_, hnext.completes hdone.1 hmove rfl htoken, .inl rfl⟩
  · exact ⟨_, h.completes (by simp) hm rfl htoken, .inl rfl⟩

/-- An escaped character is a word. -/
theorem Stands.escaped (h : l.Stands .start "" [b, c])
    (hm : r.moveFromStart "" false b = { state := .escape .word, token := "", quoted := false }) :
    (run r l false).1 = .ok (some (.singleton c)) := by
  obtain ⟨next, hnext, hrun⟩ := h.goesOn (by simp) hm
  obtain ⟨last, hlast, hrun'⟩ := hnext.goesOn (r := r) (by simp) rfl
  rw [hrun, hrun', hlast.ends (by simp) rfl, if_pos (r.isToken_push "" c false)]
  rfl

/-- A quotation that is closed at once is a token, and it is empty in POSIX mode. -/
theorem Stands.quotation_closed (h : l.Stands .start "" [c, c])
    (hm : r.moveFromStart "" false c =
      { state := .quote c, token := if r.posix then "" else .singleton c, quoted := false }) :
    ∃ w, (run r l false).1 = .ok (some w) ∧ (r.posix = true → w = "") := by
  obtain ⟨next, hnext, hrun⟩ := h.goesOn (by simp) hm
  rw [hrun]
  cases hposix : r.posix with
  | true =>
    rw [hposix] at hnext
    have hmove : r.move (.quote c) "" false c = { state := .word, token := "", quoted := true } := by
      simp [Rules.move, Rules.moveFromQuote, hposix]
    obtain ⟨last, hlast, hrun'⟩ := hnext.goesOn (by simp) hmove
    exact ⟨"", by rw [hrun', hlast.ends (by simp) rfl, if_pos (by simp [Rules.isToken, hposix])], fun _ => rfl⟩
  | false =>
    rw [hposix] at hnext
    have hmove : r.move (.quote c) (.singleton c) false c =
        { state := .start, token := (String.singleton c).push c, quoted := true, complete := true } := by
      simp [Rules.move, Rules.moveFromQuote, hposix]
    exact ⟨_, hnext.completes (by simp) hmove rfl (r.isToken_push ..), by simp⟩

/-- A quotation is not closed by another character. -/
theorem Stands.quotation_open (h : l.Stands .start "" [b, c]) (hne : c ≠ b)
    (hm : r.moveFromStart "" false b =
      { state := .quote b, token := if r.posix then "" else .singleton b, quoted := false }) :
    ∃ e, (run r l false).1 = .error e := by
  obtain ⟨next, hnext, hrun⟩ := h.goesOn (by simp) hm
  rw [hrun]
  generalize (if r.posix then "" else String.singleton b) = token at hnext
  -- It belongs to the quotation, if it does not escape what comes next.
  have hmove : ∃ state token', state.isOpen = true ∧
      r.move (.quote b) token false c = { state, token := token', quoted := true } := by
    simp only [Rules.move, Rules.moveFromQuote, if_neg hne]
    split_ifs
    · exact ⟨.escape (.quote b), _, rfl, rfl⟩
    · exact ⟨.quote b, _, rfl, rfl⟩
  obtain ⟨state, token', hopen, hmove⟩ := hmove
  obtain ⟨last, hlast, hrun'⟩ := hnext.goesOn (by simp) hmove
  rw [hrun']
  exact hlast.ends_open hopen

/-! ## Telling lexers apart -/

section
variable {config : Config} {pending before : List Char}

/-- A character that was put back shows in front of nothing. -/
theorem Stands.ne_none {l : Lexer} (h : l.Stands .start token pending) (hheld : pending.length ≤ 1)
    (hpending : ∀ c ∈ pending, token = "" ∧ r.Holds c .char) (hleft : token ≠ "" ∨ pending ≠ []) :
    (run r l false).1 ≠ .ok none := by
  cases hc : pending with
  | nil =>
    rw [hc] at h hleft
    have htoken := r.isToken_of_ne_empty (hleft.resolve_right (by simp)) false
    rw [h.ends (by simp) rfl, if_pos htoken]
    simp
  | cons c rest =>
    obtain rfl : rest = [] := by simpa [hc] using tail_pending_of_held hheld
    rw [hc] at h
    obtain ⟨rfl, -, hspace, hcomment⟩ := hpending c (by simp [hc])
    cases hopen : (r.moveFromStart "" false c).state.isOpen with
    | true =>
      obtain ⟨e, he⟩ := h.opened hopen
      simp [he]
    | false => simp [h.closed hspace hcomment hopen]

/-- Two characters that open something show their difference in front of the first of them. -/
theorem Stands.ne_of_opened {l m : Lexer} (hl : l.Stands .start "" [c, c]) (hm : m.Stands .start "" [b, c])
    (hne : c ≠ b) (hc : (r.moveFromStart "" false c).state.isOpen = true)
    (hb : (r.moveFromStart "" false b).state.isOpen = true) : (run r l false).1 ≠ (run r m false).1 := by
  rcases r.moveFromStart_of_open hb with ⟨hposix, hescape, hmove⟩ | ⟨-, hmove⟩
  · -- The other escapes it, so it is a word.
    rw [hm.escaped hmove]
    rcases r.moveFromStart_of_open hc with ⟨-, hescape', -⟩ | ⟨-, hmove'⟩
    · rw [CharClasses.isEscape, beq_iff_eq] at hescape hescape'
      exact (hne (hescape'.trans hescape.symm)).elim
    · obtain ⟨w, hw, hempty⟩ := hl.quotation_closed hmove'
      rw [hw, hempty hposix]
      simp [String.ext_iff]
  · -- The other begins a quotation, which it does not close.
    obtain ⟨e, he⟩ := hm.quotation_open hne hmove
    rw [he]
    rcases r.moveFromStart_of_open hc with ⟨-, -, hmove'⟩ | ⟨-, hmove'⟩
    · rw [hl.escaped hmove']
      simp
    · obtain ⟨w, hw, -⟩ := hl.quotation_closed hmove'
      rw [hw]
      simp

/-- Two characters that were put back show their difference in front of some text. -/
theorem exists_told_apart_chars (hc : r.Holds c .char) (hb : r.Holds b .char) (hne : c ≠ b) :
    ∃ cs, ∀ l m : Lexer, l.Stands .start "" (c :: cs) → m.Stands .start "" (b :: cs) →
      (run r l false).1 ≠ (run r m false).1 := by
  obtain ⟨-, hspace, hcomment⟩ := hc
  obtain ⟨-, hspace', hcomment'⟩ := hb
  cases hopen : (r.moveFromStart "" false c).state.isOpen with
  | true =>
    cases hopen' : (r.moveFromStart "" false b).state.isOpen with
    | true => exact ⟨[c], fun l m hl hm => hl.ne_of_opened hm hne hopen hopen'⟩
    | false =>
      refine ⟨[], fun l m hl hm => ?_⟩
      obtain ⟨e, he⟩ := hl.opened hopen
      rw [he, hm.closed hspace' hcomment' hopen']
      simp
  | false =>
    refine ⟨[], fun l m hl hm => ?_⟩
    rw [hl.closed hspace hcomment hopen]
    cases hopen' : (r.moveFromStart "" false b).state.isOpen with
    | true =>
      obtain ⟨e, he⟩ := hm.opened hopen'
      rw [he]
      simp
    | false =>
      rw [hm.closed hspace' hcomment' hopen']
      simpa [String.ext_iff] using hne

/-- A character that was put back shows in front of some text, whatever token is in progress without it. -/
theorem exists_told_apart_char (config : Config) (token : String)
    (hb : (Rules.ofConfig config).Holds b .char) :
    ∃ cs, ∀ l m : Lexer, l.Stands .start token cs → m.Stands .start "" (b :: cs) →
      (run (.ofConfig config) l false).1 ≠ (run (.ofConfig config) m false).1 := by
  obtain ⟨-, hspace, hcomment⟩ := hb
  cases hopen : ((Rules.ofConfig config).moveFromStart "" false b).state.isOpen with
  | true =>
    refine ⟨[], fun l m hl hm => ?_⟩
    obtain ⟨e, he⟩ := hm.opened hopen
    rw [he, hl.ends (by simp) rfl]
    simp
  | false =>
    -- A letter drops the token in progress, but not the character.
    obtain ⟨d, hletter, hne⟩ : ∃ d ∈ asciiWordChars, d ≠ b := by
      by_cases h : 'a' = b
      · exact ⟨'b', by decide, by rw [← h]; decide⟩
      · exact ⟨'a', by decide, h⟩
    have hplain := Rules.unmarked_letter config hletter
    refine ⟨[d], fun l m hl hm => ?_⟩
    obtain ⟨w, hw, hword⟩ := hm.closed_letter hspace hcomment hopen hplain
    rw [hl.closed hplain.space hplain.comment hplain.closed, hw]
    rcases hword with rfl | rfl
    · simpa [String.ext_iff] using hne
    · simp [String.ext_iff]

/-- What a lexer carries over from one source to another shows in front of some text, if it is not what it
should be. -/
theorem exists_told_apart (hheld : pending.length ≤ 1)
    (hpending : ∀ c ∈ pending, token = "" ∧ (Rules.ofConfig config).Holds c .char)
    (hheld' : before.length ≤ 1) (hbefore : ∀ b ∈ before, (Rules.ofConfig config).Holds b .char)
    (hne : ¬ (token = "" ∧ pending = before)) :
    ∃ cs, ∀ l m : Lexer, l.Stands .start token (pending ++ cs) → m.Stands .start "" (before ++ cs) →
      (run (.ofConfig config) l false).1 ≠ (run (.ofConfig config) m false).1 := by
  cases hb : before with
  | nil =>
    refine ⟨[], fun l m hl hm => ?_⟩
    have hleft : token ≠ "" ∨ pending ≠ [] := by
      by_cases htoken : token = ""
      · exact .inr fun hnone => hne ⟨htoken, hnone.trans hb.symm⟩
      · exact .inl htoken
    rw [hm.ends (by simp) rfl, if_neg (by simp [Rules.isToken])]
    exact Stands.ne_none (by simpa using hl) hheld hpending hleft
  | cons b rest =>
    obtain rfl : rest = [] := by simpa [hb] using tail_pending_of_held hheld'
    have hholds := hbefore b (by simp [hb])
    cases hc : pending with
    | nil => exact exists_told_apart_char config token hholds
    | cons c rest =>
      obtain rfl : rest = [] := by simpa [hc] using tail_pending_of_held hheld
      obtain ⟨rfl, hholds'⟩ := hpending c (by simp [hc])
      have hne : c ≠ b := by
        rintro rfl
        exact hne ⟨rfl, hc.trans hb.symm⟩
      exact exists_told_apart_chars hholds' hholds hne

end

end Lexer

end ShellWords
