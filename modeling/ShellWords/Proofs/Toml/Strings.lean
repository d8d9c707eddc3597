import Mathlib.Tactic.SplitIfs
import ShellWords.Toml.Written

/-!
# Written strings are read back

A string is written in one of four styles, and the reader that the opening quotes choose undoes it
(`Toml.string?_written`).

Between double quotes every character is written by itself, as it stands or as an escape, and is read back whatever
follows it (`escape?_of_escapedChar`). Between three double quotes this is so of all characters but the quote: one or
two quotes in a row are read as such only when what follows them is known. So `multilineBasic?_written` carries the
quotes that stand before the text, at most two of them, and hands them over at the first character that is no quote,
or at the end. Without escapes, between single quotes, a text is read up to the first quote (`plain?_written`) or to
the first three (`multilinePlain?_written`), and the style was chosen because the text has none.
-/

namespace ShellWords.Toml

variable {c q : Char} {s t rest : List Char}

/-- A code point is read as its character. -/
theorem character?_eq_some_iff {n : Nat} : character? n = some c ↔ c.toNat = n := by
  unfold character?
  split_ifs with h
  · rw [Option.some.injEq]
    constructor
    · rintro rfl
      rw [Char.ofNat, dif_pos h]
      rfl
    · rintro rfl
      exact Char.ofNat_toNat c
  · constructor
    · rintro ⟨⟩
    · rintro rfl
      exact (h c.valid).elim

/-! ## Characters as they are written -/

/-- A byte is read from its two hexadecimal digits. -/
theorem hexNumber?_hexDigit {n : Nat} (h : n < 256) :
    hexNumber? ['0', '0', hexDigit (n / 16), hexDigit (n % 16)] = some n := by
  have hall : ∀ n : Fin 256, hexNumber? ['0', '0', hexDigit (n / 16), hexDigit (n % 16)] = some n.val := by
    decide +kernel
  exact hall ⟨n, h⟩

/-- A character that is no control character is plain. -/
theorem isPlain_of_not_control (h : isControl c = false) : isPlain c = true := by
  rw [isPlain, h, Bool.not_false, Bool.or_true]

/-- A plain character begins no line end. -/
theorem newline?_of_isPlain (h : isPlain c = true) : newline? (c :: rest) = none := by
  have hnewline : c ≠ '\n' := by
    rintro rfl
    exact absurd h (by decide)
  have hreturn : c ≠ '\r' := by
    rintro rfl
    exact absurd h (by decide)
  unfold newline?
  split <;> simp_all

/-- Inside double quotes, a character stands as it is or is written as an escape, which is read whatever follows
and does not take the end of a line with it. -/
theorem escape?_of_escapedChar (hnewline : c ≠ '\n') :
    escapedChar c = [c] ∧ isPlain c = true ∧ c ≠ '\\' ∨
      ∃ x, escapedChar c = '\\' :: x ∧
        ∀ rest, escape? (x ++ rest) = some (c, rest) ∧ newline? (skipBlanks (x ++ rest)) = none := by
  unfold escapedChar
  split_ifs with hbackslash htab hbackspace hfeed hreturn hcontrol
  · subst hbackslash
    exact .inr ⟨_, rfl, fun rest => ⟨rfl, rfl⟩⟩
  · subst htab
    exact .inr ⟨_, rfl, fun rest => ⟨rfl, rfl⟩⟩
  · subst hbackspace
    exact .inr ⟨_, rfl, fun rest => ⟨rfl, rfl⟩⟩
  · subst hfeed
    exact .inr ⟨_, rfl, fun rest => ⟨rfl, rfl⟩⟩
  · subst hreturn
    exact .inr ⟨_, rfl, fun rest => ⟨rfl, rfl⟩⟩
  · refine .inr ⟨_, rfl, fun rest => ⟨?_, rfl⟩⟩
    have hlt : c.toNat < 256 := by
      simp only [isControl, Bool.or_eq_true, decide_eq_true_eq, beq_iff_eq] at hcontrol
      omega
    show codePoint? 4 (['0', '0', hexDigit (c.toNat / 16), hexDigit (c.toNat % 16)] ++ rest) = _
    rw [codePoint?, List.take_append_of_le_length (Nat.le_refl 4), List.take_of_length_le (Nat.le_refl 4),
      hexNumber?_hexDigit hlt, Option.bind_some, character?_eq_some_iff.2 rfl]
    rfl
  · exact .inl ⟨rfl, isPlain_of_not_control (by simpa using hcontrol), hbackslash⟩

/-! ## Between double quotes -/

/-- A character is read and the reader goes on behind it. -/
theorem basic?_of_basicChar? (h : basicChar? s = some (c, rest)) : basic? s = (basic? rest).map (before c) := by
  rw [basic?.eq_def]
  split
  · simp [basicChar?] at h
  · split
    · rename_i hchar
      rw [h] at hchar
      cases hchar
      rfl
    · rename_i hnone
      rw [h] at hnone
      cases hnone

/-- Every character is read back. -/
theorem basicChar?_written (c : Char) (rest : List Char) :
    basicChar? ((if c = '"' then ['\\', '"'] else if c = '\n' then ['\\', 'n'] else escapedChar c) ++ rest) =
      some (c, rest) := by
  split_ifs with hquote hnewline
  · subst hquote
    rfl
  · subst hnewline
    rfl
  · obtain ⟨hself, hplain, hbackslash⟩ | ⟨x, hx, hescape⟩ := escape?_of_escapedChar hnewline
    · simp [hself, basicChar?, hquote, hplain]
    · rw [hx]
      exact (hescape rest).1

/-- A text between double quotes is read back. -/
theorem basic?_written (s rest : List Char) : basic? (basicChars s ++ '"' :: rest) = some (s, rest) := by
  induction s with
  | nil => simp [basicChars, basic?]
  | cons c s ih =>
    unfold basicChars at ih ⊢
    rw [List.flatMap_cons, List.append_assoc, basic?_of_basicChar? (basicChar?_written c _), ih]
    rfl

/-! ## Between single quotes -/

/-- A text of one line without single quotes is read back. -/
theorem plain?_written (hs : ∀ c ∈ s, c ≠ '\'' ∧ isPlain c = true) (rest : List Char) :
    plain? (s ++ '\'' :: rest) = some (s, rest) := by
  have hall : ∀ c ∈ s, (c != '\'' && isPlain c) = true := fun c hc => by simp [hs c hc]
  rw [plain?, List.dropWhile_append_of_pos hall, List.takeWhile_append_of_pos hall]
  simp

/-! ## Between three quotes -/

/-- What follows a string when it cannot belong to the string: anything but a quote. -/
def Apart (rest : List Char) : Prop := ∀ c ∈ rest.head?, c ≠ '"' ∧ c ≠ '\''

/-- Up to two quotes before the three that close a string belong to the string. -/
theorem closing_replicate {k : Nat} (hk : k ≤ 2) (hrest : ∀ c ∈ rest.head?, c ≠ q) :
    closing q (List.replicate k q ++ rest) = (List.replicate k q, rest) := by
  match k, hk, rest with
  | 0, _, [] => rfl
  | 0, _, [c] => simpa [closing] using hrest
  | 0, _, c :: d :: rest =>
    have hc : c ≠ q := hrest c rfl
    simp [closing, hc]
  | 1, _, [] => simp [closing]
  | 1, _, c :: rest => simpa [closing] using hrest
  | 2, _, rest => simp [closing, List.replicate]

/-- Three quotes behind others may as well stand in front of them. -/
theorem replicate_three (k : Nat) (q : Char) (rest : List Char) :
    List.replicate k q ++ q :: q :: q :: rest = q :: q :: q :: (List.replicate k q ++ rest) := by
  show List.replicate k q ++ (List.replicate 3 q ++ rest) = List.replicate 3 q ++ (_ ++ rest)
  rw [← List.append_assoc, ← List.append_assoc, List.replicate_append_replicate,
    List.replicate_append_replicate, Nat.add_comm]

/-- Up to two quotes in a row are read as such when another character follows them. -/
theorem multilineBasic?_replicate {k : Nat} (hk : k ≤ 2) (hc : c ≠ '"') :
    multilineBasic? (List.replicate k '"' ++ c :: rest) =
      (multilineBasic? (c :: rest)).map fun r => (List.replicate k '"' ++ r.1, r.2) := by
  -- A quote is read as such unless it stands before two more.
  have hone : multilineBasic? ('"' :: c :: rest) = (multilineBasic? (c :: rest)).map (before '"') :=
    multilineBasic?.eq_2 _ fun _ h => hc (List.cons.inj h).1
  have htwo : multilineBasic? ('"' :: '"' :: c :: rest) =
      (multilineBasic? ('"' :: c :: rest)).map (before '"') :=
    multilineBasic?.eq_2 _ fun _ h => hc (List.cons.inj (List.cons.inj h).2).1
  obtain rfl | rfl | rfl : k = 0 ∨ k = 1 ∨ k = 2 := by omega
  · simp
  · exact hone
  · show multilineBasic? ('"' :: '"' :: c :: rest) = _
    rw [htwo, hone, Option.map_map]
    rfl

/-- A plain character is read as it stands. -/
theorem multilineBasic?_plain (hplain : isPlain c = true) (hquote : c ≠ '"') (hbackslash : c ≠ '\\') :
    multilineBasic? (c :: rest) = (multilineBasic? rest).map (before c) := by
  have hnewline : newline? (c :: rest) = none := newline?_of_isPlain hplain
  rw [multilineBasic?.eq_4 c rest (fun _ h _ => hquote h) hquote hbackslash]
  split
  · simp_all
  · rw [if_pos hplain]

/-- So is a newline. -/
theorem multilineBasic?_newline : multilineBasic? ('\n' :: rest) = (multilineBasic? rest).map (before '\n') := by
  rw [multilineBasic?.eq_4 '\n' rest (fun _ h _ => by cases h) (by decide) (by decide)]
  rfl

/-- An escape is read as the character it stands for, unless it takes the end of a line with it. -/
theorem multilineBasic?_escape {x : List Char} (hescape : escape? x = some (c, rest))
    (hnewline : newline? (skipBlanks x) = none) :
    multilineBasic? ('\\' :: x) = (multilineBasic? rest).map (before c) := by
  rw [multilineBasic?]
  split
  · simp_all
  · split
    · simp_all
    · simp_all

/-- A character that is no quote is read back. -/
theorem multilineBasic?_char (hquote : c ≠ '"') (rest : List Char) :
    multilineBasic? ((if c = '\n' then ['\n'] else escapedChar c) ++ rest) =
      (multilineBasic? rest).map (before c) := by
  split_ifs with hnewline
  · subst hnewline
    exact multilineBasic?_newline
  · obtain ⟨hself, hplain, hbackslash⟩ | ⟨x, hx, hescape⟩ := escape?_of_escapedChar hnewline
    · rw [hself]
      exact multilineBasic?_plain hplain hquote hbackslash
    · rw [hx]
      exact multilineBasic?_escape (hescape rest).1 (hescape rest).2

/-- What a character that is no quote is written as begins with no quote. -/
theorem exists_cons_of_written (hquote : c ≠ '"') :
    ∃ d x, (if c = '\n' then ['\n'] else escapedChar c) = d :: x ∧ d ≠ '"' := by
  split_ifs with hnewline
  · exact ⟨_, _, rfl, by decide⟩
  · obtain ⟨hself, -⟩ | ⟨x, hx, -⟩ := escape?_of_escapedChar hnewline
    · exact ⟨c, [], hself, hquote⟩
    · exact ⟨_, x, hx, by decide⟩

/-- A character that is not written as a quote is read behind up to two quotes. -/
theorem multilineBasic?_behind {k : Nat} {x : List Char} (hk : k ≤ 2) (hx : ∃ d y, x = d :: y ∧ d ≠ '"')
    (hread : multilineBasic? (x ++ rest) = (multilineBasic? rest).map (before c)) :
    multilineBasic? (List.replicate k '"' ++ (x ++ rest)) =
      (multilineBasic? rest).map fun r => (List.replicate k '"' ++ c :: r.1, r.2) := by
  obtain ⟨d, y, rfl, hd⟩ := hx
  rw [List.cons_append] at hread ⊢
  rw [multilineBasic?_replicate hk hd, hread, Option.map_map]
  rfl

/-- A text between three double quotes is read back, together with the quotes that stand right before it. -/
theorem multilineBasic?_written {k : Nat} (hk : k ≤ 2) (s : List Char) (hrest : ∀ c ∈ rest.head?, c ≠ '"') :
    multilineBasic? (List.replicate k '"' ++ (multilineBasicChars k s ++ '"' :: '"' :: '"' :: rest)) =
      some (List.replicate k '"' ++ s, rest) := by
  induction s generalizing k with
  | nil =>
    rw [multilineBasicChars, List.nil_append, replicate_three, multilineBasic?.eq_1, closing_replicate hk hrest,
      List.append_nil]
  | cons c s ih =>
    -- The quotes before are handed over at any character that is not written as a quote.
    have hnext := @ih 0 (Nat.zero_le 2)
    rw [List.replicate_zero, List.nil_append, List.nil_append] at hnext
    rw [multilineBasicChars]
    by_cases hquote : c = '"'
    · subst hquote
      rw [if_pos rfl]
      split_ifs with hthird
      · -- A third quote in a row is escaped.
        show multilineBasic? (_ ++ (['\\', '"'] ++ (multilineBasicChars 0 s ++ _))) = _
        rw [multilineBasic?_behind hk ⟨_, _, rfl, by decide⟩ (multilineBasic?_escape rfl rfl), hnext]
        rfl
      · -- One more quote stands before what follows.
        have hmove (t : List Char) : List.replicate k '"' ++ '"' :: t = List.replicate (k + 1) '"' ++ t := by
          rw [List.replicate_succ', List.append_assoc, List.singleton_append]
        rw [List.cons_append, hmove, hmove]
        exact ih (by omega)
    · rw [if_neg hquote, List.append_assoc,
        multilineBasic?_behind hk (exists_cons_of_written hquote) (multilineBasic?_char hquote _), hnext]
      rfl

/-! ## Between three single quotes -/

/-- A character that begins no three quotes is read as it stands. -/
theorem multilinePlain?_cons (hplain : c = '\n' ∨ isPlain c = true)
    (hquotes : ∀ t, c = '\'' → rest = '\'' :: '\'' :: t → False) :
    multilinePlain? (c :: rest) = (multilinePlain? rest).map (before c) := by
  rw [multilinePlain?.eq_2 c rest hquotes]
  obtain rfl | hplain := hplain
  · rfl
  · have hnewline : newline? (c :: rest) = none := newline?_of_isPlain hplain
    split
    · simp_all
    · rw [if_pos hplain]

/-- Without a quote three times in a row, no rest of a text has one, and it does not begin with three quotes. -/
theorem hasTriple_cons (h : hasTriple q (c :: s) = false) :
    hasTriple q s = false ∧ ∀ t, c = q → s ≠ q :: q :: t := by
  match s with
  | [] => exact ⟨rfl, by simp⟩
  | [a] => exact ⟨rfl, by simp⟩
  | a :: b :: s =>
    rw [hasTriple, Bool.or_eq_false_iff] at h
    refine ⟨h.2, ?_⟩
    rintro t rfl ht
    simp only [List.cons.injEq] at ht
    simp [ht.1, ht.2.1] at h

/-- A text between three single quotes is read back if it has no three of them in a row. -/
theorem multilinePlain?_written (hs : ∀ c ∈ s, c = '\n' ∨ isPlain c = true) (htriple : hasTriple '\'' s = false)
    (hrest : ∀ c ∈ rest.head?, c ≠ '\'') :
    multilinePlain? (s ++ '\'' :: '\'' :: '\'' :: rest) = some (s, rest) := by
  -- Up to two quotes at the end belong to the text.
  have hends {k : Nat} (hk : k ≤ 2) : multilinePlain? (List.replicate k '\'' ++ '\'' :: '\'' :: '\'' :: rest) =
      some (List.replicate k '\'', rest) := by
    rw [replicate_three, multilinePlain?.eq_1, closing_replicate hk hrest]
  induction s with
  | nil => exact hends (Nat.zero_le 2)
  | cons c s ih =>
    rw [List.forall_mem_cons] at hs
    obtain ⟨htail, hfront⟩ := hasTriple_cons htriple
    by_cases hone : c :: s = ['\'']
    · rw [hone]
      exact @hends 1 (by decide)
    by_cases htwo : c :: s = ['\'', '\'']
    · rw [htwo]
      exact @hends 2 (by decide)
    -- Any other quote is followed by something else before the third.
    have hquotes : ∀ t, c = '\'' → s ++ '\'' :: '\'' :: '\'' :: rest = '\'' :: '\'' :: t → False := by
      rintro t rfl ht
      rcases s with _ | ⟨a, _ | ⟨b, s⟩⟩
      · exact hone rfl
      · simp_all
      · simp_all
    rw [List.cons_append, multilinePlain?_cons hs.1 hquotes, ih hs.2 htail]
    rfl

/-! ## Strings of any style -/

/-- A character that needs no escape is plain or a newline. -/
theorem isPlain_of_not_needsEscape (h : needsEscape c = false) : c = '\n' ∨ isPlain c = true := by
  simp only [needsEscape, Bool.and_eq_false_iff, bne_eq_false_iff_eq] at h
  rcases h with (hcontrol | rfl) | rfl
  · exact .inr (isPlain_of_not_control hcontrol)
  · exact .inr rfl
  · exact .inl rfl

/-- A newline that begins a string over several lines is not part of it, and without one in front no such string
begins with a newline. -/
theorem trimNewline_leadingNewline {t : List Char} (ht : '\n' ∉ s → newline? t = none) :
    trimNewline (leadingNewline s ++ t) = t := by
  unfold leadingNewline trimNewline
  split_ifs with hs
  · rfl
  · rw [List.nil_append, ht (by simpa using hs), Option.getD_none]

/-- A string in a style that can write it. -/
def Style.Fits (s : List Char) : Style → Prop
  | basic => True
  | plain => ∀ c ∈ s, c ≠ '\'' ∧ isPlain c = true
  | multilineBasic => True
  | multilinePlain => (∀ c ∈ s, c = '\n' ∨ isPlain c = true) ∧ hasTriple '\'' s = false

/-- The style that is chosen can write the string. -/
theorem Style.fits_of (s : List Char) : (Style.of s).Fits s := by
  have hnoEscape (h : s.any needsEscape = false) : ∀ c ∈ s, c = '\n' ∨ isPlain c = true := fun c hc =>
    isPlain_of_not_needsEscape (by simpa using List.any_eq_false.1 h c hc)
  unfold Style.of
  dsimp only
  split_ifs with hbasic hplain hmultilineBasic hmultilinePlain hnewline
  · trivial
  · simp only [Bool.and_eq_true, Bool.not_eq_true', List.contains_eq_mem, decide_eq_false_iff_not] at hplain
    intro c hc
    refine ⟨fun h => hplain.1.2 (h ▸ hc), ?_⟩
    obtain rfl | hplain' := hnoEscape hplain.1.1 c hc
    · exact (hplain.2 hc).elim
    · exact hplain'
  · trivial
  · simp only [Bool.and_eq_true, Bool.not_eq_true'] at hmultilinePlain
    exact ⟨hnoEscape hmultilinePlain.1, hmultilinePlain.2⟩
  · trivial
  · trivial

/-- A string without a newline begins none between three double quotes. -/
theorem newline?_multilineBasicChars (hs : '\n' ∉ s) :
    newline? (multilineBasicChars 0 s ++ '"' :: '"' :: '"' :: rest) = none := by
  cases s with
  | nil => rfl
  | cons c s =>
    rw [List.mem_cons, not_or] at hs
    have hnewline : c ≠ '\n' := Ne.symm hs.1
    rw [multilineBasicChars]
    by_cases hquote : c = '"'
    · subst hquote
      rfl
    · rw [if_neg hquote, if_neg hnewline]
      obtain ⟨hself, hplain, -⟩ | ⟨x, hx, -⟩ := escape?_of_escapedChar hnewline
      · rw [hself]
        exact newline?_of_isPlain hplain
      · rw [hx]
        rfl

/-- A written string is read back, whatever follows it but a quote. -/
theorem string?_written (s : List Char) (hrest : Apart rest) : string? (written s ++ rest) = some (s, rest) := by
  have hfits := Style.fits_of s
  unfold written
  cases hstyle : Style.of s with
  | basic =>
    have hread := basic?_written s rest
    -- Three quotes in a row would be two and one that follows.
    have hthree : ∀ t, basicChars s ++ '"' :: rest = '"' :: '"' :: t → False := by
      intro t ht
      rw [ht, basic?] at hread
      obtain ⟨-, rfl⟩ := Prod.mk.inj (Option.some.inj hread)
      exact (hrest '"' rfl).1 rfl
    simp only [Style.write, List.cons_append, List.nil_append, List.append_assoc]
    rw [string?.eq_2 _ hthree, hread]
  | plain =>
    rw [hstyle] at hfits
    have hread := plain?_written hfits rest
    have hthree : ∀ t, s ++ '\'' :: rest = '\'' :: '\'' :: t → False := by
      intro t ht
      rw [ht] at hread
      obtain ⟨-, rfl⟩ := Prod.mk.inj (Option.some.inj hread)
      exact (hrest '\'' rfl).2 rfl
    simp only [Style.write, List.cons_append, List.nil_append, List.append_assoc]
    rw [string?.eq_4 _ hthree, hread]
  | multilineBasic =>
    have hread := @multilineBasic?_written rest 0 (Nat.zero_le 2) s fun c hc => (hrest c hc).1
    simp only [Style.write, List.cons_append, List.nil_append, List.append_assoc]
    rw [string?, trimNewline_leadingNewline newline?_multilineBasicChars]
    exact hread
  | multilinePlain =>
    rw [hstyle] at hfits
    have hread := multilinePlain?_written hfits.1 hfits.2 fun c hc => (hrest c hc).2
    have hbegin (hs : '\n' ∉ s) : newline? (s ++ '\'' :: '\'' :: '\'' :: rest) = none := by
      cases s with
      | nil => rfl
      | cons c s =>
        rw [List.mem_cons, not_or] at hs
        rcases hfits.1 c List.mem_cons_self with hnewline | hplain
        · exact (hs.1 hnewline.symm).elim
        · exact newline?_of_isPlain hplain
    simp only [Style.write, List.cons_append, List.nil_append, List.append_assoc]
    rw [string?, trimNewline_leadingNewline hbegin]
    exact hread

end ShellWords.Toml
