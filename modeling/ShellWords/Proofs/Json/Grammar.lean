import Mathlib.Data.List.TakeWhile
import ShellWords.Json.Words
import ShellWords.Proofs.Toml.Strings

/-!
# The grammar of a list of words

`Json.Spells` says which texts are JSON arrays of strings, and of which: a character is spelled as it stands or by an
escape (`Json.Spelling`), a string is a quoted sequence of spellings, and white space may stand around every part.
Reading and grammar agree (`Json.words?_eq_some_iff`), part by part in both directions: what is read is spelled by
what was taken from the text, and a spelled part is read whatever follows it.

What is written is spelled in the plainest way, so every list of words is read back as it is (`Json.words?_written`).
-/

namespace ShellWords.Json

open Toml (character? character?_eq_some_iff)

variable {c : Char} {cs s x y rest digits : List Char} {n : Nat} {word : String} {words : List String}

/-! ## The grammar -/

/-- Four hexadecimal digits that write a number. -/
def Digits (digits : List Char) (n : Nat) : Prop := digits.length = 4 ∧ Toml.hexNumber? digits = some n

/-- The characters that have an escape of one letter, with these letters. -/
def letters : List (Char × Char) :=
  [('"', '"'), ('\\', '\\'), ('/', '/'), ('\x08', 'b'), ('\x0c', 'f'), ('\n', 'n'), ('\r', 'r'), ('\t', 't')]

/-- The ways to spell a character inside a string. -/
inductive Spelling (c : Char) : List Char → Prop
  /-- As it stands. -/
  | plain (hquote : c ≠ '"') (hbackslash : c ≠ '\\') (hcontrol : 0x20 ≤ c.toNat) : Spelling c [c]
  /-- By the letter of its escape. -/
  | letter (e : Char) (h : (c, e) ∈ letters) : Spelling c ['\\', e]
  /-- By its number. -/
  | number (digits : List Char) (h : Digits digits c.toNat) : Spelling c ('\\' :: 'u' :: digits)
  /-- By two numbers, which hold the upper and the lower part of one that is too large for four digits. -/
  | pair (high low : Nat) (upper lower : List Char) (hupper : Digits upper high) (hlower : Digits lower low)
      (hhigh : 0xD800 ≤ high ∧ high < 0xDC00) (hlow : 0xDC00 ≤ low ∧ low < 0xE000)
      (hc : c.toNat = 0x10000 + (high - 0xD800) * 0x400 + (low - 0xDC00)) :
      Spelling c ('\\' :: 'u' :: upper ++ '\\' :: 'u' :: lower)

/-- The ways to spell the characters of a string. -/
inductive SpellsAll : List Char → List Char → Prop
  | nil : SpellsAll [] []
  | cons {c : Char} {x cs y : List Char} (h : Spelling c x) (hs : SpellsAll cs y) : SpellsAll (c :: cs) (x ++ y)

/-- A text is white space. -/
def Space (s : List Char) : Prop := ∀ c ∈ s, isSpace c = true

/-- The ways to write a string, with white space around it. -/
inductive SpellsWord : String → List Char → Prop
  | intro {a b cs y : List Char} (ha : Space a) (h : SpellsAll cs y) (hb : Space b) :
    SpellsWord (String.ofList cs) (a ++ '"' :: y ++ '"' :: b)

/-- The ways to write strings one after the other, with commas between them. -/
inductive SpellsWords : List String → List Char → Prop
  | last {word : String} {x : List Char} (h : SpellsWord word x) : SpellsWords [word] x
  | cons {word : String} {words : List String} {x y : List Char} (h : SpellsWord word x)
    (hs : SpellsWords words y) : SpellsWords (word :: words) (x ++ ',' :: y)

/-- The ways to write an array of strings. -/
inductive Spells : List String → List Char → Prop
  | empty {a b d : List Char} (ha : Space a) (hb : Space b) (hd : Space d) :
    Spells [] (a ++ '[' :: b ++ ']' :: d)
  | words {words : List String} {a x d : List Char} (ha : Space a) (h : SpellsWords words x) (hd : Space d) :
    Spells words (a ++ '[' :: x ++ ']' :: d)

/-! ## Characters -/

/-- Digits are read when they are there, and nothing is read of what follows them. -/
theorem unit?_eq_some_iff : unit? s = some (n, rest) ↔ ∃ digits, Digits digits n ∧ s = digits ++ rest := by
  unfold unit?
  constructor
  · intro h
    split at h
    · cases h
    · rename_i hlength
      simp only [Option.map_eq_some_iff, Prod.mk.injEq] at h
      obtain ⟨m, hm, rfl, rfl⟩ := h
      have hfour : (s.take 4).length = 4 := by
        rw [List.length_take] at hlength ⊢
        omega
      exact ⟨s.take 4, ⟨hfour, hm⟩, (List.take_append_drop 4 s).symm⟩
  · rintro ⟨digits, ⟨hlength, hnumber⟩, rfl⟩
    rw [← hlength, List.take_left, List.drop_left, if_neg (Nat.lt_irrefl _), hnumber]
    rfl

/-- A character that is no surrogate. -/
theorem not_surrogate (c : Char) : ¬ (0xD800 ≤ c.toNat ∧ c.toNat < 0xE000) := by
  have hvalid := c.valid
  simp only [UInt32.isValidChar, Nat.isValidChar] at hvalid
  show ¬ (0xD800 ≤ c.val.toNat ∧ c.val.toNat < 0xE000)
  omega

/-- A spelled character is read, whatever follows it. -/
theorem Spelling.char? (h : Spelling c x) (rest : List Char) : char? (x ++ rest) = some (c, rest) := by
  cases h with
  | plain hquote hbackslash hcontrol =>
    simp [Json.char?, hquote, hcontrol]
  | letter e h =>
    simp only [letters, List.mem_cons, Prod.mk.injEq, List.not_mem_nil, or_false] at h
    rcases h with ⟨rfl, rfl⟩ | ⟨rfl, rfl⟩ | ⟨rfl, rfl⟩ | ⟨rfl, rfl⟩ | ⟨rfl, rfl⟩ | ⟨rfl, rfl⟩ | ⟨rfl, rfl⟩ |
      ⟨rfl, rfl⟩ <;> rfl
  | number digits h =>
    have hunit : unit? (digits ++ rest) = some (c.toNat, rest) := unit?_eq_some_iff.2 ⟨digits, h, rfl⟩
    -- A number that stands alone is no surrogate, so no second one is looked for.
    have hone : ¬ (0xD800 ≤ c.toNat ∧ c.toNat < 0xDC00) := fun hc => not_surrogate c (by omega)
    show codePoint? (digits ++ rest) = _
    rw [codePoint?, hunit]
    simp only [Bool.and_eq_true, decide_eq_true_eq, if_neg hone, character?_eq_some_iff.2 rfl]
    rfl
  | pair high low upper lower hupper hlower hhigh hlow hc =>
    have hfirst : unit? (upper ++ '\\' :: 'u' :: (lower ++ rest)) = some (high, '\\' :: 'u' :: (lower ++ rest)) :=
      unit?_eq_some_iff.2 ⟨upper, hupper, rfl⟩
    have hsecond : unit? (lower ++ rest) = some (low, rest) := unit?_eq_some_iff.2 ⟨lower, hlower, rfl⟩
    rw [List.append_assoc]
    show codePoint? (upper ++ '\\' :: 'u' :: (lower ++ rest)) = _
    rw [codePoint?, hfirst]
    simp only [Bool.and_eq_true, decide_eq_true_eq, if_pos hhigh, hsecond, if_pos hlow,
      character?_eq_some_iff.2 hc]
    rfl

/-- A character that is read from its number is spelled by it. -/
theorem exists_spelling_of_codePoint? (h : codePoint? s = some (c, rest)) :
    ∃ x, Spelling c x ∧ '\\' :: 'u' :: s = x ++ rest := by
  unfold codePoint? at h
  split at h
  · cases h
  · rename_i high next hunit
    obtain ⟨upper, hupper, rfl⟩ := unit?_eq_some_iff.1 hunit
    split at h
    · rename_i hhigh
      split at h
      · rename_i after
        split at h
        · cases h
        · rename_i low behind hunit'
          obtain ⟨lower, hlower, rfl⟩ := unit?_eq_some_iff.1 hunit'
          split at h
          · rename_i hlow
            simp only [Option.map_eq_some_iff, Prod.mk.injEq, character?_eq_some_iff] at h
            obtain ⟨_, hc, rfl, rfl⟩ := h
            simp only [Bool.and_eq_true, decide_eq_true_eq] at hhigh hlow
            exact ⟨_, .pair high low upper lower hupper hlower hhigh hlow hc, by simp⟩
          · cases h
      · cases h
    · simp only [Option.map_eq_some_iff, Prod.mk.injEq, character?_eq_some_iff] at h
      obtain ⟨_, rfl, rfl, rfl⟩ := h
      exact ⟨_, .number upper hupper, rfl⟩

/-- A character that is read is spelled by what was taken. -/
theorem exists_spelling (h : Json.char? s = some (c, rest)) : ∃ x, Spelling c x ∧ s = x ++ rest := by
  unfold Json.char? at h
  split at h
  · unfold escape? at h
    split at h
    case h_9 next => exact exists_spelling_of_codePoint? h
    case h_10 => cases h
    all_goals
      obtain ⟨rfl, rfl⟩ := Prod.mk.inj (Option.some.inj h)
      exact ⟨_, .letter _ (by decide), rfl⟩
  · rename_i d next hbackslash
    split at h
    · rename_i hplain
      obtain ⟨rfl, rfl⟩ := Prod.mk.inj (Option.some.inj h)
      simp only [Bool.and_eq_true, bne_iff_ne, decide_eq_true_eq] at hplain
      exact ⟨_, .plain hplain.1 (fun h => hbackslash h) hplain.2, rfl⟩
    · cases h
  · cases h

/-! ## Strings -/

/-- A string goes on behind a character that is read. -/
theorem string?_of_char? (h : Json.char? s = some (c, rest)) :
    string? s = (string? rest).map fun r => (c :: r.1, r.2) := by
  rw [string?.eq_def]
  split
  · simp [Json.char?] at h
  · split
    · rename_i hchar
      rw [h] at hchar
      cases hchar
      rfl
    · rename_i hnone
      rw [h] at hnone
      cases hnone

/-- A spelled string is read up to its quote. -/
theorem SpellsAll.string? (h : SpellsAll cs y) (rest : List Char) :
    string? (y ++ '"' :: rest) = some (cs, rest) := by
  induction h with
  | nil => simp [Json.string?]
  | cons h hs ih =>
    rw [List.append_assoc, string?_of_char? (h.char? _), ih]
    rfl

/-- A string that is read is spelled by what was taken, up to the quote. -/
theorem exists_spellsAll (h : string? s = some (cs, rest)) : ∃ y, SpellsAll cs y ∧ s = y ++ '"' :: rest := by
  fun_induction Json.string? s generalizing cs with
  | case1 t =>
    obtain ⟨rfl, rfl⟩ := Prod.mk.inj (Option.some.inj h)
    exact ⟨[], .nil, rfl⟩
  | case2 s hquote c next hchar ih =>
    simp only [Option.map_eq_some_iff, Prod.mk.injEq] at h
    obtain ⟨⟨ds, t⟩, hstring, rfl, rfl⟩ := h
    obtain ⟨x, hx, rfl⟩ := exists_spelling hchar
    obtain ⟨y, hy, rfl⟩ := ih hstring
    exact ⟨x ++ y, .cons hx hy, by rw [List.append_assoc]⟩
  | case3 s hquote hchar => cases h

/-! ## White space -/

/-- White space is skipped up to a character that is none. -/
theorem Space.skipSpace (h : Space s) (hc : isSpace c = false) : skipSpace (s ++ c :: rest) = c :: rest := by
  rw [Json.skipSpace, List.dropWhile_append_of_pos h, List.dropWhile_cons_of_neg (by simp [hc])]

/-- What is skipped is white space. -/
theorem exists_space (s : List Char) : ∃ a, Space a ∧ s = a ++ skipSpace s :=
  ⟨s.takeWhile isSpace, List.all_eq_true.1 List.all_takeWhile, List.takeWhile_append_dropWhile.symm⟩

/-- Nothing is left of white space, and of nothing else. -/
theorem isEmpty_skipSpace_iff : (skipSpace s).isEmpty = true ↔ Space s := by
  rw [List.isEmpty_iff, Json.skipSpace, List.dropWhile_eq_nil_iff]
  rfl

/-! ## Arrays -/

/-- A written string is read with the comma behind it, and the reader goes on there. -/
theorem SpellsWord.items?_comma (h : SpellsWord word x) (fuel : Nat) (rest : List Char) :
    items? (fuel + 1) (x ++ ',' :: rest) = (items? fuel rest).map fun r => (word :: r.1, r.2) := by
  obtain ⟨ha, h, hb⟩ := h
  simp only [List.append_assoc, List.cons_append, items?, ha.skipSpace (by decide : isSpace '"' = false),
    h.string?, hb.skipSpace (by decide : isSpace ',' = false)]

/-- With the bracket behind it, it is the last that is read. -/
theorem SpellsWord.items?_bracket (h : SpellsWord word x) (fuel : Nat) (rest : List Char) :
    items? (fuel + 1) (x ++ ']' :: rest) = some ([word], rest) := by
  obtain ⟨ha, h, hb⟩ := h
  simp only [List.append_assoc, List.cons_append, items?, ha.skipSpace (by decide : isSpace '"' = false),
    h.string?, hb.skipSpace (by decide : isSpace ']' = false)]

/-- Written strings are read up to the bracket, if as many may be read. -/
theorem SpellsWords.items? (h : SpellsWords words x) {fuel : Nat} (hfuel : words.length ≤ fuel)
    (rest : List Char) : items? fuel (x ++ ']' :: rest) = some (words, rest) := by
  induction h generalizing fuel with
  | last h =>
    obtain ⟨fuel, rfl⟩ := Nat.exists_eq_add_one.2 hfuel
    exact h.items?_bracket fuel rest
  | cons h hs ih =>
    rw [List.length_cons] at hfuel
    obtain ⟨fuel, rfl⟩ := Nat.exists_eq_add_one.2 (Nat.zero_lt_of_lt hfuel)
    rw [List.append_assoc, List.cons_append, h.items?_comma, ih (Nat.le_of_succ_le_succ hfuel)]
    rfl

/-- Strings that are read are written by what was taken, up to the bracket. -/
theorem exists_spellsWords {fuel : Nat} (h : Json.items? fuel s = some (words, rest)) :
    ∃ x, SpellsWords words x ∧ s = x ++ ']' :: rest := by
  induction fuel generalizing s words with
  | zero => cases h
  | succ fuel ih =>
    rw [Json.items?] at h
    obtain ⟨a, ha, hs⟩ := exists_space s
    split at h
    · rename_i next hnext
      split at h
      · cases h
      · rename_i cs behind hstring
        obtain ⟨y, hy, rfl⟩ := exists_spellsAll hstring
        obtain ⟨b, hb, hbehind⟩ := exists_space behind
        have hword : SpellsWord (String.ofList cs) (a ++ '"' :: y ++ '"' :: b) := ⟨ha, hy, hb⟩
        split at h
        · rename_i after hafter
          simp only [Option.map_eq_some_iff, Prod.mk.injEq] at h
          obtain ⟨⟨others, t⟩, hitems, rfl, rfl⟩ := h
          obtain ⟨x, hx, rfl⟩ := ih hitems
          refine ⟨_, .cons hword hx, ?_⟩
          rw [hs, hnext, hbehind, hafter]
          simp
        · rename_i after hafter
          obtain ⟨rfl, rfl⟩ := Prod.mk.inj (Option.some.inj h)
          refine ⟨_, .last hword, ?_⟩
          rw [hs, hnext, hbehind, hafter]
          simp
        · cases h
    · cases h

/-- There are not more strings than characters that they are written with. -/
theorem SpellsWords.length_le (h : SpellsWords words x) : words.length ≤ x.length := by
  induction h with
  | last h =>
    obtain ⟨-, -, -⟩ := h
    simp only [List.length_append, List.length_cons, List.length_nil]
    omega
  | cons h hs ih =>
    rw [List.length_cons, List.length_append, List.length_cons]
    omega

/-- Written strings begin with a quote. -/
theorem SpellsWords.exists_quote (h : SpellsWords words x) (rest : List Char) :
    ∃ t, skipSpace (x ++ rest) = '"' :: t := by
  cases h with
  | last h =>
    obtain ⟨ha, -, -⟩ := h
    simp only [List.append_assoc, List.cons_append]
    exact ⟨_, ha.skipSpace (by decide)⟩
  | cons h hs =>
    obtain ⟨ha, -, -⟩ := h
    simp only [List.append_assoc, List.cons_append]
    exact ⟨_, ha.skipSpace (by decide)⟩

/-- An array of strings is read as what it spells. -/
theorem Spells.words? {text : String} (h : Spells words text.toList) : words? text = some words := by
  rw [Json.words?]
  generalize text.toList = s at h
  cases h with
  | empty ha hb hd =>
    simp only [List.append_assoc, List.cons_append, ha.skipSpace (by decide : isSpace '[' = false),
      hb.skipSpace (by decide : isSpace ']' = false), isEmpty_skipSpace_iff.2 hd, if_true]
  | @words _ a x d ha h hd =>
    -- A quote comes first, so this is not the array without strings.
    obtain ⟨t, ht⟩ := h.exists_quote (']' :: d)
    have hfuel : words.length ≤ (x ++ ']' :: d).length := by
      have := h.length_le
      rw [List.length_append]
      omega
    simp only [List.append_assoc, List.cons_append, ha.skipSpace (by decide : isSpace '[' = false), ht,
      h.items? hfuel]
    exact if_pos (isEmpty_skipSpace_iff.2 hd)

/-- Reading an array of strings is undoing its spelling. -/
theorem words?_eq_some_iff {text : String} : Json.words? text = some words ↔ Spells words text.toList := by
  refine ⟨fun h => ?_, Spells.words?⟩
  rw [Json.words?] at h
  obtain ⟨a, ha, hs⟩ := exists_space text.toList
  split at h
  · rename_i rest hrest
    obtain ⟨b, hb, hbehind⟩ := exists_space rest
    rw [hs, hrest]
    dsimp only at h
    split at h
    · rename_i ws behind hread
      split_ifs at h with hempty
      obtain rfl := Option.some.inj h
      have hd := isEmpty_skipSpace_iff.1 hempty
      split at hread
      · rename_i next hnext
        obtain ⟨rfl, rfl⟩ := Prod.mk.inj (Option.some.inj hread)
        rw [hbehind, hnext]
        simpa using Spells.empty ha hb hd
      · obtain ⟨x, hx, rfl⟩ := exists_spellsWords hread
        simpa using Spells.words ha hx hd
    · cases h
  · cases h

/-! ## What is written -/

/-- A control character is written by its number. -/
theorem digits_control {n : Nat} (h : n < 0x20) :
    Digits ['0', '0', Nat.digitChar (n / 16), Nat.digitChar (n % 16)] n := by
  have hall : ∀ n : Fin 0x20, Toml.hexNumber? ['0', '0', Nat.digitChar (n / 16), Nat.digitChar (n % 16)] =
      some n.val := by
    decide +kernel
  exact ⟨rfl, hall ⟨n, h⟩⟩

/-- A character is written in one of its spellings. -/
theorem spelling_writtenChar (c : Char) : Spelling c (writtenChar c) := by
  unfold writtenChar
  split_ifs with hquote hbackslash hbackspace hfeed hnewline hreturn htab hcontrol
  · exact .letter _ (by simp [letters, hquote])
  · exact .letter _ (by simp [letters, hbackslash])
  · exact .letter _ (by simp [letters, hbackspace])
  · exact .letter _ (by simp [letters, hfeed])
  · exact .letter _ (by simp [letters, hnewline])
  · exact .letter _ (by simp [letters, hreturn])
  · exact .letter _ (by simp [letters, htab])
  · exact .number _ (digits_control hcontrol)
  · exact .plain hquote hbackslash (Nat.le_of_not_lt hcontrol)

/-- A word is written as a string, without white space. -/
theorem spellsWord_writtenWord (word : String) : SpellsWord word (writtenWord word) := by
  have hall (cs : List Char) : SpellsAll cs (cs.flatMap writtenChar) := by
    induction cs with
    | nil => exact .nil
    | cons c cs ih => exact .cons (spelling_writtenChar c) ih
  have hnone : Space [] := by simp [Space]
  have hword := SpellsWord.intro hnone (hall word.toList) hnone
  rwa [String.ofList_toList] at hword

/-- Words are written one after the other. -/
theorem spellsWords_written (word : String) (words : List String) :
    SpellsWords (word :: words) ([','].intercalate ((word :: words).map writtenWord)) := by
  induction words generalizing word with
  | nil => simpa using SpellsWords.last (spellsWord_writtenWord word)
  | cons next words ih => simpa using SpellsWords.cons (spellsWord_writtenWord word) (ih next)

/-- A list of words that is written is an array of strings that spells it. -/
theorem spells_written (words : List String) : Spells words (written words).toList := by
  have hnone : Space [] := by simp [Space]
  rw [written, String.toList_ofList]
  cases words with
  | nil => exact .empty hnone hnone hnone
  | cons word words => exact .words hnone (spellsWords_written word words) hnone

/-- A list of words that is written is read back. -/
theorem words?_written (words : List String) : Json.words? (written words) = some words :=
  words?_eq_some_iff.2 (spells_written words)

end ShellWords.Json
