import Mathlib.Data.List.Basic
import ShellWords.Proofs.Lexing.Progress

/-!
# The characters of words

The word class is collected in stages, as the options ask for it, and then the operators are taken out, which may be
any characters. `WordBase` says without tables what is collected (`mem_wordCandidates_iff`). The tables are read as
code points for that (`toNat_asciiWordChars`, `toNat_latinWordChars`, `toNat_pathWordChars`).

A word character is one that has been collected and is no operator, and under no options it is in another class
(`Rules.OnlyWord`, `CharClasses.word_class_exact`). So the automaton reads it as a word character whatever it tests
first (`Rules.OnlyWord.move_start`, `Rules.OnlyWord.move_word`, `Rules.OnlyWord.move_punctuation`). An operator may
be in another class. That is the only way in which classes meet (`CharClasses.exclusive_ofConfig_iff`).
-/

namespace ShellWords

/-! ## What is collected -/

/-- The letters of Latin-1 that are not in ASCII: all from `À` to `ÿ`, except for the signs `×` and `÷`. The ordinal
signs `ª` and `º` and the micro sign `µ`, which stand before them, are no letters here. -/
def IsLatinLetter (c : Char) : Prop := 'À'.toNat ≤ c.toNat ∧ c.toNat ≤ 'ÿ'.toNat ∧ c ≠ '×' ∧ c ≠ '÷'

variable {config : Config} {c : Char}

/-- A character is in a list if its code point is among those of the list. -/
theorem mem_iff_toNat_mem {cs : List Char} : c ∈ cs ↔ c.toNat ∈ cs.map Char.toNat :=
  (List.mem_map_of_injective fun _ _ => Char.toNat_inj.1).symm

/-- The code points of the letters and digits of ASCII. -/
theorem isAlphanum_iff_toNat : c.isAlphanum = true ↔
    ((65 ≤ c.toNat ∧ c.toNat ≤ 90) ∨ (97 ≤ c.toNat ∧ c.toNat ≤ 122)) ∨ (48 ≤ c.toNat ∧ c.toNat ≤ 57) := by
  have hupper : c.isUpper = true ↔ 65 ≤ c.toNat ∧ c.toNat ≤ 90 := decide_eq_true_iff
  have hlower : c.isLower = true ↔ 97 ≤ c.toNat ∧ c.toNat ≤ 122 := Bool.and_eq_true_iff.trans
    (and_congr decide_eq_true_iff decide_eq_true_iff)
  have hdigit : c.isDigit = true ↔ 48 ≤ c.toNat ∧ c.toNat ≤ 57 := Bool.and_eq_true_iff.trans
    (and_congr decide_eq_true_iff decide_eq_true_iff)
  have halpha : c.isAlpha = true ↔ c.isUpper = true ∨ c.isLower = true := Bool.or_eq_true_iff
  have halphanum : c.isAlphanum = true ↔ c.isAlpha = true ∨ c.isDigit = true := Bool.or_eq_true_iff
  rw [halphanum, halpha, hupper, hlower, hdigit]

/-- The code points of the letters of Latin-1. -/
theorem isLatinLetter_iff_toNat : IsLatinLetter c ↔
    192 ≤ c.toNat ∧ c.toNat ≤ 255 ∧ c.toNat ≠ 215 ∧ c.toNat ≠ 247 := by
  rw [IsLatinLetter, ne_eq, ne_eq, ← Char.toNat_inj, ← Char.toNat_inj]
  rfl

/-- The first table, as code points. -/
theorem toNat_asciiWordChars : asciiWordChars.map Char.toNat =
    List.range' 97 26 ++ List.range' 65 26 ++ List.range' 48 10 ++ [95] := by decide +kernel

/-- The second table, as code points. It runs from `ß` to `ÿ` and then from `À` on, and passes over the two signs. -/
theorem toNat_latinWordChars : latinWordChars.map Char.toNat =
    List.range' 223 24 ++ List.range' 248 8 ++ List.range' 192 23 ++ List.range' 216 7 := by decide +kernel

/-- The third table, as code points. -/
theorem toNat_pathWordChars : pathWordChars.map Char.toNat = [126, 45, 46, 47, 42, 63, 61] := by decide +kernel

/-- The first table holds the letters and digits of ASCII and the underscore. -/
theorem mem_asciiWordChars_iff : c ∈ asciiWordChars ↔ c.isAlphanum = true ∨ c = '_' := by
  -- Both sides are conditions on the code point.
  have hunderscore : c = '_' ↔ c.toNat = 95 := Char.toNat_inj.symm
  rw [mem_iff_toNat_mem, toNat_asciiWordChars, isAlphanum_iff_toNat, hunderscore]
  simp only [List.mem_append, List.mem_range'_1, List.mem_singleton]
  omega

/-- The second table holds the letters of Latin-1. -/
theorem mem_latinWordChars_iff : c ∈ latinWordChars ↔ IsLatinLetter c := by
  rw [mem_iff_toNat_mem, toNat_latinWordChars, isLatinLetter_iff_toNat]
  simp only [List.mem_append, List.mem_range'_1]
  omega

/-- The characters that may belong to words under these options, unless they are made operators. -/
inductive WordBase (config : Config) (c : Char) : Prop where
  /-- The letters and digits of ASCII and the underscore always may. -/
  | ascii (h : c.isAlphanum = true ∨ c = '_')
  /-- The letters of Latin-1 may in POSIX mode. -/
  | latin (hposix : config.posix = true) (h : IsLatinLetter c)
  /-- The characters of file names and wildcards may where there are operators. -/
  | path (hactive : config.punctuation.isActive = true) (h : c ∈ "~-./*?=".toList)

/-- These are the characters that are collected. -/
theorem mem_wordCandidates_iff : c ∈ CharClasses.wordCandidates config ↔ WordBase config c := by
  rw [CharClasses.wordCandidates, List.mem_append, List.mem_append, List.mem_ite_nil_right,
    List.mem_ite_nil_right, mem_asciiWordChars_iff, mem_latinWordChars_iff]
  constructor
  · rintro ((hascii | ⟨hposix, hlatin⟩) | ⟨hactive, hpath⟩)
    · exact .ascii hascii
    · exact .latin hposix hlatin
    · exact .path hactive hpath
  · rintro (hascii | ⟨hposix, hlatin⟩ | ⟨hactive, hpath⟩)
    · exact .inl (.inl hascii)
    · exact .inl (.inr ⟨hposix, hlatin⟩)
    · exact .inr ⟨hactive, hpath⟩

/-- None of them has a meaning besides. -/
theorem WordBase.notMem_marks (h : WordBase config c) : c ∉ Rules.marks := by
  have hmarks : Rules.marks.map Char.toNat = [32, 9, 13, 10, 35, 39, 34, 92] := rfl
  rw [mem_iff_toNat_mem, hmarks]
  simp only [List.mem_cons, List.not_mem_nil, or_false]
  cases h with
  | ascii h =>
    rcases h with halphanum | rfl
    · have hcode := isAlphanum_iff_toNat.1 halphanum
      omega
    · decide
  | latin _ h =>
    have hcode := isLatinLetter_iff_toNat.1 h
    omega
  | path _ h =>
    have hcode : c.toNat ∈ pathWordChars.map Char.toNat := mem_iff_toNat_mem.1 h
    rw [toNat_pathWordChars] at hcode
    simp only [List.mem_cons, List.not_mem_nil, or_false] at hcode
    omega

/-! ## Word characters and operators -/

namespace Rules

/-- The word characters are those that have been collected and are no operators. -/
theorem isWord_ofConfig_iff :
    (ofConfig config).classes.isWord c = true ↔ WordBase config c ∧ c ∉ config.punctuation.chars := by
  have hfiltered : c ∈ (ofConfig config).classes.word ↔
      c ∈ CharClasses.wordCandidates config ∧ c ∉ config.punctuation.chars := by
    simp [ofConfig, CharClasses.ofConfig]
  rw [CharClasses.isWord, List.contains_iff_mem, hfiltered, mem_wordCandidates_iff]

/-- The operators are those of the options. -/
theorem isPunctuation_ofConfig_iff :
    (ofConfig config).classes.isPunctuation c = true ↔ c ∈ config.punctuation.chars := List.contains_iff_mem

/-- Other characters are none. -/
theorem isPunctuation_of_notMem (h : c ∉ config.punctuation.chars) :
    (ofConfig config).classes.isPunctuation c = false := by
  rwa [← Bool.not_eq_true, isPunctuation_ofConfig_iff]

/-- A mark is never a word character. -/
theorem isWord_of_mem_marks (config : Config) (h : c ∈ marks) : (ofConfig config).classes.isWord c = false := by
  rw [← Bool.not_eq_true, isWord_ofConfig_iff]
  exact fun hword => hword.1.notMem_marks h

/-- Whatever the options are, the letters and digits of ASCII have no marks. -/
theorem unmarked_letter (config : Config) (h : c ∈ asciiWordChars) : (ofConfig config).Unmarked c :=
  have hbase : WordBase config c := .ascii (mem_asciiWordChars_iff.1 h)
  unmarked_of_notMem config hbase.notMem_marks

/-- A character that belongs to words, and to nothing else. -/
structure OnlyWord (r : Rules) (c : Char) : Prop where
  word : r.classes.isWord c = true
  unmarked : r.Unmarked c
  notOperator : r.classes.isPunctuation c = false

/-- Under all options every word character is such a character. -/
theorem onlyWord_ofConfig (h : (ofConfig config).classes.isWord c = true) : (ofConfig config).OnlyWord c := by
  obtain ⟨hbase, hnot⟩ := isWord_ofConfig_iff.1 h
  exact ⟨h, unmarked_of_notMem config hbase.notMem_marks, isPunctuation_of_notMem hnot⟩

namespace OnlyWord

variable {r : Rules} (h : r.OnlyWord c) (token : String) (quoted : Bool)
include h

/-- Between tokens it starts a word. -/
theorem move_start :
    r.move .start token quoted c = { state := .word, token := String.singleton c, quoted } := by
  simp [move, moveFromStart, h.unmarked.space, h.unmarked.comment, h.unmarked.escape, h.word]

/-- In a word it extends the word. -/
theorem move_word : r.move .word token quoted c = { state := .word, token := token.push c, quoted } := by
  simp [move, moveFromWord, moveAtBoundary, h.unmarked.space, h.unmarked.comment, h.unmarked.quote,
    h.unmarked.escape, h.word]

/-- It ends a run of operators and is read again. -/
theorem move_punctuation : r.move .punctuation token quoted c =
    { state := .start, token, quoted, held := .char, complete := true } := by
  simp [move, moveFromPunctuation, moveAtBoundary, h.unmarked.space, h.unmarked.comment, h.notOperator]

end OnlyWord

end Rules

/-- What the classes are under all options, whichever characters are made operators. The word class is what is
collected without the operators, so no character of it is an operator, and none has a meaning of its own. There
are operators exactly if the options say so. -/
theorem CharClasses.word_class_exact (config : Config) (c : Char) :
    ((ofConfig config).isWord c = true ↔ WordBase config c ∧ c ∉ config.punctuation.chars) ∧
    ((ofConfig config).isPunctuation c = true ↔ c ∈ config.punctuation.chars) ∧
    ¬((ofConfig config).isWord c = true ∧ (ofConfig config).isPunctuation c = true) ∧
    ((ofConfig config).isWord c = true →
      (ofConfig config).isWhitespace c = false ∧ (ofConfig config).isQuote c = false ∧
        (ofConfig config).isEscape c = false ∧ (ofConfig config).isComment c = false) ∧
    (ofConfig config).punctuationActive = config.punctuation.isActive := by
  refine ⟨Rules.isWord_ofConfig_iff, Rules.isPunctuation_ofConfig_iff, ?_, ?_, rfl⟩
  · rintro ⟨h, hoperator⟩
    have honly := Rules.onlyWord_ofConfig h
    exact Bool.false_ne_true (honly.notOperator.symm.trans hoperator)
  · intro h
    have hplain := (Rules.onlyWord_ofConfig h).unmarked
    exact ⟨hplain.space, hplain.quote, hplain.escape, hplain.comment⟩

/-- Whichever stage has let an operator in, it belongs to no word. The other characters of file names do. -/
example :
    (CharClasses.ofConfig { posix := false, punctuation := .custom "_-" }).isWord '_' = false ∧
    (CharClasses.ofConfig { posix := false, punctuation := .custom "_-" }).isWord '-' = false ∧
    (CharClasses.ofConfig { posix := false, punctuation := .custom "_-" }).isWord '~' = true := by
  decide +kernel

/-! ## Classes that do not meet -/

namespace CharClasses

/-- The characters with a meaning of their own, class by class. -/
def markClasses (k : CharClasses) : List (List Char) := [k.whitespace, k.quotes, [k.escape], k.commenters]

/-- No character is in two classes. -/
def Exclusive (k : CharClasses) : Prop := (k.markClasses ++ [k.word, k.punctuation]).Pairwise List.Disjoint

end CharClasses

/-- A character has no mark if it is in none of these classes. -/
theorem Rules.unmarked_iff {r : Rules} : r.Unmarked c ↔ ∀ l ∈ r.classes.markClasses, c ∉ l := by
  constructor
  · rintro ⟨hspace, hcomment, hquote, hescape⟩
    simp only [CharClasses.isWhitespace, CharClasses.isComment, CharClasses.isQuote, CharClasses.isEscape,
      List.contains_eq_mem, decide_eq_false_iff_not, beq_eq_false_iff_ne] at hspace hcomment hquote hescape
    simp [CharClasses.markClasses, hspace, hcomment, hquote, hescape]
  · intro h
    simp only [CharClasses.markClasses, List.mem_cons, List.not_mem_nil, or_false, forall_eq_or_imp, forall_eq] at h
    obtain ⟨hspace, hquote, hescape, hcomment⟩ := h
    refine ⟨?_, ?_, ?_, ?_⟩
    · simpa [CharClasses.isWhitespace] using hspace
    · simpa [CharClasses.isComment] using hcomment
    · simpa [CharClasses.isQuote] using hquote
    · simpa [CharClasses.isEscape] using hescape

namespace CharClasses

/-- Different meanings belong to different characters. -/
theorem pairwise_markClasses (config : Config) : (ofConfig config).markClasses.Pairwise List.Disjoint := by
  cases hcomments : config.comments <;> simp [markClasses, ofConfig, hcomments]

/-- No word character is an operator. -/
theorem pairwise_word_punctuation (config : Config) :
    [(ofConfig config).word, (ofConfig config).punctuation].Pairwise List.Disjoint := by
  rw [List.pairwise_pair]
  intro c hword hoperator
  have honly : (Rules.ofConfig config).OnlyWord c := Rules.onlyWord_ofConfig (List.contains_iff_mem.2 hword)
  exact Bool.false_ne_true (honly.notOperator.symm.trans (List.contains_iff_mem.2 hoperator))

/-- No classes meet exactly if no operator has a meaning besides. -/
theorem exclusive_ofConfig_iff :
    (ofConfig config).Exclusive ↔ ∀ c ∈ config.punctuation.chars, (Rules.ofConfig config).Unmarked c := by
  rw [Exclusive, List.pairwise_append]
  constructor
  · rintro ⟨-, -, hmeet⟩ c hc
    refine Rules.unmarked_iff.2 fun l hl hmem => ?_
    exact hmeet l hl config.punctuation.chars (by simp [ofConfig]) hmem hc
  · intro hplain
    refine ⟨pairwise_markClasses config, pairwise_word_punctuation config, ?_⟩
    intro l hl other hother c hmem hc
    -- The word class has no marks in any case, and the operators have none by assumption.
    have hunmarked : (Rules.ofConfig config).Unmarked c := by
      rcases List.mem_pair.1 hother with rfl | rfl
      · exact (Rules.onlyWord_ofConfig (List.contains_iff_mem.2 hc)).unmarked
      · exact hplain c hc
    exact Rules.unmarked_iff.1 hunmarked l hl hmem

end CharClasses

end ShellWords
