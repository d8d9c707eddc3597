import ShellWords.Text.Printable

/-!
# Literals

A text or a character as it is shown in a report or an error message: between quotes, with the quote,
the backslash and everything that would not print written as an escape.
-/

namespace ShellWords.Text

/-- A number in lower-case hexadecimal digits, without leading zeros. -/
def hex (n : Nat) : String := String.ofList (Nat.toDigits 16 n)

/-- A character inside a literal that is closed by the given quote. -/
def escaped (quote c : Char) : String :=
  match c with
  | '\x00' => "\\0"
  | '\t' => "\\t"
  | '\r' => "\\r"
  | '\n' => "\\n"
  | '\\' => "\\\\"
  | c =>
    if c == quote then "\\".push c
    else if isUnprintable c then "\\u" ++ "\x7b" ++ hex c.toNat ++ "\x7d"
    else String.singleton c

/-- What is written in characters from the space to the tilde prints. -/
theorem not_isUnprintable_of_all {cs : List Char} (h : (cs.all fun c => 0x20 ≤ c.toNat && c.toNat < 0x7f) = true) :
    ∀ c ∈ cs, isUnprintable c = false := by
  intro c hc
  rw [isUnprintable, List.all_eq_true.1 h c hc, Bool.not_true, Bool.false_and]

/-- So the digits of hexadecimal numbers print. -/
theorem not_isUnprintable_digitChar {n : Nat} (h : n < 16) : isUnprintable n.digitChar = false := by
  have hdigits : ∀ c ∈ (List.range 16).map Nat.digitChar, isUnprintable c = false :=
    not_isUnprintable_of_all (by decide)
  exact hdigits _ (List.mem_map_of_mem (List.mem_range.2 h))

/-- So a number prints. -/
theorem not_isUnprintable_of_mem_hex (n : Nat) : ∀ c ∈ (hex n).toList, isUnprintable c = false := by
  rw [hex, String.toList_ofList]
  induction n using Nat.strongRecOn with
  | ind n ih =>
    by_cases hn : n < 16
    · rw [Nat.toDigits_of_lt_base hn]
      exact List.forall_mem_singleton.2 (not_isUnprintable_digitChar hn)
    · rw [Nat.toDigits_of_base_le (by decide) (Nat.le_of_not_lt hn)]
      intro c hc
      rcases List.mem_append.1 hc with hc | hc
      · exact ih _ (Nat.div_lt_self (by omega) (by decide)) c hc
      · rw [List.mem_singleton.1 hc]
        exact not_isUnprintable_digitChar (Nat.mod_lt _ (by decide))

/-- What is written for a character prints if the quote does. -/
theorem not_isUnprintable_of_mem_escaped {quote : Char} (hquote : isUnprintable quote = false) (c : Char) :
    ∀ d ∈ (escaped quote c).toList, isUnprintable d = false := by
  unfold escaped
  split
  case h_6 =>
    split
    · rename_i hsame
      obtain rfl : c = quote := by simpa using hsame
      have hbackslash : isUnprintable '\\' = false := rfl
      simp [hquote, hbackslash]
    · split
      · have hhex := not_isUnprintable_of_mem_hex c.toNat
        have hopen : ∀ d ∈ ("\\u" ++ "\x7b").toList, isUnprintable d = false := not_isUnprintable_of_all (by decide)
        have hclose : ∀ d ∈ "\x7d".toList, isUnprintable d = false := not_isUnprintable_of_all (by decide)
        intro d hd
        rw [String.toList_append, String.toList_append, List.mem_append, List.mem_append] at hd
        rcases hd with (hd | hd) | hd
        · exact hopen d hd
        · exact hhex d hd
        · exact hclose d hd
      · rename_i hprints
        simpa using hprints
  all_goals exact not_isUnprintable_of_all (by decide)

/-- A text between double quotes. -/
def literal (s : String) : String :=
  "\"" ++ String.join (s.toList.map (escaped '"')) ++ "\""

/-- Whatever the text is, what is shown of it prints, so it stays on one line. -/
theorem not_isUnprintable_of_mem_literal (s : String) : ∀ c ∈ (literal s).toList, isUnprintable c = false := by
  have hquote : ∀ c ∈ "\"".toList, isUnprintable c = false := not_isUnprintable_of_all (by decide)
  intro c hc
  rw [literal, String.toList_append, String.toList_append, List.mem_append, List.mem_append, String.toList_join] at hc
  rcases hc with (hc | hc) | hc
  · exact hquote c hc
  · obtain ⟨_, hescaped, hc⟩ := List.mem_flatMap.1 hc
    obtain ⟨d, -, rfl⟩ := List.mem_map.1 hescaped
    exact not_isUnprintable_of_mem_escaped rfl d c hc
  · exact hquote c hc

/-- An accent is written by its code point, even behind a letter that it could stand on. -/
example : literal "é\u0301" = "\"é\\u\x7b301\x7d\"" := by decide +kernel

/-- A character between single quotes. -/
def charLiteral (c : Char) : String := "'" ++ escaped '\'' c ++ "'"

/-- An optional value, shown by the given function when it is there. -/
def optional {α : Type} (render : α → String) : Option α → String
  | none => "None"
  | some a => "Some(" ++ render a ++ ")"

/-- A list between square brackets. -/
def listed {α : Type} (render : α → String) (xs : List α) : String :=
  "[" ++ String.intercalate ", " (xs.map render) ++ "]"

end ShellWords.Text
