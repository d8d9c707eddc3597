import ShellWords.Toml.Text

/-!
# Lists of words in JSON

A list of words is an array of strings. `Json.words?` reads one, with white space wherever JSON allows it,
and `Json.written` writes one without any.
-/

namespace ShellWords.Json

/-! ## Reading -/

/-- Whether a character is white space between the parts of a JSON text. -/
def isSpace (c : Char) : Bool := c == ' ' || c == '\t' || c == '\n' || c == '\r'

/-- The text without the white space at its beginning. -/
def skipSpace (s : List Char) : List Char := s.dropWhile isSpace

/-- A number of four hexadecimal digits, and what follows it. -/
def unit? (s : List Char) : Option (Nat × List Char) :=
  if (s.take 4).length < 4 then none
  else (Toml.hexNumber? (s.take 4)).map fun n => (n, s.drop 4)

/-- The character that one or two numbered escapes stand for, after the letter of the first. A character
past the first 65536 is written as two, and neither of the two stands alone. -/
def codePoint? (s : List Char) : Option (Char × List Char) :=
  match unit? s with
  | none => none
  | some (high, rest) =>
    if 0xD800 ≤ high && high < 0xDC00 then
      match rest with
      | '\\' :: 'u' :: next =>
        match unit? next with
        | none => none
        | some (low, rest) =>
          if 0xDC00 ≤ low && low < 0xE000 then
            (Toml.character? (0x10000 + (high - 0xD800) * 0x400 + (low - 0xDC00))).map (·, rest)
          else none
      | _ => none
    else (Toml.character? high).map (·, rest)

/-- The character that an escape stands for, after its backslash. -/
def escape? : List Char → Option (Char × List Char)
  | '"' :: rest => some ('"', rest)
  | '\\' :: rest => some ('\\', rest)
  | '/' :: rest => some ('/', rest)
  | 'b' :: rest => some ('\x08', rest)
  | 'f' :: rest => some ('\x0c', rest)
  | 'n' :: rest => some ('\n', rest)
  | 'r' :: rest => some ('\r', rest)
  | 't' :: rest => some ('\t', rest)
  | 'u' :: rest => codePoint? rest
  | _ => none

/-- A character of a string. Control characters have to be escaped. -/
def char? : List Char → Option (Char × List Char)
  | '\\' :: rest => escape? rest
  | c :: rest => if c != '"' && 0x20 ≤ c.toNat then some (c, rest) else none
  | [] => none

/-- A code unit takes its digits off the text. -/
theorem length_le_of_unit? {s t : List Char} {n : Nat} (h : unit? s = some (n, t)) :
    t.length ≤ s.length := by
  unfold unit? at h
  split at h
  · cases h
  · simp only [Option.map_eq_some_iff, Prod.mk.injEq] at h
    obtain ⟨_, _, _, rfl⟩ := h
    simp

/-- A code point takes one code unit or two. -/
theorem length_le_of_codePoint? {s t : List Char} {c : Char} (h : codePoint? s = some (c, t)) :
    t.length ≤ s.length := by
  unfold codePoint? at h
  split at h
  · cases h
  · rename_i high rest hhigh
    have hle := length_le_of_unit? hhigh
    split at h
    · split at h
      · rename_i next
        split at h
        · cases h
        · rename_i low rest' hlow
          have hle' := length_le_of_unit? hlow
          split at h
          · simp only [Option.map_eq_some_iff, Prod.mk.injEq] at h
            obtain ⟨_, _, _, rfl⟩ := h
            simp only [List.length_cons] at hle
            omega
          · cases h
      · cases h
    · simp only [Option.map_eq_some_iff, Prod.mk.injEq] at h
      obtain ⟨_, _, _, rfl⟩ := h
      exact hle

/-- A character takes at least one character of the text. -/
theorem length_lt_of_char? {s t : List Char} {c : Char} (h : char? s = some (c, t)) :
    t.length < s.length := by
  unfold char? at h
  split at h
  · rename_i rest
    refine Nat.lt_succ_of_le ?_
    unfold escape? at h
    split at h
    case h_9 => exact Nat.le_succ_of_le (length_le_of_codePoint? h)
    all_goals simp at h
    all_goals simp [← h.2]
  · split at h
    · simp only [Option.some.injEq, Prod.mk.injEq] at h
      simp [← h.2]
    · cases h
  · cases h

/-- The rest of a string, after the opening quote. -/
def string? (s : List Char) : Option (List Char × List Char) :=
  match s with
  | '"' :: rest => some ([], rest)
  | s =>
    match _h : char? s with
    | some (c, rest) => (string? rest).map fun r => (c :: r.1, r.2)
    | none => none
termination_by s.length
decreasing_by exact length_lt_of_char? _h

/-- The rest of an array of strings, after a bracket or a comma. At most as many strings are read as the
first argument says. -/
def items? : Nat → List Char → Option (List String × List Char)
  | 0, _ => none
  | fuel + 1, s =>
    match skipSpace s with
    | '"' :: rest =>
      match string? rest with
      | none => none
      | some (word, rest) =>
        match skipSpace rest with
        | ',' :: next => (items? fuel next).map fun r => (String.ofList word :: r.1, r.2)
        | ']' :: next => some ([String.ofList word], next)
        | _ => none
    | _ => none

/-- The words of a JSON text that is an array of strings. -/
def words? (text : String) : Option (List String) :=
  match skipSpace text.toList with
  | '[' :: rest =>
    -- Only an array without any string may have nothing between its brackets.
    let read := match skipSpace rest with
      | ']' :: next => some ([], next)
      | _ => items? rest.length rest
    match read with
    | some (words, rest) => if (skipSpace rest).isEmpty then some words else none
    | none => none
  | _ => none

/-! ## Writing -/

/-- A character of a string as it is written: the quote, the backslash and the control characters are
escaped, with a letter where there is one. -/
def writtenChar (c : Char) : List Char :=
  if c = '"' then ['\\', '"']
  else if c = '\\' then ['\\', '\\']
  else if c = '\x08' then ['\\', 'b']
  else if c = '\x0c' then ['\\', 'f']
  else if c = '\n' then ['\\', 'n']
  else if c = '\r' then ['\\', 'r']
  else if c = '\t' then ['\\', 't']
  else if c.toNat < 0x20 then
    ['\\', 'u', '0', '0', Nat.digitChar (c.toNat / 16), Nat.digitChar (c.toNat % 16)]
  else [c]

/-- A word as it is written. -/
def writtenWord (word : String) : List Char :=
  ['"'] ++ word.toList.flatMap writtenChar ++ ['"']

/-- An array of words as it is written. -/
def written (words : List String) : String :=
  String.ofList (['['] ++ [','].intercalate (words.map writtenWord) ++ [']'])

end ShellWords.Json
