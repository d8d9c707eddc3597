/-!
# The text of a TOML document

Blanks, comments, line ends and the four forms of strings. A reader takes what it reads from the
beginning of the text and gives the rest, or fails. Control characters other than the tab stand nowhere
in a document, and a line ends with a newline that a carriage return may precede.
-/

namespace ShellWords.Toml

/-- Whether a character separates words inside a line. -/
def isBlank (c : Char) : Bool := c == ' ' || c == '\t'

/-- Whether a character is a control character, newline and tab among them. -/
def isControl (c : Char) : Bool := c.toNat < 0x20 || c.toNat == 0x7F

/-- Whether a character may stand in a line as it is. -/
def isPlain (c : Char) : Bool := c == '\t' || !isControl c

/-- The text without the blanks at its beginning. -/
def skipBlanks (s : List Char) : List Char := s.dropWhile isBlank

/-- The text after the newline at its beginning. -/
def newline? : List Char → Option (List Char)
  | '\n' :: rest => some rest
  | '\r' :: '\n' :: rest => some rest
  | _ => none

/-- A newline takes a character or two off the text. -/
theorem length_lt_of_newline? {s t : List Char} (h : newline? s = some t) : t.length < s.length := by
  unfold newline? at h
  split at h
  · cases h
    exact Nat.lt_succ_self _
  · cases h
    exact Nat.lt_succ_of_lt (Nat.lt_succ_self _)
  · cases h

/-- The text without the comment at its beginning. -/
def skipComment : List Char → List Char
  | '#' :: rest => rest.dropWhile isPlain
  | s => s

/-- The text after this line, if nothing but blanks and a comment is left of the line. The last line
needs no newline. -/
def lineEnd? (s : List Char) : Option (List Char) :=
  match skipComment (skipBlanks s) with
  | [] => some []
  | rest => newline? rest

/-- The text without the blanks and newlines at its beginning. -/
def skipLines (s : List Char) : List Char :=
  match _h : newline? s with
  | some rest => skipLines rest
  | none =>
    match s with
    | c :: rest => if isBlank c then skipLines rest else c :: rest
    | [] => []
termination_by s.length
decreasing_by
  · exact length_lt_of_newline? _h
  · simp

/-- Without its blanks the text is no longer than before. -/
theorem length_skipBlanks_le (s : List Char) : (skipBlanks s).length ≤ s.length :=
  (List.dropWhile_sublist _).length_le

/-- Nor is it without blanks and newlines. -/
theorem length_skipLines_le (s : List Char) : (skipLines s).length ≤ s.length := by
  fun_induction skipLines s with
  | case1 s rest h ih => exact Nat.le_trans ih (Nat.le_of_lt (length_lt_of_newline? h))
  | case2 c rest h hc ih => exact Nat.le_succ_of_le ih
  | case3 c rest h hc => exact Nat.le_refl _
  | case4 h => exact Nat.le_refl _

/-- The text without the blanks, newlines and comments at its beginning. -/
def skipSpace (s : List Char) : List Char :=
  match _h : newline? s with
  | some rest => skipSpace rest
  | none =>
    match s with
    | c :: rest =>
      if isBlank c then skipSpace rest
      else if c == '#' then skipSpace (rest.dropWhile isPlain)
      else c :: rest
    | [] => []
termination_by s.length
decreasing_by
  · exact length_lt_of_newline? _h
  · simp
  · exact Nat.lt_succ_of_le (List.dropWhile_sublist _).length_le

/-! ## Escapes -/

/-- The value of a hexadecimal digit. -/
def hexValue? (c : Char) : Option Nat :=
  if c.isDigit then some (c.toNat - '0'.toNat)
  else if 'a' ≤ c && c ≤ 'f' then some (c.toNat - 'a'.toNat + 10)
  else if 'A' ≤ c && c ≤ 'F' then some (c.toNat - 'A'.toNat + 10)
  else none

/-- The number that hexadecimal digits write. -/
def hexNumber? (digits : List Char) : Option Nat :=
  digits.foldlM (fun n c => (hexValue? c).map (16 * n + ·)) 0

/-- The character with a code point. Surrogates are no characters. -/
def character? (n : Nat) : Option Char := if n.isValidChar then some (Char.ofNat n) else none

/-- The character whose code point is written by this many digits. -/
def codePoint? (digits : Nat) (s : List Char) : Option (Char × List Char) :=
  if (s.take digits).length < digits then none
  else ((hexNumber? (s.take digits)).bind character?).map fun c => (c, s.drop digits)

/-- The character that an escape stands for, after its backslash. -/
def escape? : List Char → Option (Char × List Char)
  | 'b' :: rest => some ('\x08', rest)
  | 't' :: rest => some ('\t', rest)
  | 'n' :: rest => some ('\n', rest)
  | 'f' :: rest => some ('\x0c', rest)
  | 'r' :: rest => some ('\r', rest)
  | '"' :: rest => some ('"', rest)
  | '\\' :: rest => some ('\\', rest)
  | 'u' :: rest => codePoint? 4 rest
  | 'U' :: rest => codePoint? 8 rest
  | _ => none

/-- A code point takes its digits off the text. -/
theorem length_le_of_codePoint? {n : Nat} {s t : List Char} {c : Char}
    (h : codePoint? n s = some (c, t)) : t.length ≤ s.length := by
  unfold codePoint? at h
  split at h
  · cases h
  · simp only [Option.map_eq_some_iff, Prod.mk.injEq] at h
    obtain ⟨_, _, _, rfl⟩ := h
    simp

/-- An escape takes characters off the text. -/
theorem length_le_of_escape? {s t : List Char} {c : Char} (h : escape? s = some (c, t)) :
    t.length ≤ s.length := by
  unfold escape? at h
  split at h
  case h_8 => exact Nat.le_succ_of_le (length_le_of_codePoint? h)
  case h_9 => exact Nat.le_succ_of_le (length_le_of_codePoint? h)
  all_goals simp at h
  all_goals simp [← h.2]

/-! ## Strings -/

/-- A character of a string between double quotes, which may be written as an escape. -/
def basicChar? : List Char → Option (Char × List Char)
  | '\\' :: rest => escape? rest
  | c :: rest => if c != '"' && isPlain c then some (c, rest) else none
  | [] => none

/-- A character of a string takes at least one. -/
theorem length_lt_of_basicChar? {s t : List Char} {c : Char} (h : basicChar? s = some (c, t)) :
    t.length < s.length := by
  unfold basicChar? at h
  split at h
  · exact Nat.lt_succ_of_le (length_le_of_escape? h)
  · split at h
    · simp only [Option.some.injEq, Prod.mk.injEq] at h
      simp [← h.2]
    · cases h
  · cases h

/-- A character before what has been read after it. -/
def before (c : Char) (read : List Char × List Char) : List Char × List Char :=
  (c :: read.1, read.2)

/-- The rest of a string between double quotes. -/
def basic? (s : List Char) : Option (List Char × List Char) :=
  match s with
  | '"' :: rest => some ([], rest)
  | s =>
    match _h : basicChar? s with
    | some (c, rest) => (basic? rest).map (before c)
    | none => none
termination_by s.length
decreasing_by exact length_lt_of_basicChar? _h

/-- The rest of a string between single quotes. -/
def plain? (s : List Char) : Option (List Char × List Char) :=
  match s.dropWhile fun c => c != '\'' && isPlain c with
  | '\'' :: rest => some (s.takeWhile fun c => c != '\'' && isPlain c, rest)
  | _ => none

/-- Up to two quotes may stand before the three that close a string over several lines. Given the text
after three quotes, these are the quotes that belong to the string, and what follows it. -/
def closing (q : Char) : List Char → List Char × List Char
  | [] => ([], [])
  | [a] => if a = q then ([q], []) else ([], [a])
  | a :: b :: rest =>
    if a = q then if b = q then ([q, q], rest) else ([q], b :: rest) else ([], a :: b :: rest)

/-- The rest of a string between three double quotes. A backslash at the end of a line takes with it the
newline and all blanks and newlines after it. -/
def multilineBasic? (s : List Char) : Option (List Char × List Char) :=
  match s with
  | '"' :: '"' :: '"' :: rest => some (closing '"' rest)
  -- One or two quotes in a row are part of the string.
  | '"' :: rest => (multilineBasic? rest).map (before '"')
  | '\\' :: rest =>
    match _h : newline? (skipBlanks rest) with
    | some next => multilineBasic? (skipLines next)
    | none =>
      match _h : escape? rest with
      | some (c, next) => (multilineBasic? next).map (before c)
      | none => none
  | c :: rest =>
    match _h : newline? (c :: rest) with
    | some next => (multilineBasic? next).map (before '\n')
    | none => if isPlain c then (multilineBasic? rest).map (before c) else none
  | [] => none
termination_by s.length
decreasing_by
  · simp
  · have := length_skipLines_le next
    have := length_lt_of_newline? _h
    have := length_skipBlanks_le rest
    simp
    omega
  · exact Nat.lt_succ_of_le (length_le_of_escape? _h)
  · exact length_lt_of_newline? _h
  · simp

/-- The rest of a string between three single quotes. -/
def multilinePlain? (s : List Char) : Option (List Char × List Char) :=
  match s with
  | '\'' :: '\'' :: '\'' :: rest => some (closing '\'' rest)
  | c :: rest =>
    match _h : newline? (c :: rest) with
    | some next => (multilinePlain? next).map (before '\n')
    | none => if isPlain c then (multilinePlain? rest).map (before c) else none
  | [] => none
termination_by s.length
decreasing_by
  · exact length_lt_of_newline? _h
  · simp

/-- The text without one newline at its beginning. -/
def trimNewline (s : List Char) : List Char := (newline? s).getD s

/-- A string of any form. -/
def string? : List Char → Option (List Char × List Char)
  | '"' :: '"' :: '"' :: rest => multilineBasic? (trimNewline rest)
  | '"' :: rest => basic? rest
  | '\'' :: '\'' :: '\'' :: rest => multilinePlain? (trimNewline rest)
  | '\'' :: rest => plain? rest
  | _ => none

end ShellWords.Toml
