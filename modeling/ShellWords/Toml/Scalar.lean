import ShellWords.Toml.Value

/-!
# TOML numbers, times and truth values

A scalar is written without quotes, so it is a run of letters, digits and a few marks, and what follows
the run cannot belong to it. Only a date and a time may have one blank between them. Integers have 64
bits with a sign. A float must not be written so large that only infinity is near.
-/

namespace ShellWords.Toml

/-- Whether a character may stand in a scalar. -/
def isScalarChar (c : Char) : Bool := c.isAlphanum || "+-_.:".toList.contains c

/-! ## Digits -/

/-- The digits after the first, without the underscores. An underscore stands between two digits. -/
def moreDigits? (isDigit : Char → Bool) : List Char → Option (List Char)
  | [] => some []
  | '_' :: c :: rest => if isDigit c then (moreDigits? isDigit rest).map (c :: ·) else none
  | c :: rest => if isDigit c then (moreDigits? isDigit rest).map (c :: ·) else none

/-- The digits, without the underscores. There is at least one. -/
def digits? (isDigit : Char → Bool) : List Char → Option (List Char)
  | c :: rest => if isDigit c then (moreDigits? isDigit rest).map (c :: ·) else none
  | [] => none

/-- The decimal digits of a number without needless zeros in front. -/
def decimalDigits? (s : List Char) : Option (List Char) :=
  match digits? Char.isDigit s with
  | some ('0' :: _ :: _) => none
  | r => r

/-- The value of a digit, in any base up to sixteen. -/
def digitValue (c : Char) : Nat :=
  if c.isDigit then c.toNat - '0'.toNat
  else if c.isLower then c.toNat - 'a'.toNat + 10
  else c.toNat - 'A'.toNat + 10

/-- The number that digits write in a base. -/
def ofDigits (base : Nat) (digits : List Char) : Nat :=
  digits.foldl (fun n c => base * n + digitValue c) 0

/-- Whether a character is a hexadecimal digit. -/
def isHexDigit (c : Char) : Bool :=
  c.isDigit || ('a' ≤ c && c ≤ 'f') || ('A' ≤ c && c ≤ 'F')

/-- Whether a character is an octal digit. -/
def isOctalDigit (c : Char) : Bool := '0' ≤ c && c ≤ '7'

/-- Whether a character is a binary digit. -/
def isBinaryDigit (c : Char) : Bool := c == '0' || c == '1'

/-! ## Numbers -/

/-- The integer, if it fits into 64 bits with a sign. -/
def inRange? (n : Int) : Option Int :=
  if -0x8000000000000000 ≤ n ∧ n < 0x8000000000000000 then some n else none

/-- An integer. Only a decimal one has a sign. -/
def integer? : List Char → Option Int
  | '0' :: 'x' :: rest => (digits? isHexDigit rest).bind fun ds => inRange? (ofDigits 16 ds)
  | '0' :: 'o' :: rest => (digits? isOctalDigit rest).bind fun ds => inRange? (ofDigits 8 ds)
  | '0' :: 'b' :: rest => (digits? isBinaryDigit rest).bind fun ds => inRange? (ofDigits 2 ds)
  | '-' :: rest => (decimalDigits? rest).bind fun ds => inRange? (-(ofDigits 10 ds : Int))
  | '+' :: rest => (decimalDigits? rest).bind fun ds => inRange? (ofDigits 10 ds)
  | s => (decimalDigits? s).bind fun ds => inRange? (ofDigits 10 ds)

/-- Half-way between the largest double and the power of two after it. From here on, a number is nearest
to infinity. -/
def infinityBound : Nat := Nat.pow 2 1024 - Nat.pow 2 970

/-- Whether `digits · 10 ^ exponent` is nearest to infinity. The size is estimated first, so that no
power is larger than the digits warrant. -/
def isInfinite (digits : List Char) (exponent : Int) : Bool :=
  -- Between 10 ^ 308 and 10 ^ 309 lies the bound itself; outside, the size decides.
  let significant := digits.dropWhile (· == '0')
  let size := (significant.length : Int) + exponent
  if significant.isEmpty || size ≤ 308 then false
  else if 310 ≤ size then true
  else if 0 ≤ exponent then infinityBound ≤ ofDigits 10 significant * Nat.pow 10 exponent.toNat
  else infinityBound * Nat.pow 10 (-exponent).toNat ≤ ofDigits 10 significant

/-- An exponent, after its letter. -/
def exponent? : List Char → Option Int
  | '-' :: rest => (digits? Char.isDigit rest).map fun ds => -(ofDigits 10 ds : Int)
  | '+' :: rest => (digits? Char.isDigit rest).map fun ds => (ofDigits 10 ds : Int)
  | s => (digits? Char.isDigit s).map fun ds => (ofDigits 10 ds : Int)

/-- The digits of a float without its sign, and its exponent: the number is the digits, read as an
integer, times that power of ten. There is a fraction or an exponent or both. -/
def magnitude? (s : List Char) : Option (List Char × Int) :=
  let isPart (c : Char) : Bool := c.isDigit || c == '_'
  match decimalDigits? (s.takeWhile isPart), s.dropWhile isPart with
  | some whole, '.' :: rest =>
    match digits? Char.isDigit (rest.takeWhile isPart), rest.dropWhile isPart with
    | some fraction, [] => some (whole ++ fraction, -(fraction.length : Int))
    | some fraction, c :: e =>
      if c == 'e' || c == 'E' then
        (exponent? e).map fun n => (whole ++ fraction, n - fraction.length)
      else none
    | none, _ => none
  | some whole, c :: e => if c == 'e' || c == 'E' then (exponent? e).map fun n => (whole, n) else none
  | _, _ => none

/-- Whether a run writes a float. -/
def isFloat (s : List Char) : Bool :=
  let unsigned := match s with
    | '+' :: rest | '-' :: rest => rest
    | s => s
  unsigned == "inf".toList || unsigned == "nan".toList ||
    match magnitude? unsigned with
    | some (digits, exponent) => s.head? == some '-' || !isInfinite digits exponent
    | none => false

/-! ## Dates and times -/

/-- Two digits, as a number in a range. -/
def pair? (a b : Char) (low high : Nat) : Option Nat :=
  if a.isDigit && b.isDigit then
    let n := ofDigits 10 [a, b]
    if low ≤ n && n ≤ high then some n else none
  else none

/-- How many days a month has. -/
def daysOf (year month : Nat) : Nat :=
  if month = 2 then
    if year % 4 = 0 && (year % 100 ≠ 0 || year % 400 = 0) then 29 else 28
  else if [4, 6, 9, 11].contains month then 30 else 31

/-- What follows the date at the beginning of the text. -/
def afterDate? : List Char → Option (List Char)
  | y₁ :: y₂ :: y₃ :: y₄ :: '-' :: m₁ :: m₂ :: '-' :: d₁ :: d₂ :: rest =>
    if [y₁, y₂, y₃, y₄].all Char.isDigit then
      (pair? m₁ m₂ 1 12).bind fun month =>
        (pair? d₁ d₂ 1 (daysOf (ofDigits 10 [y₁, y₂, y₃, y₄]) month)).map fun _ => rest
    else none
  | _ => none

/-- What follows the time at the beginning of the text. A second may be a leap second, and its fraction
has any number of digits. -/
def afterTime? : List Char → Option (List Char)
  | h₁ :: h₂ :: ':' :: m₁ :: m₂ :: ':' :: s₁ :: s₂ :: rest =>
    if (pair? h₁ h₂ 0 23).isSome && (pair? m₁ m₂ 0 59).isSome && (pair? s₁ s₂ 0 60).isSome then
      match rest with
      | '.' :: d :: more => if d.isDigit then some (more.dropWhile Char.isDigit) else none
      | '.' :: [] => none
      | rest => some rest
    else none
  | _ => none

/-- Whether a text is nothing, or the distance of a local time from the universal one. -/
def isOffset : List Char → Bool
  | [] | ['Z'] | ['z'] => true
  | [sign, h₁, h₂, ':', m₁, m₂] =>
    (sign == '+' || sign == '-') && (pair? h₁ h₂ 0 23).isSome && (pair? m₁ m₂ 0 59).isSome
  | _ => false

/-- Whether a text is a time of day, with the distance from universal time if there is one. -/
def isTimeOfDay (s : List Char) : Bool :=
  match afterTime? s with
  | some rest => isOffset rest
  | none => false

/-! ## Scalars -/

/-- The run of scalar characters at the beginning of the text, and what follows it. -/
def scalarRun (s : List Char) : List Char × List Char :=
  (s.takeWhile isScalarChar, s.dropWhile isScalarChar)

/-- A date, a time of day, or both. -/
def time? (s : List Char) : Option (Value × List Char) :=
  let (run, rest) := scalarRun s
  if afterTime? run == some [] then some (.time (String.ofList run), rest)
  else match afterDate? run with
    | some [] =>
      match rest with
      -- The blank belongs to the value only if a time of day follows it.
      | ' ' :: next =>
        let (clock, rest') := scalarRun next
        if isTimeOfDay clock then some (.time (String.ofList (run ++ ' ' :: clock)), rest')
        else some (.time (String.ofList run), rest)
      | _ => some (.time (String.ofList run), rest)
    | some (c :: clock) =>
      if (c == 'T' || c == 't') && isTimeOfDay clock then some (.time (String.ofList run), rest)
      else none
    | none => none

/-- A truth value, an integer, a float or a time. -/
def scalar? (s : List Char) : Option (Value × List Char) :=
  let (run, rest) := scalarRun s
  if run == "true".toList then some (.boolean true, rest)
  else if run == "false".toList then some (.boolean false, rest)
  else match integer? run with
    | some n => some (.integer n, rest)
    | none =>
      if isFloat run then some (.float (String.ofList run), rest) else time? s

end ShellWords.Toml
