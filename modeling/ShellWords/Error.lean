import ShellWords.Text.Literal
import ShellWords.Path

/-!
# Errors

`ReadError` lists what can go wrong while a file is opened or a stream is read, and `LexError` what
can go wrong while tokens are produced. The end of the input is no error. The wording of each cause
stands in one place, `ReadError.message` and `LexError.message`.
-/

namespace ShellWords

/-- Why a file could not be opened, or a stream not be read. -/
inductive ReadError where
  /-- This byte begins no character. -/
  | invalidLeadByte (byte : UInt8)
  /-- The stream ended inside a character. -/
  | truncatedCharacter
  /-- The bytes of a character are not well formed; this many of them could begin one. -/
  | invalidSequence (length : Nat)
  /-- There is no such file. -/
  | notFound
  /-- The path goes through something that is no directory. -/
  | notDirectory
  /-- The path names a directory, which has no bytes to read. -/
  | isDirectory
  /-- The path holds the character NUL. -/
  | nulInPath
  /-- The file has not been looked up, so nothing is known of it. -/
  | notLoaded (path : Path)
  /-- The stream failed for a reason of its own. -/
  | failed (reason : String)
  deriving DecidableEq, Repr

/-- The wording of a failure to open or to read. -/
def ReadError.message : ReadError → String
  | .invalidLeadByte byte =>
    "invalid UTF-8 leading byte 0x" ++ (if byte < 16 then "0" else "") ++ Text.hex byte.toNat
  | .truncatedCharacter => "truncated UTF-8 sequence"
  | .invalidSequence length =>
    "invalid utf-8 sequence of " ++ toString length ++ " bytes from index 0"
  | .notFound => "No such file or directory (os error 2)"
  | .notDirectory => "Not a directory (os error 20)"
  | .isDirectory => "Is a directory (os error 21)"
  | .nulInPath => "file name contained an unexpected NUL byte"
  | .notLoaded path => "file not loaded: " ++ path.text
  | .failed reason => reason

/-- Why no token could be produced. -/
inductive LexError where
  /-- The source ended inside a quotation or right after an escape character. It is described by the
  file it comes from, if any, and by the line it ended at. -/
  | unterminatedQuotation (origin : Option Path) (line : Nat)
  /-- The source could not be read. -/
  | unreadable (cause : ReadError)
  /-- There is no suspended source to return to. -/
  | emptySourceStack
  /-- The file named after the source keyword could not be opened. -/
  | unresolved (name : String) (cause : ReadError)
  /-- The lexer has included as many files as it may. -/
  | inclusionLimit (name : String)
  deriving DecidableEq, Repr

/-- The wording of a failure to produce a token. -/
def LexError.message : LexError → String
  | .unterminatedQuotation _ _ => "No closing quotation"
  | .unreadable cause => "IO error: " ++ cause.message
  | .emptySourceStack => "source stack is empty"
  | .unresolved name cause =>
    "cannot open included source " ++ Text.literal name ++ ": " ++ cause.message
  | .inclusionLimit name => "too many included sources at " ++ Text.literal name

end ShellWords
