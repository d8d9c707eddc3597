import ShellWords.Lexer.Token

/-!
# Splitting

The words of a command line, in one call.
-/

namespace ShellWords

/-- The words of a text under the given options, or the first error. Files are included through the
resolver. -/
def splitWith (config : Config) (resolver : Resolver) (text : String) :
    Except LexError (List String) :=
  (Lexer.ofText config resolver text).words

/-- The words of a command line, by the rules of POSIX: no comments, no operators, no files. -/
def split (text : String) : Except LexError (List String) :=
  splitWith {} Resolver.refusing text

end ShellWords
