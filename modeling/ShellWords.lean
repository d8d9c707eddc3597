import ShellWords.Main
import ShellWords.Lexer.Report
import ShellWords.Proofs.Decoding
import ShellWords.Proofs.Lexing.Progress
import ShellWords.Proofs.Lexing.Classes
import ShellWords.Proofs.Lexing.RawToken
import ShellWords.Proofs.Lexing.Search
import ShellWords.Proofs.Lexing.Text
import ShellWords.Proofs.Lexing.Words
import ShellWords.Proofs.Posix.Automaton
import ShellWords.Proofs.Posix.Splitting
import ShellWords.Proofs.Lexing.Alike
import ShellWords.Proofs.Lexing.Resting
import ShellWords.Proofs.Inclusion.Course
import ShellWords.Proofs.Inclusion.Nesting
import ShellWords.Proofs.Inclusion.Results
import ShellWords.Proofs.Inclusion.Runs
import ShellWords.Proofs.Inclusion.Splicing
import ShellWords.Proofs.Inclusion.Within
import ShellWords.Proofs.Inclusion.Operators
import ShellWords.Proofs.Inclusion.KeepingApart
import ShellWords.Proofs.Inclusion.Contiguity
import ShellWords.Proofs.Inclusion.Counting
import ShellWords.Proofs.Loose.Munch
import ShellWords.Proofs.Posix.Joining
import ShellWords.Proofs.Lexing.Operations
import ShellWords.Proofs.Lexing.Written
import ShellWords.Proofs.Lexing.PutBack
import ShellWords.Proofs.Lexing.Ending
import ShellWords.Proofs.Lexing.Switching
import ShellWords.Proofs.Trace.Listening
import ShellWords.Proofs.Lexing.Lines
import ShellWords.Proofs.Lexing.Resumption
import ShellWords.Proofs.Trace.Replay
import ShellWords.Proofs.Text.Utf8
import ShellWords.Proofs.Toml.Strings
import ShellWords.Proofs.Json.Grammar
import ShellWords.Proofs.Command.Composing
import ShellWords.Proofs.Toml.Lines
import ShellWords.Proofs.Config.Dumping
import ShellWords.Proofs.Lexing.CompleteLines
import ShellWords.Proofs.Posix.Comments
import ShellWords.Proofs.Lexing.OperatorRuns
import ShellWords.Proofs.Lexing.Stack
import ShellWords.Proofs.Config.Loading
import ShellWords.Proofs.Posix.Pieces
import ShellWords.Proofs.Lexing.Causality
import ShellWords.Proofs.Lexing.Lookahead
import ShellWords.Proofs.Trace.Verbosity
import ShellWords.Proofs.Inclusion.Directories
import ShellWords.Proofs.Inclusion.QuotedNames
import ShellWords.Proofs.Lexing.Invariant
