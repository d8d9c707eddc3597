import ShellWords.Trace.Event

/-!
# Log records

A log shows trace events as lines of text. The level of a log says how much of the trace it shows:
level 1 sources and tokens, level 2 also raw tokens and state changes, level 3 every character
(`Event.detail`). `LevelFilter` is the threshold that a logger is set to for a level, and it lets every
record of that level pass (`LevelFilter.admits_record?`).
-/

namespace ShellWords

/-- How important a record is. -/
inductive Severity where
  | debug
  | trace
  deriving DecidableEq, Repr

/-- A line of a log. -/
structure Record where
  severity : Severity
  text : String
  deriving DecidableEq, Repr

namespace Event

/-- The level from which on a log shows the event. -/
def detail : Event → Nat
  | charRead _ _ => 3
  | stateChanged _ _ | rawToken _ => 2
  | tokenEmitted _ | tokenPushed _ | sourcePushed _ _ | sourcePopped _ _ => 1

/-- How important the event is. Steps of the automaton are of the lowest severity. -/
def severity : Event → Severity
  | charRead _ _ | stateChanged _ _ => .trace
  | _ => .debug

/-- A token that was read, or the end. -/
def tokenText : Option String → String
  | none => "EOF"
  | some t => Text.literal t

/-- Where a source comes from. -/
def originText : Option Path → String
  | none => "<stream>"
  | some p => p.text

/-- What a log says about the event. -/
def describe : Event → String
  | charRead s c => "in state " ++ s.describe ++ " I see character: " ++ Text.optional Text.charLiteral c
  | stateChanged s t => s.name ++ " -> " ++ t.name
  | rawToken t => "raw token=" ++ tokenText t
  | tokenEmitted t => "token=" ++ tokenText t
  | tokenPushed t => "pushing token " ++ Text.literal t
  | sourcePushed o depth =>
    "pushing source " ++ originText o ++ " (depth " ++ toString depth ++ ")"
  | sourcePopped o depth =>
    "popping source " ++ originText o ++ " (depth " ++ toString depth ++ ")"

/-- The record of an event under a tag. -/
def record (tag : String) (e : Event) : Record := ⟨e.severity, tag ++ ": " ++ e.describe⟩

/-- The record of an event in a log of this tag and level, if the log shows the event. -/
def record? (tag : String) (level : UInt8) (e : Event) : Option Record :=
  if e.detail ≤ level.toNat then some (e.record tag) else none

end Event

/-- The least important records that a logger lets pass. -/
inductive LevelFilter where
  | warn
  | debug
  | trace
  deriving DecidableEq, Repr

namespace LevelFilter

/-- The filter that a debug level asks for. -/
def ofLevel (level : UInt8) : LevelFilter :=
  if level = 0 then .warn else if level = 1 then .debug else .trace

/-- The name of a filter. -/
def name : LevelFilter → String
  | warn => "WARN"
  | debug => "DEBUG"
  | trace => "TRACE"

/-- Whether a record of this severity passes. -/
def admits : LevelFilter → Severity → Bool
  | warn, _ => false
  | debug, .debug => true
  | debug, .trace => false
  | trace, _ => true

end LevelFilter

/-- The name of a severity. -/
def Severity.name : Severity → String
  | debug => "DEBUG"
  | trace => "TRACE"

/-- The filter for a level lets every record of that level pass. -/
theorem LevelFilter.admits_record? {tag : String} {level : UInt8} {e : Event} {r : Record}
    (h : e.record? tag level = some r) : (ofLevel level).admits r.severity = true := by
  unfold Event.record? at h
  split at h
  · rename_i hle
    simp only [Option.some.injEq] at h
    subst h
    by_cases h0 : level = 0
    · subst h0
      cases e <;> simp [Event.detail] at hle
    · by_cases h1 : level = 1
      · subst h1
        cases e <;> simp [Event.detail] at hle <;> rfl
      · simp only [ofLevel, if_neg h0, if_neg h1]
        rfl
  · cases h

end ShellWords
