import ShellWords.Trace.Log

/-!
# Observers

An observer listens to the events of one lexer. It keeps what it has heard: a recorder keeps the events
themselves, a logger the records that its level shows.
-/

namespace ShellWords

/-- A listener and what it has heard so far, oldest first. -/
inductive Observer where
  /-- Nobody listens. -/
  | silent
  /-- Every event is kept. -/
  | recording (events : Array Event)
  /-- The events that the level shows are kept as records under the tag. -/
  | logging (tag : String) (level : UInt8) (records : Array Record)
  deriving DecidableEq, Repr, Inhabited

namespace Observer

/-- A recorder that has heard nothing. -/
def recorder : Observer := recording #[]

/-- A logger that has heard nothing. -/
def logger (tag : String) (level : UInt8) : Observer := logging tag level #[]

/-- Tells an event to the observer. -/
def notify (o : Observer) (e : Event) : Observer :=
  match o with
  | silent => silent
  | recording events => recording (events.push e)
  | logging tag level records =>
    logging tag level (match e.record? tag level with
      | some r => records.push r
      | none => records)

/-- The events that a recorder has heard. -/
def events : Observer → List Event
  | recording es => es.toList
  | _ => []

/-- The records that a logger has kept. -/
def records : Observer → List Record
  | logging _ _ rs => rs.toList
  | _ => []

/-- The observer, with all that it has heard forgotten. -/
def cleared : Observer → Observer
  | silent => silent
  | recording _ => recorder
  | logging tag level _ => logger tag level

end Observer
end ShellWords
