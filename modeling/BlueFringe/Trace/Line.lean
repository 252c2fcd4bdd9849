import BlueFringe.Text.Blank
import BlueFringe.Trace.Basic

/-!
# Traces as lines of text

A line holds one trace: the sign `+` or `-`, then the labels with blanks between them. Blanks around
the line and after the sign have no meaning.
-/

namespace BlueFringe

/-- Why a line is not a trace. -/
inductive LineError where
  /-- The line, without the blanks around it, starts with neither sign. -/
  | missingOutcome (line : String)
deriving DecidableEq

/-- The text of the error. -/
def LineError.message : LineError → String
  | .missingOutcome line => s!"trace `{line}` does not start with `+` or `-`"

namespace Trace

/-- The labels of a line behind its sign. -/
def labelsOf (cs : List Char) : Word String :=
  (Text.fields cs).map String.ofList

/-- Reads a line from which the blanks around it were taken. -/
def ofTrimmed : List Char → Except LineError (Trace String)
  | '+' :: cs => .ok (accepted (labelsOf cs))
  | '-' :: cs => .ok (rejected (labelsOf cs))
  | cs => .error (.missingOutcome (String.ofList cs))

/-- Reads one trace. -/
def ofLine (line : String) : Except LineError (Trace String) :=
  ofTrimmed (Text.trim line.toList)

end Trace

end BlueFringe
