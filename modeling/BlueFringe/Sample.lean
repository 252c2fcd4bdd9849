import BlueFringe.Graph.Acceptance
import BlueFringe.Trace.Line

/-!
# Samples

A sample is a list of traces, in the order in which they were given. As text it has one trace on a
line; blank lines and lines that start with `#` do not count.
-/

namespace BlueFringe

open Std

/-- A list of traces. -/
structure Sample (α : Type) where
  traces : List (Trace α)
deriving DecidableEq

namespace Sample

variable {α : Type}

/-- The sample without traces. -/
def empty : Sample α := ⟨[]⟩

/-- Words, each with a flag that tells whether it is accepted. -/
def ofFlagged (words : List (Word α × Bool)) : Sample α :=
  ⟨words.map fun entry => ⟨entry.1, .ofBool entry.2⟩⟩

/-- Accepted words, then rejected words. -/
def ofWords (positive negative : List (Word α)) : Sample α :=
  ⟨positive.map .accepted ++ negative.map .rejected⟩

/-- Adds a trace at the end. -/
def push (s : Sample α) (trace : Trace α) : Sample α := ⟨s.traces ++ [trace]⟩

/-- Adds traces at the end. -/
def append (s : Sample α) (traces : List (Trace α)) : Sample α := ⟨s.traces ++ traces⟩

/-- The number of traces. -/
def size (s : Sample α) : Nat := s.traces.length

/-- Whether there are no traces. -/
def isEmpty (s : Sample α) : Bool := s.traces.isEmpty

/-- The accepted traces. -/
def positive (s : Sample α) : List (Trace α) := s.traces.filter (·.outcome.isAccept)

/-- The rejected traces. -/
def negative (s : Sample α) : List (Trace α) := s.traces.filter (!·.outcome.isAccept)

/-- The length of the longest word, zero without traces. -/
def maxLength (s : Sample α) : Nat := (s.traces.map Trace.length).foldl max 0

/-- The first trace whose word the graph does not classify as the trace says. -/
def misclassified [Ord α] [TransOrd α] (s : Sample α) (g : Graph α) : Option (Trace α) :=
  s.traces.find? fun trace => g.accepts trace.word != trace.outcome.isAccept

theorem misclassified_eq_none [Ord α] [TransOrd α] {s : Sample α} {g : Graph α} :
    s.misclassified g = none ↔
      ∀ trace ∈ s.traces, g.accepts trace.word = trace.outcome.isAccept := by
  simp [misclassified]

/-- A sample is written as its traces in braces. -/
instance [Render α] : Render (Sample α) where
  render s := render s.traces

/-- Whether a line, without the blanks around it, holds a trace. -/
def isTraceLine : List Char → Bool
  | [] => false
  | c :: _ => c != '#'

/-- The lines that hold traces, without the blanks around them. -/
def traceLines (cs : List Char) : List (List Char) :=
  ((Text.lines cs).map Text.trim).filter isTraceLine

/-- Reads a sample. The first line that is not a trace ends the reading. -/
def ofText (text : String) : Except LineError (Sample String) := do
  return ⟨← (traceLines text.toList).mapM Trace.ofTrimmed⟩

end Sample

end BlueFringe
