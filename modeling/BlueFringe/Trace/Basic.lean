import BlueFringe.Text.Render
import BlueFringe.Word

/-!
# Traces

A trace is a word with an outcome. Languages are closed under prefixes: an accepted word has only
accepted prefixes, and of a rejected word all proper prefixes are accepted.
-/

namespace BlueFringe

open Std

/-- What a trace says about its word. -/
inductive Outcome where
  /-- The word and all of its prefixes are accepted. -/
  | accept
  /-- All proper prefixes of the word are accepted, the word itself is rejected. -/
  | reject
deriving DecidableEq

namespace Outcome

/-- The outcome of a word that is accepted or not. -/
def ofBool (accepted : Bool) : Outcome :=
  if accepted then accept else reject

/-- Whether the word itself is accepted. -/
def isAccept : Outcome → Bool
  | accept => true
  | reject => false

@[simp] theorem isAccept_ofBool (accepted : Bool) : (ofBool accepted).isAccept = accepted := by
  cases accepted <;> rfl

@[simp] theorem ofBool_isAccept (outcome : Outcome) : ofBool outcome.isAccept = outcome := by
  cases outcome <;> rfl

/-- The name of the outcome in messages. -/
def name : Outcome → String
  | accept => "Accept"
  | reject => "Reject"

/-- Acceptance comes first. -/
def rank : Outcome → Nat
  | accept => 0
  | reject => 1

instance : Ord Outcome := ⟨compareOn rank⟩

instance : TransOrd Outcome := inferInstanceAs (TransCmp (compareOn rank))

instance : LawfulEqOrd Outcome where
  eq_of_compare {a b} h :=
    match a, b, h with
    | accept, accept, _ | reject, reject, _ => rfl

instance : Render Outcome where
  render outcome := render outcome.isAccept

end Outcome

/-- A word together with its outcome. -/
structure Trace (α : Type) where
  word : Word α
  outcome : Outcome
deriving DecidableEq

namespace Trace

variable {α : Type}

/-- The trace of an accepted word. -/
def accepted (word : Word α) : Trace α := ⟨word, .accept⟩

/-- The trace of a rejected word. -/
def rejected (word : Word α) : Trace α := ⟨word, .reject⟩

/-- The number of labels. -/
def length (trace : Trace α) : Nat := trace.word.length

/-- Whether the trace has no labels. -/
def isEmpty (trace : Trace α) : Bool := trace.word.isEmpty

/-- Traces are ordered by word; of two with the same word the accepted one comes first. -/
instance [Ord α] : Ord (Trace α) := ⟨compareLex (compareOn word) (compareOn outcome)⟩

instance [Ord α] [TransOrd α] : TransOrd (Trace α) :=
  inferInstanceAs (TransCmp (compareLex (compareOn word) (compareOn outcome)))

/-- A trace is written as its sign followed by its word. -/
instance [Render α] : Render (Trace α) where
  render trace := render trace.outcome ++ render trace.word

end Trace

end BlueFringe
