import BlueFringe.Graph.Acceptance
import BlueFringe.Search

/-!
# Differences between languages

Two states are compared by following words from both at once. A rejecting state is treated like a
missing transition, as nothing behind it is accepted. The first word on which just one side is left
is the least word, in shortlex order, that only one of the two states accepts.
-/

namespace BlueFringe

open Std

/-- Where a word leads on two sides; a side that does not accept it has nothing. -/
structure Joint where
  left : Option StateId
  right : Option StateId
deriving DecidableEq

namespace Joint

instance : Ord Joint := ⟨compareLex (compareOn left) (compareOn right)⟩

instance : TransOrd Joint :=
  inferInstanceAs (TransCmp (compareLex (compareOn left) (compareOn right)))

instance : LawfulEqOrd Joint where
  eq_of_compare {s t} h := by
    have both : compareOn left s t = .eq ∧ compareOn right s t = .eq := compareLex_eq_eq.mp h
    cases s; cases t
    simp_all [compareOn]

/-- Whether just one side is left. -/
def isApart (s : Joint) : Bool := s.left.isSome != s.right.isSome

end Joint

namespace Graph

variable {α : Type} [Ord α]

/-- A state if it exists and accepts. -/
def live (g : Graph α) (q : Option StateId) : Option StateId :=
  q.filter fun q => g.accepting? q = some true

theorem live_eq_some {g : Graph α} {s : Option StateId} {q : StateId} :
    g.live s = some q ↔ s = some q ∧ g.accepting? q = some true := by
  simp [live, Option.filter_eq_some_iff]

variable [TransOrd α]

/-- Where a label leads on both sides, as long as both are left. -/
def jointSteps (g h : Graph α) (s : Joint) : List (α × Joint) :=
  match s.left, s.right with
  | some p, some q =>
    (distinctBy compare (g.alphabet ++ h.alphabet)).map fun a =>
      (a, ⟨g.live (g.transition p a), h.live (h.transition q a)⟩)
  | _, _ => []

/-- The least word that is accepted from just one of two states, the first in `g`, the second in
`h`. -/
def separate (g : Graph α) (p : StateId) (h : Graph α) (q : StateId) : Option (Word α) :=
  ((Search.breadthFirst (jointSteps g h) ((g.size + 1) * (h.size + 1))
    ⟨g.live (some p), h.live (some q)⟩).find? fun entry => entry.2.isApart).map (·.1)

/-- The least word that just one of two graphs accepts. -/
def difference (g h : Graph α) : Option (Word α) := g.separate g.initial h h.initial

end Graph

end BlueFringe
