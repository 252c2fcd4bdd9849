import BlueFringe.Graph.State

/-!
# Pairs and scores

A candidate merge names the blue state that disappears and the red state that takes its place. Its
score says whether the two may be merged and how much speaks for it.
-/

namespace BlueFringe

open Std

/-- A candidate merge. -/
structure StatePair where
  /-- The state that disappears. -/
  blue : StateId
  /-- The state that takes its place. -/
  red : StateId
deriving DecidableEq

namespace StatePair

/-- Pairs are ordered by their blue state, then by their red state. -/
instance : Ord StatePair := ⟨compareLex (compareOn blue) (compareOn red)⟩

instance : TransOrd StatePair :=
  inferInstanceAs (TransCmp (compareLex (compareOn blue) (compareOn red)))

instance : LawfulEqOrd StatePair where
  eq_of_compare {p q} h := by
    have both : compareOn blue p q = .eq ∧ compareOn red p q = .eq := compareLex_eq_eq.mp h
    cases p; cases q
    simp_all [compareOn]

instance : Render StatePair where
  render pair := "(" ++ render pair.blue ++ " ~> " ++ render pair.red ++ ")"

end StatePair

/-- The evidence for a candidate merge. -/
inductive Score where
  /-- The pair must not be merged. -/
  | incompatible
  /-- The pair may be merged. The secondary number decides between equal primary ones. -/
  | compatible (primary : Nat) (secondary : Int)
deriving DecidableEq

namespace Score

/-- The number that counts first; an incompatible pair lies below all others. -/
def primary : Score → Int
  | incompatible => -1
  | compatible first _ => first

/-- The number that decides between equal primary numbers. -/
def secondary : Score → Int
  | incompatible => 0
  | compatible _ second => second

/-- Whether the pair may be merged. -/
def isCompatible : Score → Bool
  | incompatible => false
  | compatible _ _ => true

/-- Scores are ordered by their primary number, then by their secondary number. -/
instance : Ord Score := ⟨compareLex (compareOn primary) (compareOn secondary)⟩

instance : TransOrd Score :=
  inferInstanceAs (TransCmp (compareLex (compareOn primary) (compareOn secondary)))

instance : Render Score where
  render
    | incompatible => "incompatible"
    | compatible first second => s!"{first}/{second}"

end Score

end BlueFringe
