import BlueFringe.Pair
import BlueFringe.Partition

/-!
# Identifications

An identification says for each state that a merge takes away which state takes its place. The first
entry is always the pair that was to be merged; the others stand in the order in which they were
found.
-/

namespace BlueFringe

/-- Why a pair cannot be folded or merged. -/
inductive Violation where
  /-- There is no such state. -/
  | unknownState (state : StateId)
  /-- A state cannot be merged with itself. -/
  | selfMerge (state : StateId)
  /-- The identification belongs to a pair that was found to be incompatible. -/
  | rejected (pair : StatePair)
  /-- The identification belongs to another pair. -/
  | mismatched (computed requested : StatePair)
  /-- The states below the blue state are no tree that only hangs off it, or the red state is one of
  them. -/
  | notATree (blue : StateId)
  /-- The merge would take away the initial state. -/
  | initialRemoved (initial : StateId)
deriving DecidableEq

/-- The text of the violation. -/
def Violation.message : Violation → String
  | .unknownState q => s!"state {render q} does not exist"
  | .selfMerge q => s!"cannot merge {render q} with itself"
  | .rejected pair => s!"the equivalence map for {render pair} was rejected by the scorer"
  | .mismatched computed requested =>
    s!"the equivalence map was computed for {render computed} but {render requested} was requested"
  | .notATree q => s!"the states reachable from {render q} do not form a tree"
  | .initialRemoved q => s!"the merge would remove the initial state {render q}"

/-- Which states are replaced by which. -/
structure Identification where
  pair : StatePair
  /-- Each state that is replaced with the state that takes its place, in the order found. -/
  entries : List (StateId × StateId)
  /-- Whether the pair was found to be incompatible, so that it must not be merged. -/
  rejected : Bool
deriving DecidableEq

namespace Identification

/-- The number of states that are replaced. -/
def size (m : Identification) : Nat := m.entries.length

/-- The state that takes the place of a state. -/
def representative? (m : Identification) (q : StateId) : Option StateId := m.entries.lookup q

/-- The state that stands for a state after the merge. -/
def image (m : Identification) (q : StateId) : StateId := (m.representative? q).getD q

/-- Each representative together with the states that it takes the place of. -/
def classes (m : Identification) : Partition StateId :=
  .groupBy m.image (m.entries.map (·.2) ++ m.entries.map (·.1))

end Identification

end BlueFringe
