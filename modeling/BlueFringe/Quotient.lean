import BlueFringe.Folding

/-!
# Merging

A merge gives each state that an identification replaces to its representative. Transitions into
the blue state lead to the red one, transitions that a representative lacks are moved over to it
together with what hangs below them, and what was only reachable through the blue state goes away.
The graph is a value, so the one before the merge remains.
-/

namespace BlueFringe

open Std

namespace Graph

variable {α : Type} [Ord α] [TransOrd α]

/-- What is wrong with merging a pair by an identification, if anything. -/
def mergeViolation? (g : Graph α) (pair : StatePair) (m : Identification) : Option Violation :=
  if m.pair ≠ pair then some (.mismatched m.pair pair)
  else if m.rejected then some (.rejected pair)
  else if pair.blue = pair.red then some (.selfMerge pair.blue)
  else match (m.entries.flatMap fun entry => [entry.1, entry.2]).find? fun q => q ∉ g with
    | some unknown => some (.unknownState unknown)
    | none =>
      if pair.red ∈ g.reachable pair.blue || !g.isTreeFrom pair.blue then
        some (.notATree pair.blue)
      else none

/-- A graph to which transitions were moved, and the states below those transitions. -/
structure Grafted (α : Type) [Ord α] where
  graph : Graph α
  moved : List StateId

/-- Moves a transition to a state that has none on its label. -/
def Grafted.take (s : Grafted α) (r : StateId) (edge : α × StateId) : Grafted α :=
  match s.graph.transition r edge.1 with
  | some _ => s
  | none => ⟨s.graph.setTarget r edge.1 edge.2, edge.2 :: s.moved⟩

/-- Moves the transitions of all replaced states to their representatives, in the order of the
entries. The transitions are those of `g`, the graph that takes them is `start`. -/
def graft (g : Graph α) (m : Identification) (start : Graph α) : Grafted α :=
  m.entries.foldl (fun s entry => (g.edges entry.1).foldl (fun s edge => s.take entry.2 edge) s)
    ⟨start, []⟩

/-- The states that a merge takes away: those below the blue state that were not moved, nor hang
below a state that was. -/
def cut (g : Graph α) (blue : StateId) (moved : List StateId) : List StateId :=
  if blue ∈ moved then []
  else Search.reached (fun q => (g.edges q).filter fun edge => edge.2 ∉ moved)
    (g.transitionCount + 1) blue

/-- Merges the blue state of a pair into its red state. -/
def merge (g : Graph α) (pair : StatePair) (m : Identification) : Except Violation (Graph α) :=
  match g.mergeViolation? pair m with
  | some violation => .error violation
  | none =>
    let grafted := g.graft m (g.redirect pair.blue pair.red)
    let merged := grafted.graph.eraseAll (g.cut pair.blue grafted.moved)
    if g.initial ∈ merged then .ok merged.recomputeDepths else .error (.initialRemoved g.initial)

end Graph

end BlueFringe
