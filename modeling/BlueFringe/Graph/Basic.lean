import BlueFringe.Graph.State
import BlueFringe.Word

/-!
# Graphs

A graph is a table of states, each with a row that holds at most one target for a label, an initial
state, and the index that the next new state gets. Identities of new states ascend and are never
used again, also not after a state was removed, so a state can be followed through all graphs that
descend from one another.

Every operation is described by what it does to three views: `state?` for the record of a state,
`transition` for the target of a label, and membership.
-/

namespace BlueFringe

open Std

/-- A deterministic graph with labelled transitions. -/
structure Graph (α : Type) [Ord α] where
  states : ExtTreeMap StateId (State α) compare
  initial : StateId
  /-- The index that the next new state gets. -/
  nextIndex : Nat

/-- Why a graph cannot be extended. -/
inductive GraphError (α : Type) where
  /-- The state has a transition on the label that leads somewhere else. -/
  | nondeterministic (state : StateId) (label : α) (existing target : StateId)
  /-- There is no such state. -/
  | unknownState (state : StateId)
deriving DecidableEq

/-- The text of the error. -/
def GraphError.message {α : Type} [Render α] : GraphError α → String
  | .nondeterministic state label existing target =>
    s!"{render state} already moves to {render existing} on {render label}, " ++
      s!"cannot add a transition to {render target}"
  | .unknownState state => s!"state {render state} does not exist"

namespace Graph

variable {α : Type} [Ord α]

/-! ### Views -/

instance : Membership StateId (Graph α) := ⟨fun g q => q ∈ g.states⟩

instance (g : Graph α) (q : StateId) : Decidable (q ∈ g) :=
  inferInstanceAs (Decidable (q ∈ g.states))

/-- The record of a state. -/
def state? (g : Graph α) (q : StateId) : Option (State α) := g.states[q]?

/-- The number of states. -/
def size (g : Graph α) : Nat := g.states.size

/-- The states in ascending order. -/
def stateIds (g : Graph α) : List StateId := g.states.keys

/-- Whether the state accepts. -/
def accepting? (g : Graph α) (q : StateId) : Option Bool := (g.state? q).map (·.accepting)

/-- The colour of the state. -/
def colour? (g : Graph α) (q : StateId) : Option Colour := (g.state? q).map (·.colour)

/-- The depth that is kept for the state. -/
def depth? (g : Graph α) (q : StateId) : Option Nat := (g.state? q).map (·.depth)

/-- The states of one colour in ascending order. -/
def coloured (g : Graph α) (colour : Colour) : List StateId :=
  g.stateIds.filter fun q => g.colour? q = some colour

/-- The transitions of a state; a state that does not exist has none. -/
def row (g : Graph α) (q : StateId) : Row α := ((g.state? q).map (·.edges)).getD ∅

variable [TransOrd α]

/-- The target of the transition of a state on a label. -/
def transition (g : Graph α) (q : StateId) (a : α) : Option StateId := (g.row q)[a]?

/-- The transitions of a state, ascending by label. -/
def edges (g : Graph α) (q : StateId) : List (α × StateId) := (g.row q).toList

/-- The targets of the transitions of a state. -/
def targets (g : Graph α) (q : StateId) : List StateId := (g.edges q).map (·.2)

/-- Whether no transition leaves the state. -/
def isLeaf (g : Graph α) (q : StateId) : Bool := (g.edges q).isEmpty

/-- The number of transitions. -/
def transitionCount (g : Graph α) : Nat :=
  g.states.foldl (fun count _ s => count + s.edges.size) 0

/-- The labels of all transitions in ascending order. -/
def alphabet (g : Graph α) : List α :=
  distinctBy compare (g.stateIds.flatMap fun q => (g.edges q).map (·.1))

instance [LawfulEqOrd α] : DecidableEq (Graph α) := fun g h =>
  decidable_of_iff (g.states = h.states ∧ g.initial = h.initial ∧ g.nextIndex = h.nextIndex)
    ⟨fun ⟨hs, hi, hn⟩ => by cases g; cases h; simp_all, fun e => e ▸ ⟨rfl, rfl, rfl⟩⟩

/-- Whether two graphs have the same initial state and the same states, with equal colours, depths
and transitions. The index for the next new state does not count. -/
def sameAs [LawfulEqOrd α] (g h : Graph α) : Bool :=
  g.initial = h.initial && g.states = h.states

/-! ### Operations -/

/-- The graph without states. -/
def empty (initial : StateId) : Graph α := ⟨∅, initial, 0⟩

/-- The identity that the next new state gets. -/
def fresh (g : Graph α) : StateId := ⟨g.nextIndex⟩

/-- Puts a state without transitions into the graph. -/
def insertState (g : Graph α) (q : StateId) (state : State α) : Graph α :=
  { g with states := g.states.insert q state, nextIndex := max g.nextIndex (q.index + 1) }

/-- Changes the record of a state; without such a state nothing changes. -/
def update (g : Graph α) (q : StateId) (change : State α → State α) : Graph α :=
  { g with states := g.states.modify q change }

/-- Changes the records of all states. -/
def mapStates (g : Graph α) (change : StateId → State α → State α) : Graph α :=
  { g with states := g.states.map change }

/-- Adds the state `fresh`, with depth zero and without transitions. -/
def addState (g : Graph α) (accepting : Bool) : Graph α := g.insertState g.fresh { accepting }

/-- The graph of one state. -/
def single (accepting : Bool) : Graph α := (empty ⟨0⟩).addState accepting

/-- Points the transition of a state on a label to a target, whatever it was before. -/
def setTarget (g : Graph α) (q : StateId) (a : α) (target : StateId) : Graph α :=
  g.update q fun s => { s with edges := s.edges.insert a target }

/-- Adds the state `fresh` below a parent that has no transition on the label. -/
def sprout (g : Graph α) (parent : StateId) (depth : Nat) (a : α) (accepting : Bool) : Graph α :=
  (g.insertState g.fresh { accepting, depth }).setTarget parent a g.fresh

/-- Adds the state `fresh`, reached from a parent on a label, one deeper than the parent. -/
def addChild (g : Graph α) (parent : StateId) (a : α) (accepting : Bool) :
    Except (GraphError α) (Graph α) :=
  match g.depth? parent with
  | none => .error (.unknownState parent)
  | some depth =>
    match g.transition parent a with
    | some existing => .error (.nondeterministic parent a existing g.fresh)
    | none => .ok (g.sprout parent (depth + 1) a accepting)

/-- Adds a transition. One that is there already is left alone. -/
def addTransition (g : Graph α) (q : StateId) (a : α) (target : StateId) :
    Except (GraphError α) (Graph α) :=
  if q ∉ g then .error (.unknownState q)
  else if target ∉ g then .error (.unknownState target)
  else match g.transition q a with
    | none => .ok (g.setTarget q a target)
    | some existing =>
      if existing = target then .ok g
      else .error (.nondeterministic q a existing target)

/-- Gives a state a colour. -/
def setColour (g : Graph α) (q : StateId) (colour : Colour) : Graph α :=
  g.update q fun s => { s with colour }

/-- Takes the colours off all states. -/
def clearColours (g : Graph α) : Graph α :=
  g.mapStates fun _ s => { s with colour := .uncoloured }

/-- Makes a state accept or reject. -/
def setAccepting (g : Graph α) (q : StateId) (accepting : Bool) : Graph α :=
  g.update q fun s => { s with accepting }

/-- Sets the depth of a state. -/
def setDepth (g : Graph α) (q : StateId) (depth : Nat) : Graph α :=
  g.update q fun s => { s with depth }

/-- Points every transition into one state to another. -/
def redirect (g : Graph α) (old new : StateId) : Graph α :=
  g.mapStates fun _ s =>
    { s with edges := s.edges.map fun _ target => if target = old then new else target }

/-- Takes states out, with the transitions that leave them. -/
def eraseAll (g : Graph α) (removed : List StateId) : Graph α :=
  { g with states := removed.foldl (fun states q => states.erase q) g.states }

end Graph

end BlueFringe
