import BlueFringe.Graph.Lemmas
import BlueFringe.Search

/-!
# Reachability

The states that can be reached from an origin, each with its access word: the least word in shortlex
order that leads to it. From them follow the tests for trim graphs and for trees, and the depths.
-/

namespace BlueFringe.Graph

open Std

variable {α : Type} [Ord α] [TransOrd α]

/-- The states that can be reached from an origin, ordered by the least word that leads to each. No
more of them exist than transitions, apart from the origin. -/
def representatives (g : Graph α) (origin : StateId) : List (Word α × StateId) :=
  Search.breadthFirst g.edges (g.transitionCount + 1) origin

/-- The states that can be reached from an origin, itself among them. -/
def reachable (g : Graph α) (origin : StateId) : List StateId :=
  Search.reached g.edges (g.transitionCount + 1) origin

/-- The least word that leads from the initial state to a state. -/
def accessWord (g : Graph α) (q : StateId) : Option (Word α) :=
  ((g.representatives g.initial).find? fun entry => entry.2 = q).map (·.1)

/-- The access words of all reachable states, ascending by state. -/
def accessWords (g : Graph α) : List (StateId × Word α) :=
  sortBy (compareOn (·.1)) ((g.representatives g.initial).map fun entry => (entry.2, entry.1))

/-- Whether every state can be reached from the initial state. -/
def isTrim (g : Graph α) : Bool :=
  (g.reachable g.initial).length == g.size

/-- Whether the states below a root form a tree that hangs off it: the search from the root meets no
state a second time, and no transition from outside enters anywhere but at the root. -/
def isTreeFrom (g : Graph α) (root : StateId) : Bool :=
  match Search.tree g.edges (g.transitionCount + 1) root with
  | none => false
  | some below =>
    (g.stateIds.filter fun q => q ∉ below).all fun q =>
      (g.targets q).all fun p => p = root || p ∉ below

/-- Sets the depth of each state of a list. -/
def setDepths (entries : List (StateId × Nat)) (g : Graph α) : Graph α :=
  entries.foldr (fun entry g => g.setDepth entry.1 entry.2) g

/-- Sets the depth of every reachable state to the number of steps of a search from the initial
state. States that cannot be reached keep theirs. -/
def recomputeDepths (g : Graph α) : Graph α :=
  setDepths (Search.levels g.edges (g.transitionCount + 1) g.initial) g

theorem map_snd_representatives (g : Graph α) (origin : StateId) :
    (g.representatives origin).map (·.2) = g.reachable origin :=
  Search.map_snd_breadthFirst ..

section Depths

variable {g : Graph α} {entries : List (StateId × Nat)} {q : StateId} {a : α}

omit [TransOrd α] in
theorem state?_setDepths : (setDepths entries g).state? q = (g.state? q).map fun s =>
    { s with depth := ((entries.find? fun entry => entry.1 = q).map (·.2)).getD s.depth } := by
  induction entries with
  | nil => simp [setDepths]
  | cons entry rest ih =>
    rw [setDepths, List.foldr_cons, ← setDepths, setDepth, state?_update]
    by_cases h : entry.1 = q
    · subst h
      simp [ih, Function.comp_def]
    · simp [ih, h]

omit [TransOrd α] in
theorem initial_setDepths : (setDepths entries g).initial = g.initial := by
  induction entries with
  | nil => rfl
  | cons entry rest ih => exact ih

theorem state?_recomputeDepths : g.recomputeDepths.state? q = (g.state? q).map fun s =>
    { s with depth := ((g.accessWord q).map List.length).getD s.depth } := by
  rw [recomputeDepths, state?_setDepths, Search.levels_eq, ← representatives, accessWord,
    List.find?_map, Option.map_map, Option.map_map]
  rfl

@[simp] theorem mem_recomputeDepths : q ∈ g.recomputeDepths ↔ q ∈ g := by
  simp [mem_iff_isSome, state?_recomputeDepths]

@[simp] theorem initial_recomputeDepths : g.recomputeDepths.initial = g.initial :=
  initial_setDepths

@[simp] theorem transition_recomputeDepths :
    g.recomputeDepths.transition q a = g.transition q a := by
  simp only [transition, row, state?_recomputeDepths, Option.map_map, Function.comp_def]

@[simp] theorem accepting?_recomputeDepths : g.recomputeDepths.accepting? q = g.accepting? q := by
  simp only [accepting?, state?_recomputeDepths, Option.map_map, Function.comp_def]

@[simp] theorem colour?_recomputeDepths : g.recomputeDepths.colour? q = g.colour? q := by
  simp only [colour?, state?_recomputeDepths, Option.map_map, Function.comp_def]

end Depths

end BlueFringe.Graph
