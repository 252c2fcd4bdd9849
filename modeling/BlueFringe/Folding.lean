import BlueFringe.Graph.Reach
import BlueFringe.Identification

/-!
# Folding a tree into a graph

Folding identifies a blue state with a red one and then, step by step, whatever must be identified
so that the result is deterministic. The states below the blue one are walked breadth first, each
along with the state that it is identified with. Where both have a transition on a label, the
targets are identified in turn; where only the blue side has one, the red side inherits it, and
later steps follow it like a transition of its own. The walk stops at the first two states of
which one accepts and the other rejects.
-/

namespace BlueFringe

open Std

/-- How far a folding has come. -/
structure Folding (α : Type) [Ord α] where
  /-- The identified states whose transitions were followed, in the order found. -/
  settled : Array (StateId × StateId)
  /-- The identified states whose transitions are still to be followed. -/
  pending : List (StateId × StateId)
  /-- The states that are identified with another one. -/
  found : ExtTreeSet StateId compare
  /-- The transitions that states of the red side have inherited. -/
  inherited : ExtTreeMap StateId (Row α) compare
  /-- The first two identified states that differ in acceptance. -/
  clash : Option (StateId × StateId)

namespace Folding

variable {α : Type} [Ord α]

/-- The folding that has identified the pair and followed nothing. -/
def start (pair : StatePair) : Folding α :=
  ⟨#[], [(pair.blue, pair.red)], collect compare [pair.blue], ∅, none⟩

/-- All identified states in the order found. -/
def entries (f : Folding α) : List (StateId × StateId) := f.settled.toList ++ f.pending

/-- The number of states that were identified after the pair itself. -/
def matched (f : Folding α) : Nat := f.entries.length - 1

/-- The number of identified states that reject, among those that agree. -/
def rejecting (g : Graph α) (f : Folding α) : Nat :=
  f.settled.countP fun entry => g.accepting? entry.1 = some false

/-- Identifies a state, unless it is identified already. -/
def identify (f : Folding α) (q r : StateId) : Folding α :=
  if q ∈ f.found then f
  else { f with pending := f.pending ++ [(q, r)], found := f.found.insert q }

variable [TransOrd α]

/-- The target of a transition that a state has inherited. -/
def inheritedTarget (f : Folding α) (r : StateId) (a : α) : Option StateId :=
  f.inherited[r]?.bind fun row => row[a]?

/-- Lets a state inherit a transition. -/
def inherit (f : Folding α) (r : StateId) (a : α) (target : StateId) : Folding α :=
  { f with inherited := f.inherited.alter r fun row => some ((row.getD ∅).insert a target) }

/-- Whether a transition enters the states below the blue one from outside, other than at the blue
state itself. -/
def entersBelow (blue : StateId) (below : ExtTreeSet StateId compare) (r : StateId) :
    Option StateId → Bool
  | none => false
  | some target => target ≠ blue && target ∈ below && r ∉ below

/-- Follows one transition of a state that is identified with `r`. -/
def follow (g : Graph α) (pair : StatePair) (below : ExtTreeSet StateId compare) (r : StateId)
    (f : Folding α) (edge : α × StateId) : Except Violation (Folding α) :=
  let direct := g.transition r edge.1
  if entersBelow pair.blue below r direct then .error (.notATree pair.blue)
  else match direct.or (f.inheritedTarget r edge.1) with
    | some target => .ok (f.identify edge.2 (if target = pair.blue then pair.red else target))
    | none => .ok (f.inherit r edge.1 edge.2)

/-- Works off the pending entries, at most as many as the bound allows. -/
def settle (g : Graph α) (pair : StatePair) (below : ExtTreeSet StateId compare) :
    Nat → Folding α → Except Violation (Folding α)
  | 0, f => .ok f
  | bound + 1, f =>
    match f.pending with
    | [] => .ok f
    | (q, r) :: rest =>
      if g.accepting? q ≠ g.accepting? r then .ok { f with clash := some (q, r) }
      else do
        let f ← (g.edges q).foldlM (follow g pair below r)
          { f with settled := f.settled.push (q, r), pending := rest }
        settle g pair below bound f

/-- Folds the states below the blue state of a pair into the graph at its red state. Every state
below the blue one is identified at most once, so no more steps are needed than there are such
states. -/
def ofPair (g : Graph α) (pair : StatePair) : Except Violation (Folding α) :=
  if pair.blue ∉ g then .error (.unknownState pair.blue)
  else if pair.red ∉ g then .error (.unknownState pair.red)
  else if pair.blue = pair.red then .error (.selfMerge pair.blue)
  else
    let below := collect compare (g.reachable pair.blue)
    if pair.red ∈ below then .error (.notATree pair.blue)
    else settle g pair below below.size (start pair)

@[simp] theorem entries_inherit {f : Folding α} {r target : StateId} {a : α} :
    (f.inherit r a target).entries = f.entries := rfl

theorem exists_entries_follow {g : Graph α} {pair : StatePair}
    {below : ExtTreeSet StateId compare} {r : StateId} {f f' : Folding α} {edge : α × StateId}
    (h : follow g pair below r f edge = .ok f') :
    f'.settled = f.settled ∧ ∃ found, f'.entries = f.entries ++ found := by
  simp only [follow] at h
  split at h
  · cases h
  · split at h <;> cases h
    · simp only [identify]
      split
      · exact ⟨rfl, [], by simp⟩
      · exact ⟨rfl, _, by simp [entries]; rfl⟩
    · exact ⟨rfl, [], by simp⟩

end Folding

end BlueFringe
