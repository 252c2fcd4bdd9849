import BlueFringe.Text.Render
import Std.Data.ExtTreeMap

/-!
# States

The identity of a state, its colour in the search, and the record that a graph keeps for it: whether
it accepts, its colour, its depth and the row of its transitions.
-/

namespace BlueFringe

open Std

/-- The identity of a state. Identities are ordered by their index and never used twice. -/
structure StateId where
  index : Nat
deriving DecidableEq

namespace StateId

instance : Ord StateId := ⟨compareOn index⟩

instance : TransOrd StateId := inferInstanceAs (TransCmp (compareOn index))

instance : LawfulEqOrd StateId where
  eq_of_compare {p q} h := by
    have same : p.index = q.index := Nat.compare_eq_eq.mp h
    cases p; cases q; simp_all

theorem compare_eq_lt {p q : StateId} : compare p q = .lt ↔ p.index < q.index :=
  Nat.compare_eq_lt

instance : Render StateId where
  render q := s!"q{q.index}"

end StateId

/-- The part that a state plays in the search. -/
inductive Colour where
  /-- Not looked at yet. -/
  | uncoloured
  /-- One transition beyond the confirmed states. -/
  | blue
  /-- Confirmed to differ from all other red states. -/
  | red
deriving DecidableEq

namespace Colour

/-- Colours ascend as the search moves on. -/
def rank : Colour → Nat
  | uncoloured => 0
  | blue => 1
  | red => 2

/-- The name of the colour in listings. -/
def name : Colour → String
  | uncoloured => "Uncoloured"
  | blue => "Blue"
  | red => "Red"

instance : Ord Colour := ⟨compareOn rank⟩

instance : TransOrd Colour := inferInstanceAs (TransCmp (compareOn rank))

end Colour

/-- The transitions of one state: at most one target for each label. -/
abbrev Row (α : Type) [Ord α] := ExtTreeMap α StateId compare

/-- What a graph knows of one state. -/
structure State (α : Type) [Ord α] where
  accepting : Bool
  colour : Colour := .uncoloured
  /-- The length of a shortest word that leads to the state. -/
  depth : Nat := 0
  edges : Row α := ∅

namespace State

variable {α : Type} [Ord α]

@[ext] theorem ext {s t : State α} (accepting : s.accepting = t.accepting)
    (colour : s.colour = t.colour) (depth : s.depth = t.depth) (edges : s.edges = t.edges) :
    s = t := by
  cases s; cases t; simp_all

instance [TransOrd α] [LawfulEqOrd α] : DecidableEq (State α) := fun s t =>
  decidable_of_iff
    (s.accepting = t.accepting ∧ s.colour = t.colour ∧ s.depth = t.depth ∧ s.edges = t.edges)
    ⟨fun ⟨ha, hc, hd, he⟩ => ext ha hc hd he, fun h => h ▸ ⟨rfl, rfl, rfl, rfl⟩⟩

end State

end BlueFringe
