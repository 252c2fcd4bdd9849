import BlueFringe.Graph.Reach

/-!
# Blueprints

A blueprint lists states, flags and transitions with literal numbers. The graph made from it has
just these numbers as identities.
-/

namespace BlueFringe

open Std

/-- What a graph is to be made of. -/
structure Blueprint (α : Type) where
  /-- The transitions in the order in which they are added. -/
  edges : List (Nat × α × Nat) := []
  /-- The flags that are given, at most one for a state. -/
  flags : List (Nat × Bool) := []
  /-- All states that are named, also repeatedly. -/
  named : List Nat := []
  /-- The flag of the states for which none is given. -/
  default : Bool := true

namespace Blueprint

variable {α : Type}

/-- The blueprint that names nothing. States accept unless told otherwise. -/
def empty : Blueprint α := {}

/-- Sets the flag of the states for which none is given. -/
def withDefault (b : Blueprint α) (accepting : Bool) : Blueprint α :=
  { b with default := accepting }

/-- Names a state and gives its flag, which replaces one that was given before. -/
def withFlag (b : Blueprint α) (q : Nat) (accepting : Bool) : Blueprint α :=
  { b with
    flags := (b.flags.filter fun flag => flag.1 != q) ++ [(q, accepting)]
    named := b.named ++ [q] }

/-- Gives the flags of the states from zero on. -/
def withFlags (b : Blueprint α) (flags : List Bool) : Blueprint α :=
  flags.zipIdx.foldl (fun b flag => b.withFlag flag.2 flag.1) b

/-- Names the ends of transitions and adds the transitions. -/
def withEdges (b : Blueprint α) (edges : List (Nat × α × Nat)) : Blueprint α :=
  { b with
    edges := b.edges ++ edges
    named := b.named ++ edges.flatMap fun edge => [edge.1, edge.2.2] }

/-- The flag of a state. -/
def flagOf (b : Blueprint α) (q : Nat) : Bool :=
  (b.flags.lookup q).getD b.default

variable [Ord α] [TransOrd α]

/-- The graph of the states alone. -/
def stateTable (b : Blueprint α) (initial : Nat) : Graph α :=
  (distinctBy compare (initial :: b.named)).foldl
    (fun g q => g.insertState ⟨q⟩ { accepting := b.flagOf q }) (Graph.empty ⟨initial⟩)

/-- The graph with the given initial state. It fails at the first transition that differs from an
earlier one for the same state and label. -/
def toGraph (b : Blueprint α) (initial : Nat) : Except (GraphError α) (Graph α) := do
  let g ← b.edges.foldlM (fun g edge => g.addTransition ⟨edge.1⟩ edge.2.1 ⟨edge.2.2⟩)
    (b.stateTable initial)
  return g.recomputeDepths

end Blueprint

end BlueFringe
