import BlueFringe.Word
import Std.Data.ExtTreeSet

/-!
# Breadth-first search

Visits everything that can be reached from an origin over labelled steps, nearest first and steps in
the order in which they are given. Each thing that is visited comes with its trail: the word that
led to it first, with the last label in front. The search is given a bound on the number of visits;
it must be no smaller than the number of things that can be reached.

Two more searches go the same way: one keeps the number of steps in place of the trail, the other
gives up at a step to something that was seen before, which the first one skips.
-/

namespace BlueFringe.Search

open Std

variable {α σ : Type} [Ord σ] [TransOrd σ]

/-- The targets of steps that were not seen before, each with its trail, and all that was seen. -/
def discover (trail : List α) :
    List (α × σ) → ExtTreeSet σ compare → List (List α × σ) × ExtTreeSet σ compare
  | [], seen => ([], seen)
  | (a, s) :: rest, seen =>
    if s ∈ seen then discover trail rest seen
    else
      let (found, seen) := discover trail rest (seen.insert s)
      ((a :: trail, s) :: found, seen)

/-- Works off a queue, at most as many entries as the bound allows. -/
def visit (next : σ → List (α × σ)) :
    Nat → ExtTreeSet σ compare → List (List α × σ) → List (List α × σ)
  | 0, _, _ => []
  | _ + 1, _, [] => []
  | bound + 1, seen, (trail, s) :: queue =>
    let (found, seen) := discover trail (next s) seen
    (trail, s) :: visit next bound seen (queue ++ found)

/-- All that can be reached from the origin, each with its trail. -/
def trails (next : σ → List (α × σ)) (bound : Nat) (origin : σ) : List (List α × σ) :=
  visit next bound ((∅ : ExtTreeSet σ compare).insert origin) [([], origin)]

/-- All that can be reached from the origin, each with the word that leads to it. -/
def breadthFirst (next : σ → List (α × σ)) (bound : Nat) (origin : σ) : List (Word α × σ) :=
  (trails next bound origin).map fun entry => (entry.1.reverse, entry.2)

/-- All that can be reached from the origin. -/
def reached (next : σ → List (α × σ)) (bound : Nat) (origin : σ) : List σ :=
  (trails next bound origin).map (·.2)

/-- Works off a queue as `visit` does, but keeps the number of steps only. -/
def visitLevels (next : σ → List (α × σ)) :
    Nat → ExtTreeSet σ compare → List (σ × Nat) → List (σ × Nat)
  | 0, _, _ => []
  | _ + 1, _, [] => []
  | bound + 1, seen, (s, depth) :: queue =>
    let (found, seen) := discover [] (next s) seen
    (s, depth) :: visitLevels next bound seen
      (queue ++ found.map fun entry => (entry.2, depth + 1))

/-- All that can be reached from the origin, each with the number of steps that led to it first. -/
def levels (next : σ → List (α × σ)) (bound : Nat) (origin : σ) : List (σ × Nat) :=
  visitLevels next bound ((∅ : ExtTreeSet σ compare).insert origin) [(origin, 0)]

/-- Marks the targets of steps as seen, unless one of them was seen before. -/
def mark : List (α × σ) → ExtTreeSet σ compare → Option (ExtTreeSet σ compare)
  | [], seen => some seen
  | (_, s) :: rest, seen => if s ∈ seen then none else mark rest (seen.insert s)

/-- Works off a queue in the order of `visit` and gives up at a step to something that was seen
before. Otherwise the result is all that was seen. -/
def visitTree (next : σ → List (α × σ)) :
    Nat → ExtTreeSet σ compare → List σ → Option (ExtTreeSet σ compare)
  | 0, seen, _ => some seen
  | _ + 1, seen, [] => some seen
  | bound + 1, seen, s :: queue =>
    (mark (next s) seen).bind fun seen =>
      visitTree next bound seen (queue ++ (next s).map (·.2))

/-- All that can be reached from the origin, if only one step leads to each thing and none leads
back to the origin. -/
def tree (next : σ → List (α × σ)) (bound : Nat) (origin : σ) : Option (ExtTreeSet σ compare) :=
  visitTree next bound ((∅ : ExtTreeSet σ compare).insert origin) [origin]

theorem map_snd_breadthFirst (next : σ → List (α × σ)) (bound : Nat) (origin : σ) :
    (breadthFirst next bound origin).map (·.2) = reached next bound origin := by
  simp [breadthFirst, reached]

theorem map_discover (trail : List α) (steps : List (α × σ)) (seen : ExtTreeSet σ compare) :
    (discover trail steps seen).2 = (discover [] steps seen).2 ∧
      (discover trail steps seen).1.map (fun entry => (entry.2, entry.1.length)) =
        (discover [] steps seen).1.map fun entry => (entry.2, trail.length + 1) := by
  induction steps generalizing seen with
  | nil => exact ⟨rfl, rfl⟩
  | cons step rest ih =>
    obtain ⟨a, s⟩ := step
    by_cases hs : s ∈ seen
    · simp only [discover, if_pos hs]
      exact ih seen
    · obtain ⟨same, found⟩ := ih (seen.insert s)
      simp only [discover, if_neg hs, List.map_cons, List.length_cons, found, same, and_self]

/-- Counting the steps gives the lengths of the trails. -/
theorem visitLevels_eq (next : σ → List (α × σ)) (bound : Nat) (seen : ExtTreeSet σ compare)
    (queue : List (List α × σ)) :
    visitLevels next bound seen (queue.map fun entry => (entry.2, entry.1.length)) =
      (visit next bound seen queue).map fun entry => (entry.2, entry.1.length) := by
  induction bound generalizing seen queue with
  | zero => rfl
  | succ bound ih =>
    cases queue with
    | nil => rfl
    | cons entry queue =>
      obtain ⟨trail, s⟩ := entry
      obtain ⟨same, found⟩ := map_discover trail (next s) seen
      simp only [List.map_cons, visitLevels, visit, ← ih, List.map_append, found, same]

theorem levels_eq (next : σ → List (α × σ)) (bound : Nat) (origin : σ) :
    levels next bound origin =
      (breadthFirst next bound origin).map fun entry => (entry.2, entry.1.length) := by
  rw [breadthFirst, List.map_map, levels]
  simpa [trails, Function.comp_def] using visitLevels_eq next bound
    ((∅ : ExtTreeSet σ compare).insert origin) [([], origin)]

end BlueFringe.Search
