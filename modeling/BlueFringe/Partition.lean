import BlueFringe.Sorting

/-!
# Partitions

A partition is a list of classes. Within a class the elements are ordered; the classes stand in the
order in which they were made.
-/

namespace BlueFringe

open Std

/-- A list of classes. -/
structure Partition (β : Type) [Ord β] where
  classes : List (ExtTreeSet β)

namespace Partition

variable {β : Type} [Ord β] [TransOrd β]

/-- The number of classes. -/
def size (p : Partition β) : Nat := p.classes.length

/-- The classes with the listed elements; a list without elements makes no class. -/
def ofLists (lists : List (List β)) : Partition β :=
  ⟨(lists.map (collect compare)).filter fun members => !members.isEmpty⟩

/-- Groups elements by a key, which depends on the element alone and not on those before it. Classes
come in the order in which their keys are met. -/
def groupBy {κ : Type} [DecidableEq κ] (key : β → κ) (elements : List β) : Partition β :=
  ⟨(elements.map key).eraseDups.map fun k =>
    collect compare (elements.filter fun x => key x = k)⟩

/-- The index of the first class that holds the element. -/
def classOf (p : Partition β) (x : β) : Option Nat :=
  p.classes.findIdx? fun members => x ∈ members

/-- Whether there are as many classes in `q` as in `p` and each class of `p` is one of `q`. -/
def sameAs [LawfulEqOrd β] (p q : Partition β) : Bool :=
  p.size == q.size && p.classes.all fun members => q.classes.any fun other => members = other

theorem mem_classes_groupBy {κ : Type} [DecidableEq κ] {key : β → κ} {elements : List β}
    {members : ExtTreeSet β compare} :
    members ∈ (groupBy key elements).classes ↔
      ∃ x ∈ elements, members = collect compare (elements.filter fun y => key y = key x) := by
  simp only [groupBy, List.mem_map, List.mem_eraseDups]
  constructor
  · rintro ⟨_, ⟨x, hx, rfl⟩, rfl⟩
    exact ⟨x, hx, rfl⟩
  · rintro ⟨x, hx, rfl⟩
    exact ⟨key x, ⟨x, hx, rfl⟩, rfl⟩

end Partition

end BlueFringe
