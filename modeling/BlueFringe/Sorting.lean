import Std.Data.ExtTreeSet

/-!
# Sorting by a comparison

Two ways to bring a list into the order of a comparison function. `sortBy` keeps every entry and
leaves entries that compare equal in the order in which they came; `distinctBy` keeps one entry of
each kind. Both keep exactly the members of the list.
-/

namespace BlueFringe

open Std

variable {β : Type}

/-- Puts an entry before the first one that does not come earlier. -/
def insertBy (order : β → β → Ordering) (x : β) : List β → List β
  | [] => [x]
  | y :: rest => if (order x y).isLE then x :: y :: rest else y :: insertBy order x rest

/-- The stable sort by insertion. -/
def sortBy (order : β → β → Ordering) (xs : List β) : List β :=
  xs.foldr (insertBy order) []

@[simp] theorem sortBy_cons (order : β → β → Ordering) (x : β) (xs : List β) :
    sortBy order (x :: xs) = insertBy order x (sortBy order xs) := rfl

theorem insertBy_perm (order : β → β → Ordering) (x : β) (xs : List β) :
    (insertBy order x xs).Perm (x :: xs) := by
  induction xs with
  | nil => exact List.Perm.refl _
  | cons y rest ih =>
    simp only [insertBy]
    split
    · exact List.Perm.refl _
    · exact (ih.cons y).trans (List.Perm.swap x y rest)

/-- Sorting only rearranges. -/
theorem sortBy_perm (order : β → β → Ordering) (xs : List β) : (sortBy order xs).Perm xs := by
  induction xs with
  | nil => exact List.Perm.refl _
  | cons x rest ih =>
    rw [sortBy_cons]
    exact (insertBy_perm order x _).trans (ih.cons x)

@[simp] theorem mem_sortBy {order : β → β → Ordering} {x : β} {xs : List β} :
    x ∈ sortBy order xs ↔ x ∈ xs :=
  (sortBy_perm order xs).mem_iff

theorem insertBy_pairwise (order : β → β → Ordering) [TransCmp order] {x : β} {xs : List β}
    (sorted : xs.Pairwise fun y z => (order y z).isLE) :
    (insertBy order x xs).Pairwise fun y z => (order y z).isLE := by
  induction xs with
  | nil => simp [insertBy]
  | cons y rest ih =>
    obtain ⟨below, tail⟩ := List.pairwise_cons.mp sorted
    simp only [insertBy]
    split
    · rename_i first
      refine List.pairwise_cons.mpr ⟨fun z hz => ?_, sorted⟩
      rcases List.mem_cons.mp hz with rfl | later
      · exact first
      · exact TransCmp.isLE_trans first (below z later)
    · rename_i first
      refine List.pairwise_cons.mpr ⟨fun z hz => ?_, ih tail⟩
      rcases List.mem_cons.mp ((insertBy_perm order x rest).mem_iff.mp hz) with rfl | later
      · have swapped : order y z = (order z y).swap := OrientedCmp.eq_swap
        cases h : order z y <;> simp_all
      · exact below z later

/-- A sorted list never steps down. -/
theorem sortBy_pairwise (order : β → β → Ordering) [TransCmp order] (xs : List β) :
    (sortBy order xs).Pairwise fun y z => (order y z).isLE := by
  induction xs with
  | nil => exact List.Pairwise.nil
  | cons x rest ih => exact insertBy_pairwise order ih

/-- The members of a list as a set. -/
def collect (order : β → β → Ordering) [TransCmp order] (xs : List β) : ExtTreeSet β order :=
  xs.foldr (fun x members => members.insert x) ∅

theorem mem_collect {order : β → β → Ordering} [TransCmp order] [LawfulEqCmp order]
    {x : β} {xs : List β} : x ∈ collect order xs ↔ x ∈ xs := by
  induction xs with
  | nil => simp [collect]
  | cons y rest ih =>
    change x ∈ (collect order rest).insert y ↔ _
    rw [ExtTreeSet.mem_insert, LawfulEqCmp.compare_eq_iff_eq, ih, List.mem_cons, eq_comm]

/-- The entries in ascending order, one of each kind. -/
def distinctBy (order : β → β → Ordering) [TransCmp order] (xs : List β) : List β :=
  (collect order xs).toList

theorem mem_distinctBy {order : β → β → Ordering} [TransCmp order] [LawfulEqCmp order]
    {x : β} {xs : List β} : x ∈ distinctBy order xs ↔ x ∈ xs := by
  rw [distinctBy, ExtTreeSet.mem_toList, mem_collect]

theorem size_collect_le (order : β → β → Ordering) [TransCmp order] (xs : List β) :
    (collect order xs).size ≤ xs.length := by
  induction xs with
  | nil => simp [collect]
  | cons x rest ih => exact Nat.le_trans ExtTreeSet.size_insert_le (Nat.succ_le_succ ih)

theorem length_distinctBy_le (order : β → β → Ordering) [TransCmp order] (xs : List β) :
    (distinctBy order xs).length ≤ xs.length := by
  rw [distinctBy, ExtTreeSet.length_toList]
  exact size_collect_le order xs

/-- Distinct entries strictly ascend. -/
theorem distinctBy_pairwise (order : β → β → Ordering) [TransCmp order] (xs : List β) :
    (distinctBy order xs).Pairwise fun y z => order y z = .lt :=
  ExtTreeSet.ordered_toList

end BlueFringe
