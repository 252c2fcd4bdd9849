import BlueFringe.Partition
import Mathlib.Data.List.Duplicate
import Mathlib.Data.List.Perm.Subperm

/-!
# Equality of partitions

Partitions are compared from one side: there must be as many classes on the other side, and each
class must be one of those. That is an equivalence among lists without repetition, where it only
forgets the order. A list that has some class twice equals lists that are no rearrangement of it.
-/

namespace BlueFringe.Partition

open Std

theorem nodup_eraseDups {κ : Type} [DecidableEq κ] (keys : List κ) : keys.eraseDups.Nodup := by
  match keys with
  | [] => simp
  | k :: rest =>
      rw [List.eraseDups_cons, List.nodup_cons]
      have shorter := List.length_filter_le (fun k' => !k' == k) rest
      exact ⟨by simp, nodup_eraseDups (rest.filter fun k' => !k' == k)⟩
termination_by keys.length

variable {β : Type} [Ord β] [TransOrd β] [LawfulEqOrd β] {p q r : Partition β}

/-! ### Classes that are listed once -/

theorem nodup_classes_groupBy {κ : Type} [DecidableEq κ] (key : β → κ) (elements : List β) :
    (groupBy key elements).classes.Nodup := by
  refine (nodup_eraseDups (elements.map key)).map_on fun k hk k' _ same => ?_
  obtain ⟨x, hx, rfl⟩ := List.mem_map.mp (List.mem_eraseDups.mp hk)
  -- An element of a class tells the key of the class.
  have member : x ∈ collect compare (elements.filter fun y => key y = key x) := by
    simp [mem_collect, hx]
  rw [same, mem_collect, List.mem_filter] at member
  exact of_decide_eq_true member.2

theorem collect_eq_iff {xs ys : List β} :
    collect compare xs = collect compare ys ↔ ∀ x, x ∈ xs ↔ x ∈ ys := by
  constructor
  · intro same x
    have collected : x ∈ collect compare xs ↔ x ∈ xs := mem_collect
    rw [same, mem_collect] at collected
    exact collected.symm
  · intro same
    apply ExtTreeSet.ext_mem
    intro x
    rw [mem_collect, mem_collect, same]

theorem isEmpty_collect {xs : List β} : (collect compare xs).isEmpty = xs.isEmpty := by
  rw [Bool.eq_iff_iff, ExtTreeSet.isEmpty_iff, ExtTreeSet.eq_empty_iff_forall_not_mem,
    List.isEmpty_iff, List.eq_nil_iff_forall_not_mem]
  simp only [mem_collect]

/-- A list of collections makes each class once if no two of them have the same elements, those
without elements apart. -/
theorem nodup_classes_ofLists {lists : List (List β)} :
    (ofLists lists).classes.Nodup ↔
      lists.Pairwise fun xs ys => (∀ x, x ∈ xs ↔ x ∈ ys) → xs = [] := by
  unfold ofLists List.Nodup
  rw [List.pairwise_filter, List.pairwise_map]
  apply List.Pairwise.iff
  intro xs ys
  rw [ne_eq, collect_eq_iff, isEmpty_collect, isEmpty_collect]
  simp only [Bool.not_eq_true', List.isEmpty_eq_false_iff]
  constructor
  · intro apart same
    by_contra some
    have some' : ys ≠ [] := by
      rintro rfl
      exact some (List.eq_nil_iff_forall_not_mem.mpr fun x hx => by simpa using (same x).mp hx)
    exact apart some some' same
  · exact fun apart some _ same => some (apart same)

/-! ### The comparison -/

theorem sameAs_iff : p.sameAs q = true ↔ p.size = q.size ∧ p.classes ⊆ q.classes := by
  simp [sameAs, List.subset_def]

theorem sameAs_self (p : Partition β) : p.sameAs p = true :=
  sameAs_iff.mpr ⟨rfl, fun _ member => member⟩

theorem sameAs_trans (first : p.sameAs q = true) (second : q.sameAs r = true) :
    p.sameAs r = true := by
  rw [sameAs_iff] at first second ⊢
  exact ⟨first.1.trans second.1, fun _ member => second.2 (first.2 member)⟩

theorem sameAs_of_perm (perm : p.classes.Perm q.classes) : p.sameAs q = true :=
  sameAs_iff.mpr ⟨perm.length_eq, perm.subset⟩

theorem perm_of_sameAs (distinct : p.classes.Nodup) (same : p.sameAs q = true) :
    p.classes.Perm q.classes := by
  obtain ⟨size, contained⟩ := sameAs_iff.mp same
  have sub : p.classes.Subperm q.classes := distinct.subperm contained
  exact sub.perm_of_length_le (Nat.le_of_eq size.symm)

/-- If a class is listed twice, another class can stand in place of one of the two. -/
theorem exists_sameAs_not_perm [Nonempty β] (repeated : ¬ p.classes.Nodup) :
    ∃ q, p.sameAs q = true ∧ ¬ p.classes.Perm q.classes := by
  obtain ⟨c, twice⟩ := List.exists_duplicate_iff_not_nodup.mpr repeated
  obtain ⟨others, perm⟩ := (List.duplicate_iff_sublist.mp twice).exists_perm_append
  obtain ⟨d, ne⟩ : ∃ d : ExtTreeSet β compare, d ≠ c := by
    obtain ⟨x⟩ := ‹Nonempty β›
    by_cases hx : x ∈ c
    · refine ⟨∅, fun same => ?_⟩
      simp [← same] at hx
    · refine ⟨c.insert x, fun same => hx ?_⟩
      rw [← same]
      simp
  refine ⟨⟨d :: c :: others⟩, sameAs_iff.mpr ⟨perm.length_eq, fun e member => ?_⟩, fun again => ?_⟩
  · have kept : e ∈ c :: others := by simpa using perm.subset member
    exact List.mem_cons_of_mem d kept
  · have counts := (perm.symm.trans again).count_eq c
    simp [ne] at counts

/-- The comparison is reflexive and transitive. If a list has no class twice, it tells just the
rearrangements of it from all other lists, and then it is symmetric too; if it has some class twice,
it equals a list that is none. Elements that are grouped by a key never make a class twice; listed
collections do only if they repeat one. -/
theorem equality_exact {κ : Type} [DecidableEq κ] (p : Partition β) (key : β → κ)
    (elements : List β) (lists : List (List β)) :
    p.sameAs p = true ∧
      (∀ q r, p.sameAs q = true → q.sameAs r = true → p.sameAs r = true) ∧
      (p.classes.Nodup → ∀ q, p.sameAs q = true ↔ p.classes.Perm q.classes) ∧
      (Nonempty β → ¬ p.classes.Nodup → ∃ q, p.sameAs q = true ∧ ¬ p.classes.Perm q.classes) ∧
      (p.classes.Nodup → ∀ q, p.sameAs q = true → q.sameAs p = true) ∧
      (groupBy key elements).classes.Nodup ∧
      ((ofLists lists).classes.Nodup ↔
        lists.Pairwise fun xs ys => (∀ x, x ∈ xs ↔ x ∈ ys) → xs = []) := by
  refine ⟨sameAs_self p, fun q r => sameAs_trans, fun distinct q => ?_, fun _ => ?_,
    fun distinct q same => ?_, nodup_classes_groupBy key elements, nodup_classes_ofLists⟩
  · exact ⟨perm_of_sameAs distinct, sameAs_of_perm⟩
  · exact exists_sameAs_not_perm
  · exact sameAs_of_perm (perm_of_sameAs distinct same).symm

theorem thirds_compared :
    let p := ofLists [[2, 5], [0, 3, 6], [], [1, 4]]
    let q := groupBy (· % 3) [0, 1, 2, 3, 4, 5, 6]
    p.classes.Nodup ∧ p.sameAs q = true ∧ q.sameAs p = true ∧ p.classes.Perm q.classes := by
  intro p q
  obtain ⟨_, _, exact, _, symmetric, _, _⟩ :=
    equality_exact p (· % 3) [0, 1, 2, 3, 4, 5, 6] [[2, 5], [0, 3, 6], [], [1, 4]]
  have distinct : p.classes.Nodup := by decide +kernel
  have same : p.sameAs q = true := by decide +kernel
  exact ⟨distinct, same, symmetric distinct q same, (exact distinct q).mp same⟩

/-- With a class listed twice the comparison is not symmetric, and it is not up to order. -/
theorem repeated_class_fails :
    let p := ofLists [[1], [1]]
    let q := groupBy (· % 2) [1, 2]
    p.sameAs q = true ∧ q.sameAs p = false ∧ ¬ p.classes.Perm q.classes := by
  decide +kernel

end BlueFringe.Partition
