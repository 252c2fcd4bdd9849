import BlueFringe.Proofs.Reachability
import Mathlib.Algebra.BigOperators.Finprod
import Mathlib.Data.Set.Card

/-!
# Identifications that determinism forces

Identifying two states of a graph forces others to be identified: wherever related states have a
transition on one label, the targets are related too. The relation is taken as the least
equivalence of this kind, its classes are sets of states. A function that picks one state from each
class turns questions about the classes into questions about the states that it moves.
-/

namespace BlueFringe.Graph

open Std

variable {α : Type} [Ord α] [TransOrd α]

/-- The least equivalence that relates `x` with `y` and that transitions hand on. -/
inductive Forced (g : Graph α) (x y : StateId) : StateId → StateId → Prop where
  | pair : Forced g x y x y
  | refl (q : StateId) : Forced g x y q q
  | symm {p q : StateId} : Forced g x y p q → Forced g x y q p
  | trans {p q r : StateId} : Forced g x y p q → Forced g x y q r → Forced g x y p r
  | step {p q p' q' : StateId} {a : α} : Forced g x y p q → g.transition p a = some p' →
      g.transition q a = some q' → Forced g x y p' q'

/-- The states in one class with a state. -/
def forcedClass (g : Graph α) (x y q : StateId) : Set StateId := {p | p ∈ g ∧ g.Forced x y q p}

/-- The classes into which the states fall. -/
def forcedClasses (g : Graph α) (x y : StateId) : Set (Set StateId) :=
  {c | ∃ q ∈ g, c = g.forcedClass x y q}

/-- The classes of which all members reject. -/
def rejectingClasses (g : Graph α) (x y : StateId) : Set (Set StateId) :=
  {c | c ∈ g.forcedClasses x y ∧ ∀ q ∈ c, g.accepting? q = some false}

variable {g : Graph α} {x y p q : StateId}

/-- Any function whose kernel relates the pair and is handed on by transitions identifies all that
is forced. -/
theorem Forced.image_eq {β : Type} {h : StateId → β} (pair : h x = h y)
    (step : ∀ p q a p' q', h p = h q → g.transition p a = some p' → g.transition q a = some q' →
      h p' = h q')
    (forced : g.Forced x y p q) : h p = h q := by
  induction forced with
  | pair => exact pair
  | refl q => rfl
  | symm _ ih => exact ih.symm
  | trans _ _ ih ih' => exact ih.trans ih'
  | step _ hp hq ih => exact step _ _ _ _ _ ih hp hq

theorem Forced.eq_or_mem (closed : g.Closed) (hx : x ∈ g) (hy : y ∈ g)
    (forced : g.Forced x y p q) : p = q ∨ (p ∈ g ∧ q ∈ g) := by
  induction forced with
  | pair => exact Or.inr ⟨hx, hy⟩
  | refl q => exact Or.inl rfl
  | symm _ ih => exact ih.imp Eq.symm And.symm
  | trans _ _ ih ih' =>
      rcases ih with rfl | h
      · exact ih'
      · rcases ih' with rfl | h'
        · exact Or.inr h
        · exact Or.inr ⟨h.1, h'.2⟩
  | step _ hp hq _ => exact Or.inr ⟨closed _ _ _ hp, closed _ _ _ hq⟩

theorem forcedClass_eq_iff (hp : p ∈ g) :
    g.forcedClass x y p = g.forcedClass x y q ↔ g.Forced x y q p := by
  constructor
  · intro h
    have hm : p ∈ g.forcedClass x y p := ⟨hp, Forced.refl p⟩
    rw [h] at hm
    exact hm.2
  · intro h
    ext r
    exact and_congr_right fun _ => ⟨h.trans, h.symm.trans⟩

/-! ### Classes by their representatives -/

/-- A choice of one state from each class. -/
structure Represents (g : Graph α) (x y : StateId) (h : StateId → StateId) : Prop where
  mem : ∀ q ∈ g, h q ∈ g
  idem : ∀ q, h (h q) = h q
  forced_iff : ∀ p q, g.Forced x y p q ↔ h p = h q

namespace Represents

variable {h : StateId → StateId}

/-- The states that represent their class. -/
def fixed (g : Graph α) (h : StateId → StateId) : Finset StateId :=
  g.stateIds.toFinset.filter fun q => h q = q

/-- The states that another state represents. -/
def moved (g : Graph α) (h : StateId → StateId) : Finset StateId :=
  g.stateIds.toFinset.filter fun q => h q ≠ q

omit [TransOrd α] in
theorem mem_fixed : q ∈ fixed g h ↔ q ∈ g ∧ h q = q := by
  simp [fixed]

omit [TransOrd α] in
theorem mem_moved : q ∈ moved g h ↔ q ∈ g ∧ h q ≠ q := by
  simp [moved]

omit [TransOrd α] in
theorem card_fixed_add_card_moved (g : Graph α) (h : StateId → StateId) :
    (fixed g h).card + (moved g h).card = g.size := by
  rw [fixed, moved, Finset.card_filter_add_card_filter_not,
    List.toFinset_card_of_nodup nodup_stateIds, length_stateIds]

variable (rep : Represents g x y h)
include rep

theorem forcedClasses_eq :
    g.forcedClasses x y = g.forcedClass x y '' (fixed g h : Set StateId) := by
  ext c
  constructor
  · rintro ⟨q, hq, rfl⟩
    refine ⟨h q, Finset.mem_coe.mpr (mem_fixed.mpr ⟨rep.mem q hq, rep.idem q⟩), ?_⟩
    rw [forcedClass_eq_iff (rep.mem q hq), rep.forced_iff, rep.idem]
  · rintro ⟨q, hq, rfl⟩
    exact ⟨q, (mem_fixed.mp (Finset.mem_coe.mp hq)).1, rfl⟩

theorem injOn_forcedClass : Set.InjOn (g.forcedClass x y) (fixed g h : Set StateId) := by
  intro p hp q hq he
  obtain ⟨hpg, hpf⟩ := mem_fixed.mp (Finset.mem_coe.mp hp)
  obtain ⟨_, hqf⟩ := mem_fixed.mp (Finset.mem_coe.mp hq)
  rw [forcedClass_eq_iff hpg, rep.forced_iff, hpf, hqf] at he
  exact he.symm

/-- Each class has one state that is not moved. -/
theorem ncard_forcedClasses : (g.forcedClasses x y).ncard = (fixed g h).card := by
  rw [rep.forcedClasses_eq, rep.injOn_forcedClass.ncard_image,
    Set.ncard_coe_finset]

theorem ncard_forcedClass (hq : q ∈ fixed g h) :
    (g.forcedClass x y q).ncard - 1 = ((moved g h).filter fun p => h p = q).card := by
  obtain ⟨hqg, hqf⟩ := mem_fixed.mp hq
  have members : g.forcedClass x y q =
      (insert q ((moved g h).filter fun p => h p = q) : Finset StateId) := by
    ext p
    rw [Finset.mem_coe, Finset.mem_insert, Finset.mem_filter, mem_moved]
    show p ∈ g ∧ g.Forced x y q p ↔ _
    rw [rep.forced_iff, hqf]
    constructor
    · rintro ⟨hp, he⟩
      by_cases hpq : p = q
      · exact Or.inl hpq
      · exact Or.inr ⟨⟨hp, fun hf => hpq (hf.symm.trans he.symm)⟩, he.symm⟩
    · rintro (rfl | ⟨⟨hp, _⟩, he⟩)
      · exact ⟨hqg, hqf.symm⟩
      · exact ⟨hp, he.symm⟩
  have free : q ∉ (moved g h).filter fun p => h p = q := by
    intro hm
    exact (mem_moved.mp (Finset.mem_filter.mp hm).1).2 hqf
  rw [members, Set.ncard_coe_finset, Finset.card_insert_of_notMem free, Nat.add_sub_cancel]

/-- The sizes of the rejecting classes, each less one, add up to the number of rejecting states that
are moved, if no class has members that differ in acceptance. -/
theorem finsum_rejectingClasses (agree : ∀ q ∈ g, g.accepting? (h q) = g.accepting? q) :
    ∑ᶠ c ∈ g.rejectingClasses x y, (c.ncard - 1) =
      ((moved g h).filter fun q => g.accepting? q = some false).card := by
  have classes : g.rejectingClasses x y = g.forcedClass x y ''
      ((fixed g h).filter fun q => g.accepting? q = some false : Finset StateId) := by
    ext c
    rw [rejectingClasses, Set.mem_ofPred_eq, rep.forcedClasses_eq]
    constructor
    · rintro ⟨⟨q, hq, rfl⟩, reject⟩
      have hqg := (mem_fixed.mp (Finset.mem_coe.mp hq)).1
      refine ⟨q, ?_, rfl⟩
      rw [Finset.mem_coe, Finset.mem_filter]
      exact ⟨Finset.mem_coe.mp hq, reject q ⟨hqg, Forced.refl q⟩⟩
    · rintro ⟨q, hq, rfl⟩
      rw [Finset.mem_coe, Finset.mem_filter] at hq
      refine ⟨⟨q, Finset.mem_coe.mpr hq.1, rfl⟩, fun p hp => ?_⟩
      obtain ⟨hqg, hqf⟩ := mem_fixed.mp hq.1
      have same : h q = h p := (rep.forced_iff q p).mp hp.2
      rw [← agree p hp.1, ← same, hqf]
      exact hq.2
  have injective := rep.injOn_forcedClass.mono
    (Finset.coe_subset.mpr (Finset.filter_subset (fun q => g.accepting? q = some false) _))
  rw [classes, finsum_mem_image injective, finsum_mem_coe_finset,
    Finset.card_eq_sum_card_fiberwise (f := h)
      (t := (fixed g h).filter fun q => g.accepting? q = some false)]
  · refine Finset.sum_congr rfl fun q hq => ?_
    obtain ⟨hqf, reject⟩ := Finset.mem_filter.mp hq
    rw [rep.ncard_forcedClass hqf]
    congr 1
    ext p
    simp only [Finset.mem_filter, mem_moved]
    constructor
    · rintro ⟨⟨hp, hm⟩, he⟩
      exact ⟨⟨⟨hp, hm⟩, by rw [← agree p hp, he]; exact reject⟩, he⟩
    · rintro ⟨⟨hp, _⟩, he⟩
      exact ⟨hp, he⟩
  · intro q hq
    obtain ⟨hm, reject⟩ := Finset.mem_filter.mp (Finset.mem_coe.mp hq)
    have hqg := (mem_moved.mp hm).1
    rw [Finset.mem_coe, Finset.mem_filter, mem_fixed, agree q hqg]
    exact ⟨⟨rep.mem q hqg, rep.idem q⟩, reject⟩

end Represents

end BlueFringe.Graph
