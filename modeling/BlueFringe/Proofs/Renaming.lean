import BlueFringe.Pair
import BlueFringe.Proofs.Determinisation

/-!
# Renamed graphs

States and labels are names. A renaming gives other names to both, and the labels may be ordered
differently afterwards; what is said about runs, trees and classes carries over.
-/

namespace BlueFringe.Graph

open Std

variable {α β : Type} [Ord α] [TransOrd α] [Ord β] [TransOrd β]

/-- The second graph is the first one under other names. -/
structure Renaming (g : Graph α) (g' : Graph β) where
  state : StateId ≃ StateId
  label : α ≃ β
  accepting : ∀ q, g'.accepting? (state q) = g.accepting? q
  transition : ∀ q a, g'.transition (state q) (label a) = (g.transition q a).map state

namespace Renaming

variable {g : Graph α} {g' : Graph β} (ρ : Renaming g g') {x y p q root : StateId} {a : α}
include ρ

/-- The pair under its new names. -/
def pair (pair : StatePair) : StatePair := ⟨ρ.state pair.blue, ρ.state pair.red⟩

/-- The way back. -/
def symm : Renaming g' g where
  state := ρ.state.symm
  label := ρ.label.symm
  accepting q := by rw [← ρ.accepting, Equiv.apply_symm_apply]
  transition q b := by
    have h := ρ.transition (ρ.state.symm q) (ρ.label.symm b)
    rw [Equiv.apply_symm_apply, Equiv.apply_symm_apply] at h
    rw [h, Option.map_map]
    simp

theorem mem_iff : ρ.state q ∈ g' ↔ q ∈ g := by
  rw [← accepting?_isSome, ρ.accepting, accepting?_isSome]

theorem transition_eq_some (h : g.transition q a = some p) :
    g'.transition (ρ.state q) (ρ.label a) = some (ρ.state p) := by
  rw [ρ.transition, h, Option.map_some]

/-- A transition of the renamed graph is one of the graph. -/
theorem exists_transition {b : β} (h : g'.transition (ρ.state q) b = some (ρ.state p)) :
    g.transition q (ρ.label.symm b) = some p := by
  have back := ρ.symm.transition_eq_some h
  simpa [symm] using back

theorem reaches (h : g.Reaches q p) : g'.Reaches (ρ.state q) (ρ.state p) :=
  h.induct (P := fun p => g'.Reaches (ρ.state q) (ρ.state p)) (Reaches.refl _ _)
    fun _ _ _ _ ih ha => ih.tail (ρ.transition_eq_some ha)

theorem reaches_iff : g'.Reaches (ρ.state q) (ρ.state p) ↔ g.Reaches q p := by
  refine ⟨fun h => ?_, ρ.reaches⟩
  have back := ρ.symm.reaches h
  simpa [symm] using back

theorem closed (closed : g.Closed) : g'.Closed := by
  intro q b p h
  obtain ⟨q, rfl⟩ := ρ.state.surjective q
  obtain ⟨p, rfl⟩ := ρ.state.surjective p
  exact ρ.mem_iff.mpr (closed q _ p (ρ.exists_transition h))

theorem treeFrom (tree : g.TreeFrom root) : g'.TreeFrom (ρ.state root) := by
  refine ⟨fun q b hq h => ?_, fun q b p hp ne h => ?_, fun q b q' b' p hp ne h h' => ?_⟩
  · obtain ⟨q, rfl⟩ := ρ.state.surjective q
    exact tree.no_return q _ (ρ.reaches_iff.mp hq) (ρ.exists_transition h)
  · obtain ⟨q, rfl⟩ := ρ.state.surjective q
    obtain ⟨p, rfl⟩ := ρ.state.surjective p
    exact ρ.reaches (tree.inside q _ p (ρ.reaches_iff.mp hp) (fun he => ne (he ▸ rfl))
      (ρ.exists_transition h))
  · obtain ⟨q, rfl⟩ := ρ.state.surjective q
    obtain ⟨q', rfl⟩ := ρ.state.surjective q'
    obtain ⟨p, rfl⟩ := ρ.state.surjective p
    obtain ⟨rfl, hb⟩ := tree.parent q _ q' _ p (ρ.reaches_iff.mp hp) (fun he => ne (he ▸ rfl))
      (ρ.exists_transition h) (ρ.exists_transition h')
    exact ⟨rfl, ρ.label.symm.injective hb⟩

theorem size_eq : g'.size = g.size := by
  have same : g'.stateIds.toFinset = g.stateIds.toFinset.map ρ.state.toEmbedding := by
    ext q
    obtain ⟨q, rfl⟩ := ρ.state.surjective q
    simp [ρ.mem_iff]
  rw [← length_stateIds, ← length_stateIds, ← List.toFinset_card_of_nodup nodup_stateIds,
    ← List.toFinset_card_of_nodup nodup_stateIds, same, Finset.card_map]

theorem forced (h : g.Forced x y p q) :
    g'.Forced (ρ.state x) (ρ.state y) (ρ.state p) (ρ.state q) := by
  induction h with
  | pair => exact Forced.pair
  | refl q => exact Forced.refl _
  | symm _ ih => exact ih.symm
  | trans _ _ ih ih' => exact ih.trans ih'
  | step _ hp hq ih => exact ih.step (ρ.transition_eq_some hp) (ρ.transition_eq_some hq)

theorem forced_iff :
    g'.Forced (ρ.state x) (ρ.state y) (ρ.state p) (ρ.state q) ↔ g.Forced x y p q := by
  refine ⟨fun h => ?_, ρ.forced⟩
  have back := ρ.symm.forced h
  simpa [symm] using back

theorem forcedClass_eq :
    g'.forcedClass (ρ.state x) (ρ.state y) (ρ.state q) = ρ.state '' g.forcedClass x y q := by
  ext p
  obtain ⟨p, rfl⟩ := ρ.state.surjective p
  rw [Set.mem_image_equiv, Equiv.symm_apply_apply]
  exact and_congr ρ.mem_iff ρ.forced_iff

theorem forcedClasses_eq : g'.forcedClasses (ρ.state x) (ρ.state y) =
    (ρ.state '' ·) '' g.forcedClasses x y := by
  ext c
  constructor
  · rintro ⟨q, hq, rfl⟩
    obtain ⟨q, rfl⟩ := ρ.state.surjective q
    exact ⟨_, ⟨q, ρ.mem_iff.mp hq, rfl⟩, ρ.forcedClass_eq.symm⟩
  · rintro ⟨_, ⟨q, hq, rfl⟩, rfl⟩
    exact ⟨ρ.state q, ρ.mem_iff.mpr hq, ρ.forcedClass_eq.symm⟩

theorem rejectingClasses_eq : g'.rejectingClasses (ρ.state x) (ρ.state y) =
    (ρ.state '' ·) '' g.rejectingClasses x y := by
  ext c
  constructor
  · rintro ⟨hc, reject⟩
    rw [ρ.forcedClasses_eq] at hc
    obtain ⟨c, hc, rfl⟩ := hc
    exact ⟨c, ⟨hc, fun q hq => (ρ.accepting q).symm.trans (reject _ ⟨q, hq, rfl⟩)⟩, rfl⟩
  · rintro ⟨c, ⟨hc, reject⟩, rfl⟩
    refine ⟨ρ.forcedClasses_eq ▸ ⟨c, hc, rfl⟩, ?_⟩
    rintro _ ⟨q, hq, rfl⟩
    rw [ρ.accepting]
    exact reject q hq

theorem ncard_forcedClasses_eq :
    (g'.forcedClasses (ρ.state x) (ρ.state y)).ncard = (g.forcedClasses x y).ncard := by
  rw [ρ.forcedClasses_eq]
  exact (Set.image_injective.mpr ρ.state.injective).injOn.ncard_image

theorem finsum_rejectingClasses_eq :
    ∑ᶠ c ∈ g'.rejectingClasses (ρ.state x) (ρ.state y), (c.ncard - 1) =
      ∑ᶠ c ∈ g.rejectingClasses x y, (c.ncard - 1) := by
  rw [ρ.rejectingClasses_eq,
    finsum_mem_image (Set.image_injective.mpr ρ.state.injective).injOn]
  refine finsum_mem_congr rfl fun c _ => ?_
  rw [ρ.state.injective.injOn.ncard_image]

end Renaming

end BlueFringe.Graph
