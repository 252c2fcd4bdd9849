import BlueFringe.Proofs.Growth
import BlueFringe.PrefixTree

/-!
# Rooted trees

In a rooted tree every state is reached by exactly one word. Sprouting a leaf keeps the shape: the
new state is reached by the word of its parent and one more label, and all other runs are as before.
-/

namespace BlueFringe.Graph

open Std

variable {α : Type} [Ord α] [TransOrd α]

/-- Every state is reached by exactly one word and has no colour, and the next new state is none of
them. -/
structure RootedTree (g : Graph α) : Prop where
  initial : g.initial ∈ g
  closed : g.Closed
  reached : ∀ q ∈ g, ∃ w, g.run w = some q
  unique : ∀ v w q, g.run v = some q → g.run w = some q → v = w
  plain : ∀ q c, g.colour? q = some c → c = .uncoloured
  ascending : ∀ q ∈ g, q.index < g.nextIndex

variable {g : Graph α} {q p : StateId} {a : α} {v w : Word α} {accepting : Bool} {depth : Nat}

theorem eq_nil_of_run_single (h : (single accepting : Graph α).run w = some q) : w = [] := by
  cases w with
  | nil => rfl
  | cons a w => simp [run, transition_single] at h

namespace RootedTree

theorem fresh_notMem (tree : g.RootedTree) : g.fresh ∉ g :=
  fun h => Nat.lt_irrefl g.nextIndex (tree.ascending g.fresh h)

theorem mem_of_run (tree : g.RootedTree) (h : g.run w = some q) : q ∈ g :=
  tree.closed.mem_of_reaches tree.initial ⟨w, h⟩

theorem colour?_of_mem (tree : g.RootedTree) (mem : q ∈ g) : g.colour? q = some .uncoloured := by
  obtain ⟨s, hs⟩ := mem_iff_exists.mp mem
  have coloured : g.colour? q = some s.colour := by rw [colour?, hs, Option.map_some]
  rw [coloured, tree.plain q _ coloured]

theorem exists_run_concat (tree : g.RootedTree) (ha : g.transition q a = some p) :
    ∃ w, g.run w = some q ∧ g.run (w ++ [a]) = some p := by
  obtain ⟨w, hw⟩ := tree.reached q (mem_of_transition ha)
  exact ⟨w, hw, runFrom_concat_eq_some.mpr ⟨q, hw, ha⟩⟩

theorem transition_ne_initial (tree : g.RootedTree) : g.transition q a ≠ some g.initial := by
  intro ha
  obtain ⟨w, _, hw⟩ := tree.exists_run_concat ha
  exact List.concat_ne_nil _ _ (tree.unique (w ++ [a]) [] g.initial hw rfl)

/-- A state is entered by one transition at most. -/
theorem parent (tree : g.RootedTree) {r : StateId} {b : α} (ha : g.transition q a = some p)
    (hb : g.transition r b = some p) : q = r ∧ a = b := by
  obtain ⟨v, hv, hp⟩ := tree.exists_run_concat ha
  obtain ⟨w, hw, hp'⟩ := tree.exists_run_concat hb
  obtain ⟨rfl, same⟩ := List.append_inj' (tree.unique _ _ p hp hp') rfl
  exact ⟨Option.some.inj (hv.symm.trans hw), (List.cons.inj same).1⟩

theorem single (accepting : Bool) : (single accepting : Graph α).RootedTree := by
  refine ⟨mem_single.mpr rfl, fun q a p h => ?_, fun q hq => ⟨[], congrArg some (mem_single.mp hq)⟩,
    fun v w q hv hw => (eq_nil_of_run_single hv).trans (eq_nil_of_run_single hw).symm,
    fun q c h => ?_, fun q hq => ?_⟩
  · rw [transition_single] at h
    cases h
  · rw [colour?, state?_single] at h
    split at h <;> cases h
    rfl
  · rw [← mem_single.mp hq]
    exact Nat.zero_lt_one

theorem setAccepting (tree : g.RootedTree) : (g.setAccepting q accepting).RootedTree := by
  refine ⟨mem_update.mpr tree.initial, fun r a p h => ?_, fun p hp => ?_, fun v w p => ?_,
    fun p c h => ?_, fun p hp => ?_⟩
  · rw [transition_setAccepting] at h
    exact mem_update.mpr (tree.closed r a p h)
  · obtain ⟨w, hw⟩ := tree.reached p (mem_update.mp hp)
    exact ⟨w, run_setAccepting.trans hw⟩
  · rw [run_setAccepting, run_setAccepting]
    exact tree.unique v w p
  · rw [colour?_setAccepting] at h
    exact tree.plain p c h
  · exact tree.ascending p (mem_update.mp hp)

variable [LawfulEqOrd α]

/-! ### Sprouting -/

theorem transition_sprout_of_some (tree : g.RootedTree) (lacking : g.transition q a = none) {b : α}
    {r : StateId} (h : g.transition p b = some r) :
    (g.sprout q depth a accepting).transition p b = some r := by
  rw [transition_sprout_of_ne tree.fresh_notMem, h]
  by_contra same
  rw [not_or, not_not, not_not] at same
  rw [← same.1, ← same.2, lacking] at h
  cases h

theorem transition_sprout_fresh (tree : g.RootedTree) (hq : q ∈ g) {b : α} :
    (g.sprout q depth a accepting).transition g.fresh b = none := by
  have ne : q ≠ g.fresh := fun he => tree.fresh_notMem (he ▸ hq)
  rw [transition_sprout_of_ne tree.fresh_notMem (Or.inl ne),
    transition_of_notMem tree.fresh_notMem]

theorem run_sprout_of_run (tree : g.RootedTree) (lacking : g.transition q a = none)
    (h : g.run w = some p) : (g.sprout q depth a accepting).run w = some p :=
  run_of_transition_kept (g := g) rfl (fun _ _ _ => tree.transition_sprout_of_some lacking) h

/-- The new state is reached by the word of its parent and the new label, and no other word gains a
run. -/
theorem run_sprout (tree : g.RootedTree) (hq : q ∈ g) (lacking : g.transition q a = none) :
    (g.sprout q depth a accepting).run w = some p ↔
      g.run w = some p ∨ p = g.fresh ∧ ∃ v, g.run v = some q ∧ w = v ++ [a] := by
  constructor
  · intro h
    induction w using List.reverseRecOn generalizing p with
    | nil => exact Or.inl h
    | append_singleton w b ih =>
        obtain ⟨r, hr, hb⟩ := runFrom_concat_eq_some.mp h
        rcases ih hr with old | ⟨rfl, _⟩
        · by_cases same : q = r ∧ a = b
          · obtain ⟨rfl, rfl⟩ := same
            rw [transition_sprout_self hq] at hb
            exact Or.inr ⟨(Option.some.inj hb).symm, w, old, rfl⟩
          · rw [not_and_or] at same
            rw [transition_sprout_of_ne tree.fresh_notMem same] at hb
            exact Or.inl (runFrom_concat_eq_some.mpr ⟨r, old, hb⟩)
        · rw [tree.transition_sprout_fresh hq] at hb
          cases hb
  · rintro (old | ⟨rfl, v, hv, rfl⟩)
    · exact tree.run_sprout_of_run lacking old
    · exact runFrom_concat_eq_some.mpr
        ⟨q, tree.run_sprout_of_run lacking hv, transition_sprout_self hq⟩

theorem run_sprout_fresh (tree : g.RootedTree) (start : g.run w = some q)
    (lacking : g.transition q a = none) :
    (g.sprout q depth a accepting).run (w ++ [a]) = some g.fresh :=
  (tree.run_sprout (tree.mem_of_run start) lacking).mpr (Or.inr ⟨rfl, w, start, rfl⟩)

theorem sprout (tree : g.RootedTree) (hq : q ∈ g) (lacking : g.transition q a = none) :
    (g.sprout q depth a accepting).RootedTree := by
  have other : ∀ v p, g.run v = some p → p ≠ g.fresh :=
    fun v p h he => tree.fresh_notMem (he ▸ tree.mem_of_run h)
  refine ⟨mem_sprout.mpr (Or.inr tree.initial), ?_, ?_, ?_, ?_, ?_⟩
  · intro r b p h
    by_cases same : q = r ∧ a = b
    · obtain ⟨rfl, rfl⟩ := same
      rw [transition_sprout_self hq] at h
      exact mem_sprout.mpr (Or.inl (Option.some.inj h))
    · rw [not_and_or] at same
      rw [transition_sprout_of_ne tree.fresh_notMem same] at h
      exact mem_sprout.mpr (Or.inr (tree.closed r b p h))
  · intro p hp
    rcases mem_sprout.mp hp with rfl | old
    · obtain ⟨v, hv⟩ := tree.reached q hq
      exact ⟨v ++ [a], (tree.run_sprout hq lacking).mpr (Or.inr ⟨rfl, v, hv, rfl⟩)⟩
    · obtain ⟨v, hv⟩ := tree.reached p old
      exact ⟨v, (tree.run_sprout hq lacking).mpr (Or.inl hv)⟩
  · intro v w p hv hw
    rcases (tree.run_sprout hq lacking).mp hv with hv | ⟨rfl, v', hv', rfl⟩ <;>
      rcases (tree.run_sprout hq lacking).mp hw with hw | ⟨hp, w', hw', rfl⟩
    · exact tree.unique v w p hv hw
    · exact absurd hp (other v p hv)
    · exact absurd rfl (other w _ hw)
    · rw [tree.unique v' w' q hv' hw']
  · intro p c h
    rw [colour?_sprout] at h
    split at h
    · exact (Option.some.inj h).symm
    · exact tree.plain p c h
  · intro p hp
    rw [nextIndex_sprout]
    rcases mem_sprout.mp hp with rfl | old
    · exact Nat.lt_succ_self _
    · exact Nat.lt_succ_of_lt (tree.ascending p old)

theorem grows_sprout (tree : g.RootedTree) (lacking : g.transition q a = none) :
    g.Grows (g.sprout q depth a accepting) := by
  intro w p h
  refine ⟨p, tree.run_sprout_of_run lacking h, ?_⟩
  rw [accepting?_sprout, if_neg]
  exact fun he => tree.fresh_notMem (he ▸ tree.mem_of_run h)

end RootedTree

end BlueFringe.Graph
