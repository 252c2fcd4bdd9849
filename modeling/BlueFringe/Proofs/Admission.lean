import BlueFringe.Proofs.Quotient

/-!
# Which pairs are admitted

Scoring and merging both refuse a blue state that does not carry a tree, but they look at different
transitions. Merging tests the whole graph. Scoring tests the transitions that its walk comes past,
so it misses one that enters the tree from a state that the walk never visits, and one between two
states of the tree. What scoring refuses merging would refuse too, and what scoring lets pass
merging refuses for this reason only.
-/

namespace BlueFringe

open Std

variable {α : Type} [Ord α] [TransOrd α]

namespace Strategy

variable {strategy : Strategy} {g : Graph α} {pair : StatePair} {s : Score} {m : Identification}

theorem entries_mem_of_score [LawfulEqOrd α] (closed : g.Closed)
    (scored : strategy.score g pair = .ok (s, m)) :
    ∀ entry ∈ m.entries, entry.1 ∈ g ∧ entry.2 ∈ g := by
  obtain ⟨blue_mem, red_mem⟩ := mem_of_score scored
  obtain ⟨f, folded, _, rfl⟩ := score_eq_ok.mp scored
  obtain ⟨f₀, walk, same⟩ := Folding.exists_walk_entries folded
  intro entry listed
  dsimp only at listed
  rw [same] at listed
  have source := closed.mem_of_reaches blue_mem (walk.reaches entry listed)
  cases (walk.forced entry listed).eq_or_mem closed blue_mem red_mem with
  | inl fixed => exact ⟨source, fixed ▸ source⟩
  | inr both => exact both

theorem isTreeFrom_of_refused [LawfulEqOrd α] (closed : g.Closed)
    (apart : ¬ g.Reaches pair.blue pair.red)
    (refused : strategy.score g pair = .error (.notATree pair.blue)) :
    g.isTreeFrom pair.blue = false := by
  have mem : pair.blue ∈ g ∧ pair.red ∈ g := by
    unfold score Folding.ofPair at refused
    split at refused
    · simp [bind, Except.bind] at refused
    split at refused
    · simp [bind, Except.bind] at refused
    rename_i blue red
    exact ⟨not_not.mp blue, not_not.mp red⟩
  refine Bool.eq_false_iff.mpr fun tree => ?_
  have foldable : g.Foldable pair :=
    ⟨closed, mem.1, mem.2, apart, Graph.isTreeFrom_iff.mp tree⟩
  obtain ⟨_, _, scored⟩ := exists_score foldable strategy
  rw [refused] at scored
  cases scored

end Strategy

variable [LawfulEqOrd α]

theorem Graph.mergeViolation?_of_score {strategy : Strategy} {g : Graph α} {pair : StatePair}
    {s : Score} {m : Identification} (closed : g.Closed)
    (scored : strategy.score g pair = .ok (s, m)) (compatible : s.isCompatible = true) :
    g.mergeViolation? pair m =
      if g.isTreeFrom pair.blue then none else some (.notATree pair.blue) := by
  obtain ⟨_, _, distinct, apart⟩ := Strategy.of_score scored
  have known : ((m.entries.flatMap fun entry => [entry.1, entry.2]).find? fun q => q ∉ g) =
      none := by
    rw [List.find?_eq_none]
    intro q listed
    obtain ⟨entry, mem, either⟩ := List.mem_flatMap.mp listed
    have both := Strategy.entries_mem_of_score closed scored entry mem
    rcases List.mem_pair.mp either with rfl | rfl <;> simp [both]
  obtain ⟨f, _, _, rfl⟩ := Strategy.score_eq_ok.mp scored
  have far : pair.red ∉ g.reachable pair.blue := fun h => apart (mem_reachable.mp h)
  unfold mergeViolation?
  rw [known]
  cases tree : g.isTreeFrom pair.blue <;> simp [compatible, distinct, far]

/-- Merging admits a compatible pair exactly if the blue state carries a tree, and otherwise names
the missing tree. Scoring refuses no pair for its tree that merging would admit, but a compatible
score alone does not make sure that there is a tree. -/
theorem admission_depends_on_tree (g : Graph α) (pair : StatePair) (closed : g.Closed)
    (initial : g.initial ∈ g) (rooted : ¬ g.Reaches pair.blue g.initial) (strategy : Strategy) :
    (∀ s m, strategy.score g pair = .ok (s, m) → s.isCompatible = true →
      ((∃ merged, g.merge pair m = .ok merged) ↔ g.isTreeFrom pair.blue = true) ∧
      (g.isTreeFrom pair.blue = false → g.merge pair m = .error (.notATree pair.blue))) ∧
    (strategy.score g pair = .error (.notATree pair.blue) →
      g.Reaches pair.blue pair.red ∨ g.isTreeFrom pair.blue = false) := by
  constructor
  · intro s m scored compatible
    have refused : g.isTreeFrom pair.blue = false →
        g.merge pair m = .error (.notATree pair.blue) := by
      intro tree
      have violation := Graph.mergeViolation?_of_score closed scored compatible
      rw [tree, if_neg Bool.false_ne_true] at violation
      rw [Graph.merge, violation]
    refine ⟨⟨fun admitted => ?_, fun tree => ?_⟩, refused⟩
    · obtain ⟨merged, made⟩ := admitted
      by_contra tree
      rw [refused (Bool.eq_false_iff.mpr tree)] at made
      cases made
    · obtain ⟨merged, made, _⟩ :=
        Strategy.exists_merges closed initial tree rooted scored compatible
      exact ⟨merged, made⟩
  · intro refused
    by_cases apart : g.Reaches pair.blue pair.red
    · exact .inl apart
    · exact .inr (Strategy.isTreeFrom_of_refused closed apart refused)

theorem sapling_admitted :
    Strategy.edsm.score sapling ⟨⟨1⟩, ⟨0⟩⟩ = .ok (.compatible 5 2, saplingFold) ∧
      sapling.isTreeFrom ⟨1⟩ = true ∧
      ∃ merged, sapling.merge ⟨⟨1⟩, ⟨0⟩⟩ saplingFold = .ok merged := by
  have scored : Strategy.edsm.score sapling ⟨⟨1⟩, ⟨0⟩⟩ = .ok (.compatible 5 2, saplingFold) := by
    decide +kernel
  have tree : sapling.isTreeFrom ⟨1⟩ = true := by decide +kernel
  obtain ⟨admits, _⟩ := admission_depends_on_tree sapling ⟨⟨1⟩, ⟨0⟩⟩ (by decide +kernel)
    (by decide +kernel) (by decide +kernel) .edsm
  exact ⟨scored, tree, (admits _ _ scored rfl).1.mpr tree⟩

/-- A graph in which the state below 1 is entered from 3 as well. -/
def sideEntry : Graph Nat :=
  (((((((Graph.single true).addState true).addState true).addState true).setTarget ⟨0⟩ 0
    ⟨1⟩).setTarget ⟨1⟩ 1 ⟨2⟩).setTarget ⟨0⟩ 2 ⟨3⟩).setTarget ⟨3⟩ 3 ⟨2⟩

/-- The walk never comes to the state 3, so the pair is scored like one with a tree, and the merge
finds the second way in. -/
theorem sideEntry_scored_not_merged : sideEntry.Closed ∧ sideEntry.initial ∈ sideEntry ∧
    ¬ sideEntry.Reaches ⟨1⟩ sideEntry.initial ∧
    ∃ m, Strategy.edsm.score sideEntry ⟨⟨1⟩, ⟨0⟩⟩ = .ok (.compatible 0 0, m) ∧
      sideEntry.merge ⟨⟨1⟩, ⟨0⟩⟩ m = .error (.notATree ⟨1⟩) := by
  refine ⟨by decide +kernel, by decide +kernel, by decide +kernel,
    ⟨⟨⟨1⟩, ⟨0⟩⟩, [(⟨1⟩, ⟨0⟩)], false⟩, by decide +kernel, ?_⟩
  decide +kernel

end BlueFringe
