import BlueFringe.Proofs.Renaming
import BlueFringe.Proofs.TreeFolding
import BlueFringe.Scoring

/-!
# Scores of foldable pairs

A pair whose blue state has a tree below it that the red one is no part of always has a score. Apart
from a threshold, the pair is refused just if determinism forces an accepting and a rejecting state
together, and the evidence counts the states that the identification saves.
-/

namespace BlueFringe

open Std

variable {α : Type} [Ord α] [TransOrd α]

namespace Graph

/-- Determinism forces an accepting and a rejecting state into one class. -/
def Clashes (g : Graph α) (pair : StatePair) : Prop :=
  ∃ c ∈ g.forcedClasses pair.blue pair.red,
    (∃ p ∈ c, g.accepting? p = some true) ∧ ∃ q ∈ c, g.accepting? q = some false

variable {g : Graph α} {pair : StatePair}

theorem clashes_of_forced {p q : StateId} (forced : g.Forced pair.blue pair.red p q) (hp : p ∈ g)
    (hq : q ∈ g) (differ : g.accepting? p ≠ g.accepting? q) : g.Clashes pair := by
  refine ⟨g.forcedClass pair.blue pair.red p, ⟨p, hp, rfl⟩, ?_⟩
  have left : p ∈ g.forcedClass pair.blue pair.red p := ⟨hp, Forced.refl p⟩
  have right : q ∈ g.forcedClass pair.blue pair.red p := ⟨hq, forced⟩
  obtain ⟨b, hb⟩ := Option.isSome_iff_exists.mp (accepting?_isSome.mpr hp)
  obtain ⟨c, hc⟩ := Option.isSome_iff_exists.mp (accepting?_isSome.mpr hq)
  cases b <;> cases c <;> simp only [hb, hc, ne_eq, not_true_eq_false] at differ
  · exact ⟨⟨q, right, hc⟩, p, left, hb⟩
  · exact ⟨⟨p, left, hb⟩, q, right, hc⟩

theorem Renaming.clashes_iff {β : Type} [Ord β] [TransOrd β] {g' : Graph β}
    (ρ : g.Renaming g') : g'.Clashes (ρ.pair pair) ↔ g.Clashes pair := by
  unfold Clashes
  rw [show (ρ.pair pair).blue = ρ.state pair.blue from rfl,
    show (ρ.pair pair).red = ρ.state pair.red from rfl, ρ.forcedClasses_eq, Set.exists_mem_image]
  refine exists_congr fun c => and_congr_right fun _ => ?_
  simp only [Set.exists_mem_image, ρ.accepting]

variable [LawfulEqOrd α]

theorem Folds.not_clashes {m : Identification} (folds : g.Folds m) : ¬ g.Clashes m.pair := by
  rintro ⟨_, ⟨r, _, rfl⟩, ⟨p, hp, accept⟩, q, hq, reject⟩
  have same : m.image p = m.image q := folds.forced_iff.mp (hp.2.symm.trans hq.2)
  rw [← folds.accepting?_image p, same, folds.accepting?_image q, reject] at accept
  cases accept

theorem Folds.card_moved_rejecting {m : Identification} (folds : g.Folds m) :
    ((Represents.moved g m.image).filter fun q => g.accepting? q = some false).card =
      m.entries.countP fun e => g.accepting? e.1 = some false := by
  have listed : (m.replaced.toFinset.filter fun q => g.accepting? q = some false) =
      (m.replaced.filter fun q => g.accepting? q = some false).toFinset := by
    ext q
    simp
  rw [folds.moved_eq, listed, List.toFinset_card_of_nodup (folds.distinct.filter _),
    ← List.countP_eq_length_filter, Identification.replaced, List.countP_map]
  rfl

end Graph

namespace Score

variable {s s' : Score}

theorem eq_incompatible (h : s.isCompatible = false) : s = .incompatible := by
  cases s with
  | incompatible => rfl
  | compatible first second => cases h

theorem ext (h : s.isCompatible = true) (h' : s'.isCompatible = true)
    (primary : s'.primary = s.primary) (secondary : s'.secondary = s.secondary) : s' = s := by
  cases s with
  | incompatible => cases h
  | compatible first second =>
      cases s' with
      | incompatible => cases h'
      | compatible first' second' =>
          have : first' = first := Int.ofNat.inj primary
          rw [this, show second' = second from secondary]

end Score

namespace Strategy

variable {strategy : Strategy} {g : Graph α} {pair : StatePair} {s : Score} {m : Identification}

theorem score_eq_ok : strategy.score g pair = .ok (s, m) ↔ ∃ f, Folding.ofPair g pair = .ok f ∧
    s = strategy.weigh g f ∧ m = ⟨pair, f.entries, !s.isCompatible⟩ := by
  unfold score
  cases h : Folding.ofPair g pair with
  | error e => simp [bind, Except.bind]
  | ok f =>
      simp only [bind, Except.bind, pure, Except.pure, Except.ok.injEq, Prod.mk.injEq]
      constructor
      · rintro ⟨rfl, rfl⟩
        exact ⟨f, rfl, rfl, rfl⟩
      · rintro ⟨_, rfl, rfl, rfl⟩
        exact ⟨rfl, rfl⟩

variable [LawfulEqOrd α]

/-- Only pairs of states have scores, and only if the blue one does not lead to the red one. -/
theorem of_score (h : strategy.score g pair = .ok (s, m)) : pair.blue ∈ g ∧ pair.red ∈ g ∧
    pair.blue ≠ pair.red ∧ ¬ g.Reaches pair.blue pair.red := by
  obtain ⟨f, folded, _⟩ := score_eq_ok.mp h
  obtain ⟨blue, red, distinct, apart, _⟩ := Folding.ofPair_eq_ok.mp folded
  exact ⟨blue, red, distinct, apart⟩

theorem mem_of_score (h : strategy.score g pair = .ok (s, m)) : pair.blue ∈ g ∧ pair.red ∈ g :=
  ⟨(of_score h).1, (of_score h).2.1⟩

theorem exists_score (foldable : g.Foldable pair) (strategy : Strategy) :
    ∃ s m, strategy.score g pair = .ok (s, m) := by
  obtain ⟨f, hf⟩ := Folding.exists_ofPair foldable
  exact ⟨_, _, score_eq_ok.mpr ⟨f, hf, rfl, rfl⟩⟩

/-- A pair is scored by a finished folding, or it is refused for two states that are forced together
and differ in acceptance. -/
theorem score_cases (foldable : g.Foldable pair) (h : strategy.score g pair = .ok (s, m)) :
    (g.Folds m ∧ m.pair = pair ∧ m.rejected = !s.isCompatible ∧ ∃ f : Folding α,
        s = strategy.weigh g f ∧ f.clash = none ∧ f.matched = m.size - 1 ∧
          f.rejecting g = m.entries.countP fun e => g.accepting? e.1 = some false) ∨
      (s = .incompatible ∧ g.Clashes pair) := by
  obtain ⟨f, hf, hs, rfl⟩ := score_eq_ok.mp h
  obtain ⟨f₀, walk, ⟨rfl, ended⟩ | ⟨q, r, rest, hp, differ, rfl⟩⟩ :=
    Folding.exists_walk_of_ofPair hf
  · refine Or.inl ⟨walk.folds ended foldable _, rfl, rfl, f, hs, walk.booked.unclashed, rfl, ?_⟩
    rw [Folding.rejecting, Folding.entries, ended, List.append_nil, Array.countP_toList]
  · refine Or.inr ⟨by simp [hs, weigh], ?_⟩
    have entry : (q, r) ∈ f₀.entries := by
      rw [Folding.entries, hp]
      exact List.mem_append_right _ List.mem_cons_self
    have forced := walk.forced _ entry
    have hq := foldable.closed.mem_of_reaches foldable.blue_mem (walk.reaches _ entry)
    refine Graph.clashes_of_forced forced hq ?_ differ
    rcases forced.eq_or_mem foldable.closed foldable.blue_mem foldable.red_mem with he | hm
    · have same : q = r := he
      exact same ▸ hq
    · exact hm.2

/-- Whoever may merge a pair has an identification that folds it. -/
theorem folds_of_compatible (foldable : g.Foldable pair) (h : strategy.score g pair = .ok (s, m))
    (compatible : s.isCompatible = true) : g.Folds m ∧ m.pair = pair ∧ m.rejected = false := by
  rcases score_cases foldable h with ⟨folds, same, rejected, _⟩ | ⟨rfl, _⟩
  · exact ⟨folds, same, by rw [rejected, compatible]; rfl⟩
  · cases compatible

theorem isCompatible_eq_false_iff (foldable : g.Foldable pair)
    (lenient : strategy = .edsm ∨ strategy = .rpni) (h : strategy.score g pair = .ok (s, m)) :
    s.isCompatible = false ↔ g.Clashes pair := by
  rcases score_cases foldable h with ⟨folds, same, _, f, rfl, unclashed, _⟩ | ⟨rfl, clashes⟩
  · have none_clash : ¬ g.Clashes pair := same ▸ folds.not_clashes
    rcases lenient with rfl | rfl <;> simp [weigh, unclashed, Score.isCompatible, none_clash]
  · simp [Score.isCompatible, clashes]

/-- The evidence for a pair, read off the classes. -/
theorem edsm_eq (foldable : g.Foldable pair) (h : edsm.score g pair = .ok (s, m))
    (compatible : s.isCompatible = true) :
    s.primary = g.size - (g.forcedClasses pair.blue pair.red).ncard - 1 ∧
      s.secondary = (∑ᶠ c ∈ g.rejectingClasses pair.blue pair.red, (c.ncard - 1) : Nat) := by
  rcases score_cases foldable h with
    ⟨folds, rfl, _, f, rfl, unclashed, matched, rejecting⟩ | ⟨rfl, _⟩
  · have counted := Graph.Represents.card_fixed_add_card_moved g m.image
    have nonempty : 0 < m.size := List.length_pos_of_mem folds.pair_mem
    rw [folds.card_moved] at counted
    rw [folds.represents.ncard_forcedClasses, folds.represents.finsum_rejectingClasses
      fun q _ => folds.accepting?_image q, folds.card_moved_rejecting]
    simp only [weigh, unclashed, Option.isSome_none, Bool.false_eq_true, if_false, Score.primary,
      Score.secondary, matched, rejecting, and_true]
    omega
  · cases compatible

theorem edsm_renaming {β : Type} [Ord β] [TransOrd β] [LawfulEqOrd β] {g' : Graph β}
    (foldable : g.Foldable pair) (ρ : g.Renaming g') :
    ∃ s m m', edsm.score g pair = .ok (s, m) ∧ edsm.score g' (ρ.pair pair) = .ok (s, m') := by
  have foldable' : g'.Foldable (ρ.pair pair) :=
    ⟨ρ.closed foldable.closed, ρ.mem_iff.mpr foldable.blue_mem, ρ.mem_iff.mpr foldable.red_mem,
      fun h => foldable.apart (ρ.reaches_iff.mp h), ρ.treeFrom foldable.tree⟩
  obtain ⟨s, m, h⟩ := exists_score foldable edsm
  obtain ⟨s', m', h'⟩ := exists_score foldable' edsm
  have refused : s'.isCompatible = false ↔ s.isCompatible = false := by
    rw [isCompatible_eq_false_iff foldable' (Or.inl rfl) h',
      isCompatible_eq_false_iff foldable (Or.inl rfl) h]
    exact ρ.clashes_iff
  refine ⟨s, m, m', h, ?_⟩
  rw [h']
  cases hs : s.isCompatible with
  | false => rw [Score.eq_incompatible hs, Score.eq_incompatible (refused.mpr hs)]
  | true =>
      have hs' : s'.isCompatible = true := by
        rw [← Bool.not_eq_false, refused, hs]
        decide
      obtain ⟨first, second⟩ := edsm_eq foldable h hs
      obtain ⟨first', second'⟩ := edsm_eq foldable' h' hs'
      rw [show (ρ.pair pair).blue = ρ.state pair.blue from rfl,
        show (ρ.pair pair).red = ρ.state pair.red from rfl] at first' second'
      rw [ρ.size_eq, ρ.ncard_forcedClasses_eq, ← first] at first'
      rw [ρ.finsum_rejectingClasses_eq, ← second] at second'
      rw [Score.ext hs hs' first' second']

end Strategy

/-- Scoring a foldable pair never fails and decides exactly whether it can be merged; the evidence
is given by the classes that determinism forces, so it does not depend on names. -/
theorem score_decides_mergeability [LawfulEqOrd α] (g : Graph α) (pair : StatePair)
    (closed : g.Closed) (blue_mem : pair.blue ∈ g) (red_mem : pair.red ∈ g)
    (apart : ¬ g.Reaches pair.blue pair.red) (tree : g.isTreeFrom pair.blue = true) :
    (∀ strategy : Strategy, ∃ s m, strategy.score g pair = .ok (s, m)) ∧
      (∀ (strategy : Strategy) s m, strategy = .edsm ∨ strategy = .rpni →
        strategy.score g pair = .ok (s, m) → (s.isCompatible = false ↔ g.Clashes pair)) ∧
      (∀ s m, Strategy.edsm.score g pair = .ok (s, m) → s.isCompatible = true →
        s.primary = g.size - (g.forcedClasses pair.blue pair.red).ncard - 1 ∧
          s.secondary = (∑ᶠ c ∈ g.rejectingClasses pair.blue pair.red, (c.ncard - 1) : Nat)) ∧
      ∀ (β : Type) [Ord β] [TransOrd β] [LawfulEqOrd β] (g' : Graph β) (ρ : g.Renaming g'),
        ∃ s m m', Strategy.edsm.score g pair = .ok (s, m) ∧
          Strategy.edsm.score g' (ρ.pair pair) = .ok (s, m') := by
  have foldable : g.Foldable pair :=
    ⟨closed, blue_mem, red_mem, apart, Graph.isTreeFrom_iff.mp tree⟩
  refine ⟨Strategy.exists_score foldable, ?_, ?_, ?_⟩
  · intro strategy s m lenient h
    exact Strategy.isCompatible_eq_false_iff foldable lenient h
  · intro s m h compatible
    exact Strategy.edsm_eq foldable h compatible
  · intro β _ _ _ g' ρ
    exact Strategy.edsm_renaming foldable ρ

/-- A tree in which the state 1 folds into the root along a cycle: below it the label 1 leads back
to the root, 2 leads to rejecting states, and 3 has to be handed over. -/
def sapling : Graph Nat :=
  [(0, 1, 1, true), (0, 1, 2, false), (1, 2, 1, true), (1, 2, 2, false), (3, 3, 1, true),
    (3, 3, 2, false), (1, 2, 3, true), (3, 3, 3, true)].foldl
    (fun g (parent, depth, label, accepting) => g.sprout ⟨parent⟩ depth label accepting)
    (Graph.single true)

/-- What the state 1 of the sapling and those below it are folded into. -/
def saplingFold : Identification :=
  ⟨⟨⟨1⟩, ⟨0⟩⟩, [(⟨1⟩, ⟨0⟩), (⟨3⟩, ⟨0⟩), (⟨4⟩, ⟨2⟩), (⟨5⟩, ⟨0⟩), (⟨6⟩, ⟨2⟩), (⟨8⟩, ⟨7⟩)], false⟩

theorem sapling_mergeable :
    sapling.Closed ∧ ⟨1⟩ ∈ sapling ∧ ⟨0⟩ ∈ sapling ∧ ¬ sapling.Reaches ⟨1⟩ ⟨0⟩ ∧
      sapling.isTreeFrom ⟨1⟩ = true ∧ ¬ sapling.Clashes ⟨⟨1⟩, ⟨0⟩⟩ ∧
      (5 : Int) = sapling.size - (sapling.forcedClasses ⟨1⟩ ⟨0⟩).ncard - 1 ∧
      (2 : Int) = (∑ᶠ c ∈ sapling.rejectingClasses ⟨1⟩ ⟨0⟩, (c.ncard - 1) : Nat) := by
  have closed : sapling.Closed := by decide +kernel
  have blue : ⟨1⟩ ∈ sapling := by decide +kernel
  have red : ⟨0⟩ ∈ sapling := by decide +kernel
  have apart : ¬ sapling.Reaches ⟨1⟩ ⟨0⟩ := by decide +kernel
  have tree : sapling.isTreeFrom ⟨1⟩ = true := by decide +kernel
  obtain ⟨_, decides, counts, _⟩ :=
    score_decides_mergeability sapling ⟨⟨1⟩, ⟨0⟩⟩ closed blue red apart tree
  have scored : Strategy.edsm.score sapling ⟨⟨1⟩, ⟨0⟩⟩ =
      .ok (.compatible 5 2, ⟨⟨⟨1⟩, ⟨0⟩⟩, [(⟨1⟩, ⟨0⟩), (⟨3⟩, ⟨0⟩), (⟨4⟩, ⟨2⟩), (⟨5⟩, ⟨0⟩),
        (⟨6⟩, ⟨2⟩), (⟨8⟩, ⟨7⟩)], false⟩) := by decide +kernel
  obtain ⟨first, second⟩ := counts _ _ scored rfl
  refine ⟨closed, blue, red, apart, tree, fun clashes => ?_, first, second⟩
  exact absurd ((decides .edsm _ _ (Or.inl rfl) scored).mpr clashes) (by decide)

end BlueFringe
