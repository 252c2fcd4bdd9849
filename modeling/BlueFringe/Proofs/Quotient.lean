import BlueFringe.Proofs.Merging
import BlueFringe.Proofs.Partitions

/-!
# Merged graphs are quotients

The image of a state under the identification of a merge is a homomorphism onto the merged graph:
its transitions are the images of transitions, so runs have images and a trim graph stays trim. The
classes of the identification are those classes of the kernel that have more than one member, and
each of them leaves one state behind.
-/

namespace BlueFringe

open Std

variable {α : Type} [Ord α] [TransOrd α] [LawfulEqOrd α]

namespace Graph.Merges

variable {g merged : Graph α} {m : Identification} (merges : g.Merges m merged)
  {q p r t : StateId} {a : α} {w : Word α}
include merges

/-! ### States -/

theorem mem_iff : q ∈ merged ↔ q ∈ g ∧ m.image q = q := by
  rw [merges.mem]
  refine and_congr_right fun hq => ⟨Identification.image_of_notMem, fun fixed => ?_⟩
  exact fixed ▸ merges.image_kept q

theorem image_mem_merged (hq : q ∈ g) : m.image q ∈ merged :=
  merges.mem_iff.mpr ⟨merges.image_mem hq, merges.image_idem q⟩

theorem size_add_size : merged.size + m.size = g.size := by
  have survivors : merged.stateIds.toFinset = Represents.fixed g m.image := by
    ext q
    rw [List.mem_toFinset, mem_stateIds, merges.mem_iff, Represents.mem_fixed]
  have counted := Represents.card_fixed_add_card_moved g m.image
  rwa [merges.card_moved, ← survivors, List.toFinset_card_of_nodup nodup_stateIds,
    length_stateIds] at counted

/-! ### Transitions -/

/-- A transition of the merged graph was there before, or it was redirected from the blue state to
the red one, or it was taken over from a state that was replaced. -/
theorem transition_cases (h : merged.transition q a = some p) :
    g.transition q a = some p ∨ (g.transition q a = some m.pair.blue ∧ p = m.pair.red) ∨
      ∃ s, s ∈ m.replaced ∧ m.image s = q ∧ g.transition s a = some p ∧ p ∉ m.replaced := by
  rw [merges.transition q (mem_of_transition h), foldedTarget_eq] at h
  obtain ⟨t, ht, rfl⟩ := Option.map_eq_some_iff.mp h
  rcases Option.or_eq_some_iff.mp ht with hd | ⟨_, hh⟩
  · by_cases hb : t = m.pair.blue
    · rw [StatePair.redirect, if_pos hb]
      exact Or.inr (Or.inl ⟨hb ▸ hd, rfl⟩)
    · rw [StatePair.redirect, if_neg hb]
      exact Or.inl hd
  · have kept := merges.kept q a t hh
    obtain ⟨o, ho, rfl, rfl, rfl⟩ := exists_of_firstOffer (heir_eq_some.mp hh).2
    obtain ⟨he, ha⟩ := mem_offers.mp ho
    rw [merges.redirect_of_kept kept]
    exact Or.inr (Or.inr ⟨o.source, Identification.mem_replaced he,
      Identification.image_of_mem merges.distinct he, ha, kept⟩)

theorem transition_image (ha : g.transition q a = some p) :
    merged.transition (m.image q) a = some (m.image p) := by
  rw [merges.transition _ (merges.image_mem_merged (mem_of_transition ha))]
  exact merges.foldedTarget_image ha

theorem transition_iff : merged.transition q a = some p ↔
    ∃ x y, g.transition x a = some y ∧ m.image x = q ∧ m.image y = p := by
  constructor
  · intro h
    obtain ⟨x, y, ha, hq⟩ : ∃ x y, g.transition x a = some y ∧ m.image x = q := by
      have own := (merges.mem_iff.mp (mem_of_transition h)).2
      rcases merges.transition_cases h with hd | ⟨hd, _⟩ | ⟨s, _, hs, ha, _⟩
      · exact ⟨q, p, hd, own⟩
      · exact ⟨q, m.pair.blue, hd, own⟩
      · exact ⟨s, p, ha, hs⟩
    have same := merges.transition_image ha
    rw [hq, h] at same
    exact ⟨x, y, ha, hq, (Option.some.inj same).symm⟩
  · rintro ⟨x, y, ha, rfl, rfl⟩
    exact merges.transition_image ha

theorem closed_merged : merged.Closed := by
  intro q a p h
  obtain ⟨x, y, ha, _, rfl⟩ := merges.transition_iff.mp h
  exact merges.image_mem_merged (merges.closed x a y ha)

/-! ### Runs -/

theorem runFrom_image (h : g.runFrom q w = some p) :
    merged.runFrom (m.image q) w = some (m.image p) := by
  induction w generalizing q with
  | nil => rw [← Option.some.inj h, runFrom_nil]
  | cons a w ih =>
      rw [runFrom_cons, Option.bind_eq_some_iff] at h ⊢
      obtain ⟨r, ha, hw⟩ := h
      exact ⟨m.image r, merges.transition_image ha, ih hw⟩

theorem accepting?_image_merged (hq : q ∈ g) :
    merged.accepting? (m.image q) = g.accepting? q := by
  rw [merges.accepting _ (merges.image_mem_merged hq)]
  exact merges.accepting?_image q

variable (initial : g.initial ∈ merged)
include initial

theorem run_image (h : g.run w = some p) : merged.run w = some (m.image p) := by
  rw [run, merges.initial, ← (merges.mem_iff.mp initial).2]
  exact merges.runFrom_image h

theorem isTrim_merged (trim : g.isTrim = true) : merged.isTrim = true := by
  obtain ⟨present, _⟩ := merges.mem_iff.mp initial
  have reached := (isTrim_iff merges.closed present).mp trim
  rw [isTrim_iff merges.closed_merged (merges.initial ▸ initial)]
  intro q hq
  obtain ⟨hg, own⟩ := merges.mem_iff.mp hq
  obtain ⟨w, hw⟩ := reached q hg
  exact ⟨w, own ▸ merges.run_image initial hw⟩

end Graph.Merges

/-! ### Classes -/

namespace Graph.Folds

variable {g : Graph α} {m : Identification} (folds : g.Folds m) {q p r : StateId}
include folds

theorem representative?_eq_none : m.representative? q = none ↔ q ∉ m.replaced := by
  constructor
  · intro h hq
    obtain ⟨r, hr⟩ := Identification.exists_entry hq
    have same := Identification.image_of_mem folds.distinct hr
    rw [Identification.image, h, Option.getD_none] at same
    exact folds.taker_kept hr (same ▸ hq)
  · intro h
    rw [Identification.representative?, List.lookup_eq_none_iff]
    intro e he
    exact bne_iff_ne.mpr fun hq => h (List.mem_map.mpr ⟨e, he, hq.symm⟩)

theorem representative?_taker (h : m.representative? q = some r) : m.representative? r = none := by
  have image : m.image q = r := by rw [Identification.image, h, Option.getD_some]
  rw [folds.representative?_eq_none, ← image]
  exact folds.image_kept q

/-- The states that an identification names are those that share their image with another one. -/
theorem mem_members : p ∈ m.entries.map (·.2) ++ m.entries.map (·.1) ↔
    p ∈ g ∧ ∃ q ∈ g, q ≠ p ∧ m.image q = m.image p := by
  have related : ∀ e ∈ m.entries, e.1 ∈ g ∧ e.2 ∈ g ∧ e.1 ≠ e.2 ∧ m.image e.1 = m.image e.2 := by
    intro e he
    have source := Identification.mem_replaced he
    have taker := folds.taker_kept he
    have image := Identification.image_of_mem folds.distinct he
    refine ⟨folds.replaced_mem source, ?_, fun h => taker (h ▸ source), ?_⟩
    · exact image ▸ folds.image_mem (folds.replaced_mem source)
    · rw [image, Identification.image_of_notMem taker]
  rw [List.mem_append, List.mem_map, List.mem_map]
  constructor
  · rintro (⟨e, he, rfl⟩ | ⟨e, he, rfl⟩) <;> obtain ⟨source, taker, ne, same⟩ := related e he
    · exact ⟨taker, e.1, source, ne, same⟩
    · exact ⟨source, e.2, taker, ne.symm, same.symm⟩
  · rintro ⟨_, q, _, ne, same⟩
    by_cases hp : p ∈ m.replaced
    · exact Or.inr (List.mem_map.mp hp)
    · rw [Identification.image_of_notMem hp] at same
      by_cases hq : q ∈ m.replaced
      · obtain ⟨r, hr⟩ := Identification.exists_entry hq
        rw [Identification.image_of_mem folds.distinct hr] at same
        exact Or.inl ⟨(q, r), hr, same⟩
      · rw [Identification.image_of_notMem hq] at same
        exact absurd same ne

/-- The classes of an identification are the classes of states with one image, as far as they have
more than one member. -/
theorem mem_classes {members : ExtTreeSet StateId compare} : members ∈ m.classes.classes ↔
    ∃ q ∈ g, (∃ p ∈ g, p ≠ q ∧ m.image p = m.image q) ∧
      ∀ p, p ∈ members ↔ p ∈ g ∧ m.image p = m.image q := by
  rw [Identification.classes, Partition.mem_classes_groupBy]
  have listed : ∀ q, q ∈ m.entries.map (·.2) ++ m.entries.map (·.1) → ∀ p,
      p ∈ collect compare ((m.entries.map (·.2) ++ m.entries.map (·.1)).filter
        fun y => m.image y = m.image q) ↔ p ∈ g ∧ m.image p = m.image q := by
    intro q hq p
    rw [mem_collect, List.mem_filter, decide_eq_true_eq, folds.mem_members]
    refine and_congr_left fun same => and_iff_left_of_imp fun _ => ?_
    obtain ⟨hg, r, hr, ne, shared⟩ := folds.mem_members.mp hq
    by_cases hpq : p = q
    · exact ⟨r, hr, hpq ▸ ne, shared.trans same.symm⟩
    · exact ⟨q, hg, Ne.symm hpq, same.symm⟩
  constructor
  · rintro ⟨q, hq, rfl⟩
    obtain ⟨hg, other⟩ := folds.mem_members.mp hq
    exact ⟨q, hg, other, listed q hq⟩
  · rintro ⟨q, hg, other, exact_members⟩
    have hq := folds.mem_members.mpr ⟨hg, other⟩
    refine ⟨q, hq, ExtTreeSet.ext_mem fun p => ?_⟩
    rw [exact_members, listed q hq]

end Graph.Folds

theorem Graph.Merges.existsUnique_survivor {g merged : Graph α} {m : Identification}
    (merges : g.Merges m merged) {members : ExtTreeSet StateId compare}
    (h : members ∈ m.classes.classes) : ∃! q, q ∈ members ∧ q ∈ merged := by
  obtain ⟨q, hq, _, exact_members⟩ := merges.toFolds.mem_classes.mp h
  refine ⟨m.image q, ⟨(exact_members _).mpr ⟨merges.image_mem hq, merges.image_idem q⟩,
    merges.image_mem_merged hq⟩, ?_⟩
  rintro p ⟨hp, survives⟩
  rw [← (merges.mem_iff.mp survives).2]
  exact ((exact_members p).mp hp).2

/-! ### The quotient -/

/-- A compatible pair merges, unless the initial state hangs below the blue one. -/
theorem Strategy.exists_merges {g : Graph α} {pair : StatePair} {strategy : Strategy} {s : Score}
    {m : Identification} (closed : g.Closed) (initial : g.initial ∈ g)
    (tree : g.isTreeFrom pair.blue = true) (rooted : ¬ g.Reaches pair.blue g.initial)
    (scored : strategy.score g pair = .ok (s, m)) (compatible : s.isCompatible = true) :
    ∃ merged, g.merge pair m = .ok merged ∧ g.Merges m merged ∧ g.initial ∈ merged := by
  obtain ⟨blue_mem, red_mem, _, apart⟩ := of_score scored
  have foldable : g.Foldable pair :=
    ⟨closed, blue_mem, red_mem, apart, Graph.isTreeFrom_iff.mp tree⟩
  obtain ⟨folds, rfl, unrejected⟩ := folds_of_compatible foldable scored compatible
  obtain ⟨merged, made, merges⟩ := folds.exists_merge unrejected initial rooted
  have kept : g.initial ∉ m.replaced := fun h => rooted (folds.reaches_of_replaced h)
  exact ⟨merged, made, merges, (merges.mem _).mpr ⟨initial, kept⟩⟩

/-- A merge by the identification of a compatible pair succeeds, and what it makes is the quotient
of the graph by the kernel of the identification. -/
theorem merge_is_quotient (g : Graph α) (pair : StatePair) (strategy : Strategy) (s : Score)
    (m : Identification) (closed : g.Closed) (initial : g.initial ∈ g)
    (apart : ¬ g.Reaches pair.blue pair.red) (tree : g.isTreeFrom pair.blue = true)
    (rooted : ¬ g.Reaches pair.blue g.initial) (scored : strategy.score g pair = .ok (s, m))
    (compatible : s.isCompatible = true) :
    ∃ merged, g.merge pair m = .ok merged ∧ merged.initial = g.initial ∧
      (∀ q r, m.representative? q = some r → m.representative? r = none) ∧
      (∀ q, q ∈ merged ↔ q ∈ g ∧ m.representative? q = none) ∧
      (∀ q a p, merged.transition q a = some p ↔
        ∃ x y, g.transition x a = some y ∧ m.image x = q ∧ m.image y = p) ∧
      (∀ q, g.accepting? q = g.accepting? (m.image q)) ∧
      (∀ q ∈ merged, merged.accepting? q = g.accepting? q) ∧
      m.classes.classes.Nodup ∧
      (∀ members, members ∈ m.classes.classes ↔
        ∃ q ∈ g, (∃ p ∈ g, p ≠ q ∧ m.image p = m.image q) ∧
          ∀ p, p ∈ members ↔ p ∈ g ∧ m.image p = m.image q) ∧
      (∀ members ∈ m.classes.classes, ∃! q, q ∈ members ∧ q ∈ merged) ∧
      merged.size + m.size = g.size ∧ (g.isTrim = true → merged.isTrim = true) := by
  obtain ⟨blue_mem, red_mem⟩ := Strategy.mem_of_score scored
  have foldable : g.Foldable pair :=
    ⟨closed, blue_mem, red_mem, apart, Graph.isTreeFrom_iff.mp tree⟩
  obtain ⟨folds, rfl, unrejected⟩ := Strategy.folds_of_compatible foldable scored compatible
  obtain ⟨merged, made, merges⟩ := folds.exists_merge unrejected initial rooted
  have present : g.initial ∈ merged :=
    (merges.mem _).mpr ⟨initial, fun h => rooted (folds.reaches_of_replaced h)⟩
  refine ⟨merged, made, merges.initial, fun q r => folds.representative?_taker, fun q => ?_,
    fun q a p => merges.transition_iff, fun q => (folds.accepting?_image q).symm,
    merges.accepting, Partition.nodup_classes_groupBy _ _, fun members => folds.mem_classes,
    fun members => merges.existsUnique_survivor, merges.size_add_size,
    merges.isTrim_merged present⟩
  rw [merges.mem, folds.representative?_eq_none]

theorem sapling_merged : ∃ m : Identification,
    Strategy.edsm.score sapling ⟨⟨1⟩, ⟨0⟩⟩ = .ok (.compatible 5 2, m) ∧ m.size = 6 ∧
      ∃ merged, sapling.merge ⟨⟨1⟩, ⟨0⟩⟩ m = .ok merged ∧ merged.size + 6 = sapling.size ∧
        merged.isTrim = true := by
  have scored : Strategy.edsm.score sapling ⟨⟨1⟩, ⟨0⟩⟩ =
      .ok (.compatible 5 2, ⟨⟨⟨1⟩, ⟨0⟩⟩, [(⟨1⟩, ⟨0⟩), (⟨3⟩, ⟨0⟩), (⟨4⟩, ⟨2⟩), (⟨5⟩, ⟨0⟩),
        (⟨6⟩, ⟨2⟩), (⟨8⟩, ⟨7⟩)], false⟩) := by decide +kernel
  obtain ⟨merged, made, _, _, _, _, _, _, _, _, _, counted, trim⟩ :=
    merge_is_quotient sapling ⟨⟨1⟩, ⟨0⟩⟩ .edsm _ _ (by decide +kernel) (by decide +kernel)
      (by decide +kernel) (by decide +kernel) (by decide +kernel) scored rfl
  exact ⟨_, scored, rfl, merged, made, counted, trim (by decide +kernel)⟩

end BlueFringe
