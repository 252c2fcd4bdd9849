import BlueFringe.Proofs.Recovery
import BlueFringe.Proofs.SuiteSample

/-!
# Suites teach their reference

A suite starts from the least words to all states and ends with words that separate them, and these
are closed under taking labels off at the front. So its sample is characteristic, provided that the
words of the state cover are accepted. If one of them passes a rejecting state, all that follows in
the suite is cut off, and the search may come to something else.
-/

namespace BlueFringe

open Std

variable {α : Type} [Ord α] [TransOrd α]

theorem Word.shortlex_cons {a : α} {v w : Word α} :
    Word.shortlex (a :: v) (a :: w) = Word.shortlex v w := by
  simp [shortlex, compareLex, compareOn, List.compare_cons_cons, Nat.compare_eq_ite_lt]

theorem Graph.tail_of_least [LawfulEqOrd α] {g : Graph α} {p q : StateId} {a : α} {w : Word α}
    (least : Word.Least (g.Separates p g q) (a :: w)) :
    w = [] ∨ ∃ p' q', g.transition p a = some p' ∧ g.transition q a = some q' ∧
      Word.Least (g.Separates p' g q') w := by
  by_cases short : g.Separates p g q [a]
  · have le := least.length_le short
    rw [List.length_cons, List.length_singleton] at le
    exact .inl (List.length_eq_zero_iff.mp (by omega))
  · -- Both states go on with the first label, so the rest of the word separates the targets.
    right
    rw [separates_iff, not_not] at short
    have cut : ∀ {r}, g.acceptsFrom r [a] = false → ∀ v, g.acceptsFrom r (a :: v) = false := by
      intro r no v
      rw [← Bool.not_eq_true] at no ⊢
      exact fun yes => no (acceptsFrom_of_append (v := [a]) (w := v) yes)
    cases accepted : g.acceptsFrom q [a] with
    | false =>
        have apart := separates_iff.mp least.1
        rw [cut accepted, cut (short.trans accepted)] at apart
        exact absurd rfl apart
    | true =>
        rw [accepted] at short
        rw [← liveRun_isSome, Option.isSome_iff_exists] at short accepted
        obtain ⟨p', hp⟩ := short
        obtain ⟨q', hq⟩ := accepted
        have behind : ∀ v, g.Separates p g q (a :: v) ↔ g.Separates p' g q' v := by
          intro v
          rw [separates_iff, separates_iff, ← acceptsFrom_append_of_liveRun hp,
            ← acceptsFrom_append_of_liveRun hq]
          rfl
        have target : ∀ {r r'}, g.liveRun r [a] = some r' → g.transition r a = some r' := by
          intro r r' leads
          simpa using (liveRun_eq_some.mp leads).2
        refine ⟨p', q', target hp, target hq, (behind w).mp least.1, fun v separates => ?_⟩
        have le := least.2 (a :: v) ((behind v).mpr separates)
        rwa [Word.shortlex_cons] at le

namespace Conformance

open BlueFringe.Graph

variable [LawfulEqOrd α] {c : Conformance α} {g : Graph α} {tests endings words : List (Word α)}
  {a : α} {u v w : Word α} {p q : StateId}

/-! ### Endings -/

theorem mem_separators {states : List StateId} (made : separators g states = .ok words) :
    w ∈ words ↔ ∃ p ∈ states, ∃ q ∈ states, g.separate p g q = some w := by
  induction states generalizing words with
  | nil =>
      obtain rfl := Except.ok.inj made
      simp
  | cons r rest ih =>
      rw [separators, bind_eq_ok] at made
      obtain ⟨here, first, made⟩ := made
      obtain ⟨later, others, made⟩ := bind_eq_ok.mp made
      obtain rfl := Except.ok.inj made
      have against : w ∈ here ↔ ∃ q ∈ rest, g.separate r g q = some w := by
        rw [mem_of_mapM_eq_ok first]
        refine exists_congr fun q => and_congr_right fun _ => ?_
        cases g.separate r g q <;> simp
      have same : g.separate r g r = none := separate_eq_none_iff.mpr rfl
      rw [List.mem_append, against, ih others]
      constructor
      · rintro (⟨q, hq, least⟩ | ⟨p, hp, q, hq, least⟩)
        · exact ⟨r, List.mem_cons_self, q, List.mem_cons_of_mem r hq, least⟩
        · exact ⟨p, List.mem_cons_of_mem r hp, q, List.mem_cons_of_mem r hq, least⟩
      · rintro ⟨p, hp, q, hq, least⟩
        rcases List.mem_cons.mp hp with rfl | hp' <;> rcases List.mem_cons.mp hq with rfl | hq'
        · rw [same] at least
          cases least
        · exact .inl ⟨q, hq', least⟩
        · exact .inl ⟨p, hp', separate_comm.trans least⟩
        · exact .inr ⟨p, hp', q, hq', least⟩

theorem mem_characterisation (made : c.characterisation = .ok endings) :
    w ∈ endings ↔ w = [] ∨ ∃ p q, c.reference.Reaches c.reference.initial p ∧
      c.reference.Reaches c.reference.initial q ∧
        c.reference.separate p c.reference q = some w := by
  rw [characterisation] at made
  obtain ⟨words, separated, made⟩ := bind_eq_ok.mp made
  obtain rfl := Except.ok.inj made
  rw [Word.mem_arrange, List.mem_cons, mem_separators separated]
  simp only [mem_sortBy, mem_reachable, exists_and_left]

theorem ending_of_append (made : c.characterisation = .ok endings) (mem : u ++ w ∈ endings) :
    w ∈ endings := by
  induction u with
  | nil => exact mem
  | cons a u ih =>
      refine ih ?_
      rcases (mem_characterisation made).mp mem with none_left | ⟨p, q, hp, hq, least⟩
      · cases none_left
      · rcases tail_of_least (separate_eq_some_iff.mp least) with short | ⟨p', q', ha, ha', least'⟩
        · exact (mem_characterisation made).mpr (.inl short)
        · exact (mem_characterisation made).mpr
            (.inr ⟨p', q', hp.tail ha, hq.tail ha', separate_eq_some_iff.mpr least'⟩)

/-! ### The evidence in a suite -/

/-- The words of the state cover that are accepted. -/
def liveCover (c : Conformance α) : Set (Word α) :=
  {v | v ∈ c.stateCover ∧ c.reference.accepts v = true}

/-- The prefixes of test words up to the first rejection. -/
def observations (c : Conformance α) (tests : List (Word α)) : Set (Word α) :=
  {w | c.Observable w ∧ ∃ t ∈ tests, w <+: t}

omit [LawfulEqOrd α] in
theorem mem_observations_of_prefix (mem : v ++ w ∈ tests)
    (accepted : c.reference.accepts v = true) : v ∈ c.observations tests :=
  ⟨observable_of_accepts accepted, _, mem, List.prefix_append v w⟩

theorem single_of_mem_liveCover (hv : v ∈ c.liveCover) (hw : w ∈ c.liveCover)
    (same : c.reference.landing v = c.reference.landing w) : v = w := by
  obtain ⟨⟨p, leastV⟩, accepted⟩ := And.imp_left mem_stateCover.mp hv
  obtain ⟨⟨q, leastW⟩, accepted'⟩ := And.imp_left mem_stateCover.mp hw
  have leads : c.reference.landing v = some p := liveRun_eq_some.mpr ⟨accepted, leastV.1⟩
  have leads' : c.reference.landing w = some q := liveRun_eq_some.mpr ⟨accepted', leastW.1⟩
  obtain rfl := Option.some.inj (leads.symm.trans (same.trans leads'))
  exact leastV.unique leastW

theorem prefixClosed_liveCover : PrefixClosed c.liveCover := by
  rintro v w ⟨mem, accepted⟩
  obtain ⟨q, least⟩ := mem_stateCover.mp mem
  exact ⟨mem_stateCover.mpr least.of_append, acceptsFrom_of_append accepted⟩

theorem mem_stems_of_mem_kernel (mem : v ∈ kernel c.liveCover)
    (accepted : c.reference.accepts v = true) : v ∈ c.stems (c.extraStates + 1) := by
  rcases mem with ⟨mem, -⟩ | ⟨u, ⟨mem, -⟩, a, rfl⟩
  · exact mem_stems_of_cover mem
  · refine concat_mem_stems (mem_stems_of_cover mem) ?_
    exact mem_alphabet_of_acceptsFrom accepted List.mem_concat_self

omit [LawfulEqOrd α] in
theorem exists_observations (mem : v ++ u ∈ tests) (mem' : w ++ u ∈ tests)
    (accepted : c.reference.accepts w = true) (left : c.reference.accepts (v ++ u) = true)
    (right : c.reference.accepts (w ++ u) = false) :
    ∃ x, v ++ x ∈ c.observations tests ∧ w ++ x ∈ c.observations tests ∧
      c.reference.accepts (v ++ x) = true ∧ c.reference.accepts (w ++ x) = false := by
  -- The one word is cut where it is rejected for the first time, the other one at the same place.
  obtain ⟨first, observable⟩ := prefix_truncate_iff.mp (List.prefix_refl (c.truncate (w ++ u)))
  have behind : w <+: c.truncate (w ++ u) :=
    prefix_truncate_iff.mpr ⟨List.prefix_append w u, observable_of_accepts accepted⟩
  have rejected : c.reference.accepts (c.truncate (w ++ u)) = false :=
    acceptsFrom_truncateFrom.trans right
  obtain ⟨x, split⟩ := behind
  rw [← split] at first observable rejected
  obtain ⟨y, rfl⟩ := (List.prefix_append_right_inj w).mp first
  rw [← List.append_assoc] at mem left
  have still := acceptsFrom_of_append left
  exact ⟨x, mem_observations_of_prefix mem still, ⟨observable, _, mem', first⟩, still, rejected⟩

/-- The suite shows behind each word of the cover what it shows behind any other word to the same
state. -/
theorem observations_shift (made : c.testSet = .ok tests) (cover : v ∈ c.liveCover)
    (same : c.reference.landing v = c.reference.landing u)
    (mem : u ++ w ∈ c.observations tests) : v ++ w ∈ c.observations tests := by
  obtain ⟨observable, t, ht, tested⟩ := mem
  obtain ⟨z, split⟩ := id tested
  obtain ⟨endings, characterised, members⟩ := testSet_eq_ok made
  refine ⟨fun x first ne => ?_, ?_⟩
  · rcases List.prefix_or_prefix_of_prefix first (List.prefix_append v w) with ⟨y, rfl⟩ | ⟨y, rfl⟩
    · exact acceptsFrom_of_append cover.2
    · have rest := (List.prefix_append_right_inj v).mp first
      have accepted := observable (u ++ y) ((List.prefix_append_right_inj u).mpr rest)
        fun h => ne (by rw [List.append_cancel_left h])
      rwa [← isSome_landing, landing_append_congr same, isSome_landing]
  · obtain ⟨stem, hstem, e, he, rfl⟩ := (members t).mp ht
    obtain ⟨p, hp, x, short, labels, rfl⟩ := mem_stems.mp hstem
    rw [List.append_assoc, List.append_assoc] at split
    rcases List.append_eq_append_iff.mp split with ⟨s, rfl, -⟩ | ⟨s, rfl, later⟩
    · -- The other word is a prefix of the cover, so it is the word of the cover itself.
      have accepted : c.reference.accepts u = true := by
        rw [← isSome_landing, ← same, isSome_landing]
        exact cover.2
      obtain ⟨q, least⟩ := mem_stateCover.mp hp
      have mem : u ∈ c.liveCover := ⟨mem_stateCover.mpr least.of_append, accepted⟩
      rw [single_of_mem_liveCover cover mem same]
      exact ⟨_, ht, tested⟩
    · -- What follows in the test word is a word of labels with an ending, or part of an ending.
      have whole : v ++ (w ++ z) ∈ tests := by
        rcases List.append_eq_append_iff.mp later with ⟨y, rfl, rfl⟩ | ⟨y, rfl, rest⟩
        · have ending := ending_of_append characterised he
          exact (members _).mpr ⟨v, mem_stems_of_cover cover.1, _, ending, rfl⟩
        · rw [List.length_append] at short
          have stem : v ++ y ∈ c.stems (c.extraStates + 1) := mem_stems.mpr ⟨v, cover.1, y,
            by omega, fun a ha => labels a (List.mem_append_right s ha), rfl⟩
          exact (members _).mpr ⟨v ++ y, stem, e, he, by rw [rest, List.append_assoc]⟩
      exact ⟨_, whole, z, List.append_assoc v w z⟩

/-- The words of the state cover that lead where an accepted word leads are accepted themselves. -/
def Covered (c : Conformance α) : Prop :=
  ∀ v ∈ c.stateCover, ∀ w, c.reference.accepts w = true → c.reference.run v = c.reference.run w →
    c.reference.accepts v = true

/-- If rejecting states are leaves, no word of the state cover passes one on its way. -/
theorem covered_of_leaves (leaves : ∀ q, c.reference.Reaches c.reference.initial q →
    c.reference.accepting? q = some false → c.reference.isLeaf q = true) : c.Covered := by
  intro v _ w accepted same
  obtain ⟨q, run, accept⟩ := acceptsFrom_iff.mp accepted w [] (List.append_nil w)
  exact accepts_of_run leaves (same.trans run) accept

theorem characteristic (covered : c.Covered) (made : c.testSet = .ok tests) :
    c.reference.Characteristic c.liveCover (c.observations tests) := by
  obtain ⟨endings, characterised, members⟩ := testSet_eq_ok made
  obtain ⟨plain, separated⟩ := characterisation_eq_ok characterised
  refine ⟨fun w a seen => observable_concat.mp seen.1, prefixClosed_liveCover,
    fun v cover => cover.2, fun w q leads => ?_, fun v hv w hw => single_of_mem_liveCover hv hw,
    fun v cover w same => ?_, fun v cover a accepted => ?_,
    fun v cover u w same => observations_shift made cover same,
    fun v hv w hw p q leads leads' ne => ?_⟩
  · obtain ⟨accepted, run⟩ := liveRun_eq_some.mp leads
    obtain ⟨v, mem, run'⟩ := exists_mem_stateCover (c := c) ⟨w, run⟩
    have accepted' := covered v mem w accepted (run'.trans run.symm)
    exact ⟨v, ⟨mem, accepted'⟩, liveRun_eq_some.mpr ⟨accepted', run'⟩⟩
  · obtain ⟨q, least⟩ := mem_stateCover.mp cover.1
    have leads : c.reference.landing v = some q := liveRun_eq_some.mpr ⟨cover.2, least.1⟩
    exact least.length_le (liveRun_eq_some.mp (same.symm.trans leads)).2
  · have stem := mem_stems_of_mem_kernel (.inr ⟨v, cover, a, rfl⟩) accepted
    exact mem_observations_of_prefix (w := []) ((members _).mpr ⟨_, stem, [], plain, rfl⟩) accepted
  · have accepted : c.reference.accepts v = true := by rw [← isSome_landing, leads]; rfl
    have accepted' : c.reference.accepts w = true := by rw [← isSome_landing, leads']; rfl
    obtain ⟨e, he, separates⟩ := separated p q ⟨v, (liveRun_eq_some.mp leads).2⟩
      ⟨w, (liveRun_eq_some.mp leads').2⟩ ne
    have mem := (members _).mpr ⟨v, mem_stems_of_mem_kernel hv accepted, e, he, rfl⟩
    have mem' := (members _).mpr ⟨w, mem_stems_of_mem_kernel hw accepted', e, he, rfl⟩
    rw [separates_iff, ← acceptsFrom_append_of_liveRun leads,
      ← acceptsFrom_append_of_liveRun leads'] at separates
    have sides : (c.reference.accepts (v ++ e) = true ∧ c.reference.accepts (w ++ e) = false) ∨
        (c.reference.accepts (w ++ e) = true ∧ c.reference.accepts (v ++ e) = false) := by
      rw [accepts, accepts]
      revert separates
      cases c.reference.acceptsFrom _ (v ++ e) <;> cases c.reference.acceptsFrom _ (w ++ e) <;> simp
    rcases sides with ⟨left, right⟩ | ⟨right, left⟩
    · obtain ⟨x, hv, hw, yes, no⟩ := exists_observations mem mem' accepted' left right
      exact ⟨x, hv, hw, by simp [yes, no]⟩
    · obtain ⟨x, hw, hv, yes, no⟩ := exists_observations mem' mem accepted right left
      exact ⟨x, hv, hw, by simp [yes, no]⟩

theorem exists_tree (made : c.testSet = .ok tests) (policy : ConflictPolicy) :
    ∃ tree, PrefixTree.ofTraces policy ((c.maximal tests).map c.traceOf) = .ok tree ∧
      tree.graph.RootedTree ∧ tree.graph.Levelled ∧
      (∀ w, w ∈ c.observations tests ↔ ∃ q, tree.graph.run w = some q) ∧
      ∀ w q, tree.graph.run w = some q →
        tree.graph.accepting? q = some (c.reference.accepts w) := by
  have consistent : Consistent ((c.maximal tests).map c.traceOf) := consistent_maximal
  obtain ⟨tree, built, denotes, -⟩ := PrefixTree.exists_ofTraces_of_consistent policy consistent
  have words : ∀ w, w ∈ c.observations tests ↔ ∃ t ∈ c.maximal tests, w <+: t := by
    intro w
    rw [prefix_maximal_iff, and_comm]
    rfl
  have empty : [] ∈ c.observations tests := by
    obtain ⟨endings, characterised, members⟩ := testSet_eq_ok made
    have plain := (characterisation_eq_ok characterised).1
    refine ⟨fun v first ne => absurd (List.prefix_nil.mp first) ne, [], ?_, List.prefix_rfl⟩
    exact (members _).mpr ⟨[], mem_stems_of_cover nil_mem_stateCover, [], plain, rfl⟩
  have runs : ∀ w, w ∈ c.observations tests ↔ ∃ q, tree.graph.run w = some q := by
    intro w
    rw [denotes.exists_run_iff, words]
    constructor
    · rintro ⟨t, mem, first⟩
      exact .inr ⟨_, List.mem_map_of_mem mem, first⟩
    · rintro (rfl | ⟨trace, listed, first⟩)
      · exact (words []).mp empty
      · obtain ⟨t, mem, rfl⟩ := List.mem_map.mp listed
        exact ⟨t, mem, first⟩
  refine ⟨tree, built, denotes.tree, denotes.levelled, runs, fun w q run => ?_⟩
  obtain ⟨t, mem, first⟩ := (words w).mp ((runs w).mpr ⟨q, run⟩)
  have demands := (observable_of_mem_maximal mem).demandsAt first
  have agrees := (denotes.agrees _ (List.mem_map_of_mem mem)).of_demandsAt demands
  obtain ⟨q', run', flag⟩ := agrees w [] (List.append_nil w)
  obtain rfl := Option.some.inj (run.symm.trans run')
  exact flag.trans (congrArg some (Outcome.isAccept_ofBool _))

/-- From the sample of a suite a search comes to a graph that is equivalent to the reference, if the
words of the state cover are accepted wherever an accepted word leads. It needs no more merges and
promotions than the prefix tree has states, and fails only if it is not given as many. -/
theorem suite_recovers_reference (c : Conformance α) (covered : c.Covered) (sample : Sample α)
    (sampled : c.sample = .ok sample) (settings : Settings α)
    (lenient : settings.strategy = .edsm ∨ settings.strategy = .rpni)
    (late : settings.promotion = .whenStuck) (unasked : settings.questions = none) :
    ∃ tree, PrefixTree.ofTraces settings.conflicts sample.traces = .ok tree ∧
      (tree.graph.size ≤ settings.maxIterations →
        ∃ g, learn sample settings = .ok g ∧ g.difference c.reference = none) ∧
      (∀ g, learn sample settings = .ok g → g.difference c.reference = none) ∧
      ∀ e, learn sample settings = .error e →
        ∃ n, e = .iterationLimit n ∧ settings.maxIterations ≤ n ∧ n < tree.graph.size := by
  obtain ⟨tests, made, -⟩ := bind_eq_ok.mp sampled
  obtain ⟨sample', sampled', traces⟩ := exists_sample made
  obtain rfl := Except.ok.inj (sampled'.symm.trans sampled)
  obtain ⟨tree, built, rooted, levelled, words, flags⟩ := exists_tree made settings.conflicts
  rw [← traces] at built
  refine ⟨tree, built, ?_⟩
  rcases learn_of_characteristic (characteristic covered made) built rooted levelled words flags
    lenient late unasked with ⟨g, learned, same⟩ | ⟨n, stopped, limit, few⟩
  · rw [learned]
    refine ⟨fun _ => ⟨g, rfl, same⟩, fun g' h => ?_, fun e h => by cases h⟩
    exact Except.ok.inj h ▸ same
  · rw [stopped]
    refine ⟨fun enough => absurd enough (by omega), ⟨fun g h => (by cases h), fun e h => ?_⟩⟩
    exact ⟨n, (Except.error.inj h).symm, limit, few⟩

/-- The rejecting state of this graph is no leaf, but the word of the state cover to the state
behind it goes another way. -/
theorem detour_recovered : ∃ sample g, (Conformance.mk detour 1).sample = .ok sample ∧
    learn sample {} = .ok g ∧ g.difference detour = none := by
  have covered : (Conformance.mk detour 1).Covered := by
    have table : ∀ v ∈ (Conformance.mk detour 1).stateCover,
        (detour.run v).bind detour.accepting? = some true → detour.accepts v = true := by
      decide +kernel
    intro v mem w accepted same
    obtain ⟨q, run, accept⟩ := acceptsFrom_iff.mp accepted w [] (List.append_nil w)
    refine table v mem ?_
    rw [same]
    exact Option.bind_eq_some_iff.mpr ⟨q, run, accept⟩
  have facts : ((Conformance.mk detour 1).sample.map fun sample =>
      (PrefixTree.ofTraces .abort sample.traces).map (·.graph.size)) = .ok (.ok 8) := by
    decide +kernel
  obtain ⟨sample, sampled, size⟩ := Learner.exists_of_map_eq_ok facts
  obtain ⟨tree, built, ends, -⟩ := suite_recovers_reference ⟨detour, 1⟩ covered sample sampled {}
    (.inl rfl) rfl rfl
  have few : tree.graph.size = 8 := by
    rw [built] at size
    exact Except.ok.inj size
  obtain ⟨g, learned, same⟩ := ends (by rw [few]; decide)
  exact ⟨sample, g, sampled, learned, same⟩

/-- A graph with two ways to its last state, of which the first one is rejected. -/
def crossing : Graph Nat :=
  ((((((((Graph.single true).addState false).addState true).addState true).setTarget ⟨0⟩ 0
    ⟨1⟩).setTarget ⟨0⟩ 1 ⟨2⟩).setTarget ⟨1⟩ 0 ⟨3⟩).setTarget ⟨2⟩ 1 ⟨3⟩).setTarget ⟨3⟩ 0 ⟨3⟩

/-- The word of the state cover to the last state passes a rejecting one, so the suite does not show
what follows there. The search comes to a graph of as many states that passes the suite and accepts
something else. -/
theorem crossing_not_recovered : ∃ tests sample g, (Conformance.mk crossing 0).testSet = .ok tests ∧
    (Conformance.mk crossing 0).sample = .ok sample ∧ learn sample {} = .ok g ∧
      g.size = crossing.size ∧ (∀ w ∈ tests, g.accepts w = crossing.accepts w) ∧
        g.difference crossing = some [1, 1, 0, 0] := by
  have facts : ((Conformance.mk crossing 0).sample.map fun sample =>
      (learn sample {}).map fun g => (g.size, g.difference crossing,
        (Conformance.mk crossing 0).testSet.map fun tests =>
          tests.all fun w => g.accepts w == crossing.accepts w)) =
        .ok (.ok (crossing.size, some [1, 1, 0, 0], .ok true)) := by
    decide +kernel
  obtain ⟨sample, sampled, outcome⟩ := Learner.exists_of_map_eq_ok facts
  obtain ⟨g, learned, result⟩ := Learner.exists_of_map_eq_ok outcome
  obtain ⟨size, difference, passed⟩ := by simpa only [Prod.mk.injEq] using result
  obtain ⟨tests, made, agree⟩ := Learner.exists_of_map_eq_ok passed
  refine ⟨tests, sample, g, made, sampled, learned, size, fun w hw => ?_, difference⟩
  exact eq_of_beq (List.all_eq_true.mp agree w hw)

end Conformance

end BlueFringe
