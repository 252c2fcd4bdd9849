import BlueFringe.Proofs.AccessWords
import BlueFringe.Proofs.Difference
import BlueFringe.Question

/-!
# What a merge introduces

A word that a merge introduces leaves the old graph at some state, by a label that this state lacks.
In the merged graph the state is represented by the survivor of its class, which has the label from
another member. The symmetric questions try each label of a survivor on the access words of all
members of its class, so they ask about every such departure.
-/

namespace BlueFringe

open Std

variable {α : Type} [Ord α] [TransOrd α]

namespace Graph

/-- The word begins with `v` and `a`, and this is its shortest prefix that has no run. -/
structure Departs (g : Graph α) (w v : Word α) (a : α) : Prop where
  begins : v ++ [a] <+: w
  stuck : g.run (v ++ [a]) = none
  first : ∀ u, u <+: w → g.run u = none → (v ++ [a]).length ≤ u.length

variable {g merged : Graph α} {m : Identification} {q p : StateId} {v w access : Word α} {a : α}

theorem exists_run_of_prefix (run : g.run w = some q) (begins : v <+: w) :
    ∃ p, g.run v = some p := by
  obtain ⟨u, rfl⟩ := begins
  obtain ⟨p, first, _⟩ := exists_runFrom_of_append run
  exact ⟨p, first⟩

theorem accepts_eq_false (stuck : g.run w = none) : g.accepts w = false := by
  refine Bool.eq_false_iff.mpr fun accepted => ?_
  obtain ⟨q, leads⟩ := exists_runFrom_of_acceptsFrom accepted
  rw [run, leads] at stuck
  cases stuck

theorem exists_departs (stuck : g.run w = none) :
    ∃ v a q, g.Departs w v a ∧ g.run v = some q := by
  -- Either the word leaves before its last label, and nothing changes by one more label, or it is
  -- the last label that leads nowhere.
  induction w using List.reverseRecOn with
  | nil => cases stuck
  | append_singleton w a ih =>
      cases here : g.run w with
      | none =>
          obtain ⟨v, b, q, departs, run⟩ := ih here
          have begins := departs.begins.trans (List.prefix_append w [a])
          refine ⟨v, b, q, ⟨begins, departs.stuck, fun u prior none => ?_⟩, run⟩
          cases List.prefix_concat_iff.mp prior with
          | inl whole => exact whole ▸ begins.length_le
          | inr earlier => exact departs.first u earlier none
      | some q =>
          refine ⟨w, a, q, ⟨List.prefix_rfl, stuck, fun u prior none => ?_⟩, here⟩
          cases List.prefix_concat_iff.mp prior with
          | inl whole => exact whole ▸ Nat.le_refl _
          | inr earlier =>
              obtain ⟨p, run⟩ := exists_run_of_prefix here earlier
              rw [none] at run
              cases run

variable [LawfulEqOrd α]

theorem Grows.same_of_no_new (grows : g.Grows merged)
    (nothing : ∀ w, g.run w = none → merged.run w = none) :
    (∀ w, (g.run w).isSome = (merged.run w).isSome) ∧ g.difference merged = none := by
  have same : ∀ w, (g.run w).isSome = (merged.run w).isSome ∧ g.accepts w = merged.accepts w := by
    intro w
    cases here : g.run w with
    | none => simp [nothing w here, accepts_eq_false here, accepts_eq_false (nothing w here)]
    | some q =>
        obtain ⟨p, there, _⟩ := grows w q here
        simp [there, grows.accepts_eq here]
  exact ⟨fun w => (same w).1, difference_eq_none_iff.mpr fun w => (same w).2⟩

/-! ### Classes and their survivors -/

theorem Folds.exists_class (folds : g.Folds m) (mem : q ∈ g)
    (shared : ∃ p ∈ g, p ≠ q ∧ m.image p = m.image q) :
    ∃ members ∈ m.classes.classes, ∀ p, p ∈ members ↔ p ∈ g ∧ m.image p = m.image q := by
  let members := collect compare (g.stateIds.filter fun p => m.image p = m.image q)
  have listed : ∀ p, p ∈ members ↔ p ∈ g ∧ m.image p = m.image q := by
    intro p
    simp only [members, mem_collect, List.mem_filter, mem_stateIds, decide_eq_true_eq]
  exact ⟨members, folds.mem_classes.mpr ⟨q, mem, shared, listed⟩, listed⟩

/-- The search for a survivor of a class finds what its members are represented by. -/
theorem Merges.find?_survivor (merges : g.Merges m merged)
    {members : ExtTreeSet StateId compare} (mem : q ∈ g)
    (listed : ∀ p, p ∈ members ↔ p ∈ g ∧ m.image p = m.image q) :
    members.toList.find? (fun p => p ∈ merged) = some (m.image q) := by
  have present : m.image q ∈ members.toList := by
    rw [ExtTreeSet.mem_toList, listed]
    exact ⟨merges.image_mem mem, merges.image_idem q⟩
  have survives := merges.image_mem_merged mem
  have found : (members.toList.find? fun p => p ∈ merged).isSome = true :=
    List.find?_isSome.mpr ⟨_, present, decide_eq_true survives⟩
  obtain ⟨p, first⟩ := Option.isSome_iff_exists.mp found
  have member : p ∈ members := ExtTreeSet.mem_toList.mp (List.mem_of_find?_eq_some first)
  have kept : p ∈ merged := by simpa using List.find?_some first
  rw [first, ← (merges.mem_iff.mp kept).2, ((listed p).mp member).2]

/-- A label that a state gains by the merge comes from another member of its class. -/
theorem Merges.exists_shared (merges : g.Merges m merged) (lacks : g.transition q a = none)
    (gains : merged.transition (m.image q) a = some p) :
    ∃ r ∈ g, r ≠ q ∧ m.image r = m.image q := by
  obtain ⟨r, _, leads, same, _⟩ := merges.transition_iff.mp gains
  refine ⟨r, mem_of_transition leads, fun alike => ?_, same⟩
  rw [alike, lacks] at leads
  cases leads

theorem Merges.mem_candidates (merges : g.Merges m merged) (mem : q ∈ g)
    (reached : g.accessWord q = some access) (lacks : g.transition q a = none)
    (gains : merged.transition (m.image q) a = some p) :
    access ++ [a] ∈ QuestionRule.symmetric.candidates g merged m := by
  obtain ⟨members, listed, exactly⟩ :=
    merges.toFolds.exists_class mem (merges.exists_shared lacks gains)
  refine List.mem_flatMap.mpr ⟨members, listed, ?_⟩
  have member : q ∈ members.toList := ExtTreeSet.mem_toList.mpr ((exactly q).mpr ⟨mem, rfl⟩)
  rw [QuestionRule.symmetricWords, merges.find?_survivor mem exactly, Option.getD_some,
    Word.mem_products]
  refine ⟨access, List.mem_filterMap.mpr ⟨q, member, reached⟩, [a], ?_, rfl⟩
  exact List.mem_map.mpr ⟨(a, p), mem_edges.mpr gains, rfl⟩

end Graph

variable [LawfulEqOrd α]

theorem QuestionPlan.mem_questions {plan : QuestionPlan} {before merged : Graph α}
    {m : Identification} {w : Word α}
    (room : (plan.rule.candidates before merged m).length ≤ plan.limit)
    (candidate : w ∈ plan.rule.candidates before merged m)
    (introduced : isIntroduced before merged w = true) :
    ⟨w, merged.accepts w⟩ ∈ plan.questions before merged m := by
  rw [questions]
  set words := (plan.rule.candidates before merged m).filter (isIntroduced before merged)
  have few : (Word.arrange words).length ≤ plan.limit :=
    ((length_distinctBy_le _ words).trans (List.length_filter_le _ _)).trans room
  rw [List.take_of_length_le few]
  have listed : w ∈ words := List.mem_filter.mpr ⟨candidate, introduced⟩
  exact List.mem_map.mpr ⟨w, Word.mem_arrange.mpr listed, rfl⟩

/-- Wherever a word that a merge introduces leaves the old graph, the symmetric questions ask about
the access word of that state with the label that is new there. -/
theorem Graph.Merges.departure_asked {g merged : Graph α} {m : Identification}
    (merges : g.Merges m merged) (present : g.initial ∈ g) (initial : g.initial ∈ merged)
    {limit : Nat} (room : (QuestionRule.symmetric.candidates g merged m).length ≤ limit)
    {w v : Word α} {a : α} {q : StateId} (runs : (merged.run w).isSome = true)
    (departs : g.Departs w v a) (leads : g.run v = some q) :
    ∃ access, g.accessWord q = some access ∧
      ⟨access ++ [a], merged.accepts (access ++ [a])⟩ ∈
        (⟨.symmetric, limit⟩ : QuestionPlan).questions g merged m := by
  have mem : q ∈ g := merges.closed.mem_of_reaches present ⟨v, leads⟩
  have lacks : g.transition q a = none := by
    rw [← Graph.run_concat leads]
    exact departs.stuck
  obtain ⟨p, gains⟩ : ∃ p, merged.transition (m.image q) a = some p := by
    obtain ⟨r, run⟩ := Option.isSome_iff_exists.mp runs
    obtain ⟨p, first⟩ := Graph.exists_run_of_prefix run departs.begins
    exact ⟨p, by rwa [← Graph.run_concat (merges.run_image initial leads)]⟩
  obtain ⟨access, met, _⟩ := Graph.exists_representative_le leads
  have least := Graph.mem_representatives.mp met
  have reached := Graph.accessWord_eq_some.mpr least
  have arrives : g.run access = some q := least.1
  refine ⟨access, reached, QuestionPlan.mem_questions room ?_ ?_⟩
  · exact merges.mem_candidates mem reached lacks gains
  · rw [isIntroduced, Graph.run_concat arrives, lacks,
      Graph.run_concat (merges.run_image initial arrives), gains]
    rfl

/-- The symmetric questions miss nothing that a merge introduces: of every introduced word they ask
about the access word of the state at which it leaves the old graph, with the label that it leaves
by. If they ask nothing, the merge introduces nothing and keeps the language. -/
theorem symmetric_questions_cover (g : Graph α) (pair : StatePair) (strategy : Strategy)
    (s : Score) (m : Identification) (closed : g.Closed) (initial : g.initial ∈ g)
    (tree : g.isTreeFrom pair.blue = true) (rooted : ¬ g.Reaches pair.blue g.initial)
    (scored : strategy.score g pair = .ok (s, m)) (compatible : s.isCompatible = true) :
    ∃ merged, g.merge pair m = .ok merged ∧
      ∀ limit, (QuestionRule.symmetric.candidates g merged m).length ≤ limit →
        let asked := (⟨.symmetric, limit⟩ : QuestionPlan).questions g merged m
        (∀ w, (merged.run w).isSome = true → g.run w = none →
          ∃ v a q access, g.Departs w v a ∧ g.run v = some q ∧ g.accessWord q = some access ∧
            ⟨access ++ [a], merged.accepts (access ++ [a])⟩ ∈ asked) ∧
        (asked = [] → (∀ w, (g.run w).isSome = (merged.run w).isSome) ∧
          g.difference merged = none) := by
  obtain ⟨merged, made, merges, present⟩ :=
    Strategy.exists_merges closed initial tree rooted scored compatible
  refine ⟨merged, made, fun limit room => ?_⟩
  intro asked
  have covered : ∀ w, (merged.run w).isSome = true → g.run w = none →
      ∃ v a q access, g.Departs w v a ∧ g.run v = some q ∧ g.accessWord q = some access ∧
        ⟨access ++ [a], merged.accepts (access ++ [a])⟩ ∈ asked := by
    intro w runs stuck
    obtain ⟨v, a, q, departs, leads⟩ := Graph.exists_departs stuck
    obtain ⟨access, reached, listed⟩ :=
      merges.departure_asked initial present room runs departs leads
    exact ⟨v, a, q, access, departs, leads, reached, listed⟩
  refine ⟨covered, fun silent => (merges.grows present initial).same_of_no_new fun w stuck => ?_⟩
  by_contra runs
  obtain ⟨_, _, _, _, _, _, _, listed⟩ := covered w (Option.isSome_iff_ne_none.mpr runs) stuck
  rw [silent] at listed
  cases listed

theorem sapling_covered : ∃ merged : Graph Nat,
    Strategy.edsm.score sapling ⟨⟨1⟩, ⟨0⟩⟩ = .ok (.compatible 5 2, saplingFold) ∧
      sapling.merge ⟨⟨1⟩, ⟨0⟩⟩ saplingFold = .ok merged ∧
      (QuestionRule.symmetric.candidates sapling merged saplingFold).length = 12 ∧
      (merged.run [1, 1, 1, 1, 1, 3]).isSome = true ∧ sapling.run [1, 1, 1, 1, 1, 3] = none ∧
      ∃ v a q access, sapling.Departs [1, 1, 1, 1, 1, 3] v a ∧ sapling.run v = some q ∧
        sapling.accessWord q = some access ∧ ⟨access ++ [a], merged.accepts (access ++ [a])⟩ ∈
          (⟨.symmetric, 12⟩ : QuestionPlan).questions sapling merged saplingFold := by
  have scored : Strategy.edsm.score sapling ⟨⟨1⟩, ⟨0⟩⟩ = .ok (.compatible 5 2, saplingFold) := by
    decide +kernel
  obtain ⟨merged, made, covered⟩ := symmetric_questions_cover sapling ⟨⟨1⟩, ⟨0⟩⟩ .edsm _ _
    (by decide +kernel) (by decide +kernel) (by decide +kernel) (by decide +kernel) scored rfl
  have facts : (sapling.merge ⟨⟨1⟩, ⟨0⟩⟩ saplingFold).map (fun merged =>
      ((QuestionRule.symmetric.candidates sapling merged saplingFold).length,
        (merged.run [1, 1, 1, 1, 1, 3]).isSome)) = .ok (12, true) := by decide +kernel
  rw [made] at facts
  obtain ⟨counted, runs⟩ := Prod.mk.inj (Except.ok.inj facts)
  have stuck : sapling.run [1, 1, 1, 1, 1, 3] = none := by decide +kernel
  exact ⟨merged, scored, made, counted, runs, stuck, (covered 12 counted.le).1 _ runs stuck⟩

end BlueFringe
