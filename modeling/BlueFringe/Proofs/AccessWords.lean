import BlueFringe.Proofs.Conformance
import BlueFringe.Proofs.Denotation

/-!
# Access words

The search for states visits each of them once, by the least word that leads there, in the order of
these words. So access words are closed under prefixes, no word to the same state is shorter, and
the depths that are set anew after a merge are lengths of shortest words.
-/

namespace BlueFringe

open Std

variable {α : Type} [Ord α] [TransOrd α]

/-- The same ending on both sides keeps the order. -/
theorem Word.shortlex_append {v w u : Word α} :
    Word.shortlex (v ++ u) (w ++ u) = Word.shortlex v w := by
  induction u using List.reverseRecOn with
  | nil => rw [List.append_nil, List.append_nil]
  | append_singleton u a ih =>
      have same : compare a a = .eq := ReflCmp.compare_self
      rw [← List.append_assoc, ← List.append_assoc, Word.shortlex_concat, ih, same,
        Ordering.then_eq]

theorem Word.Least.length_le {P : Word α → Prop} {v w : Word α}
    (least : Word.Least P v) (holds : P w) : v.length ≤ w.length := by
  by_contra longer
  have before := Word.shortlex_of_length_lt (Nat.lt_of_not_le longer)
  have after := least.2 w holds
  rw [OrientedCmp.gt_of_lt before] at after
  cases after

namespace Graph

variable {g g' merged : Graph α} {p q : StateId} {v w : Word α}

/-- The word leads to the state, and no such word comes first. -/
def LeastTo (g : Graph α) (p q : StateId) : Word α → Prop :=
  Word.Least fun w => g.runFrom p w = some q

theorem LeastTo.of_append (least : g.LeastTo p q (v ++ w)) : ∃ r, g.LeastTo p r v := by
  obtain ⟨r, first, rest⟩ := exists_runFrom_of_append least.1
  refine ⟨r, first, fun u run => ?_⟩
  have leads : g.runFrom p (u ++ w) = some q := by
    rw [runFrom_append, run]
    exact rest
  have le := least.2 (u ++ w) leads
  rwa [Word.shortlex_append] at le

theorem LeastTo.of_isPrefix (least : g.LeastTo p q w) (first : v <+: w) :
    ∃ r, g.LeastTo p r v := by
  obtain ⟨u, rfl⟩ := first
  exact least.of_append

variable [LawfulEqOrd α]

theorem spells_of_runFrom (run : g.runFrom p w = some q) : Search.Spells g.edges p w q := by
  induction w using List.reverseRecOn generalizing q with
  | nil =>
      cases run
      exact .nil
  | append_singleton w a ih =>
      obtain ⟨r, first, last⟩ := runFrom_concat_eq_some.mp run
      exact (ih first).concat (mem_edges.mpr last)

/-- Every state is visited, by a word that comes no later than any word that leads to it. -/
theorem exists_representative_le (run : g.runFrom p w = some q) :
    ∃ v, (v, q) ∈ g.representatives p ∧ (Word.shortlex v w).isLE := by
  have known : ∀ s t, Search.Leads g.edges s t → t ∈ g.allTargets :=
    fun _ _ => mem_allTargets_of_leads
  have room : (g.allTargets.erase p).card < g.transitionCount + 1 :=
    (Finset.card_erase_le).trans_lt g.card_allTargets_lt
  exact Search.exists_mem_breadthFirst known (fun _ => edges_pairwise) room (spells_of_runFrom run)

theorem mem_representatives : (w, q) ∈ g.representatives p ↔ g.LeastTo p q w := by
  have distinct : ((g.representatives p).map (·.2)).Nodup := by
    rw [map_snd_representatives]
    exact nodup_reachable g p
  have least : ∀ {w}, (w, q) ∈ g.representatives p → g.LeastTo p q w := by
    intro w met
    refine ⟨runFrom_of_spells (Search.spells_of_mem_breadthFirst met), fun v run => ?_⟩
    obtain ⟨u, met', le⟩ := exists_representative_le run
    obtain rfl : u = w := by
      simpa using List.inj_on_of_nodup_map distinct met' met rfl
    exact le
  refine ⟨least, fun here => ?_⟩
  obtain ⟨v, met, -⟩ := exists_representative_le here.1
  rwa [here.unique (least met)]

theorem accessWord_eq_some : g.accessWord q = some w ↔ g.LeastTo g.initial q w := by
  rw [← mem_representatives, accessWord]
  constructor
  · intro found
    obtain ⟨⟨v, r⟩, first, rfl⟩ := Option.map_eq_some_iff.mp found
    obtain rfl : r = q := by simpa using List.find?_some first
    exact List.mem_of_find?_eq_some first
  · intro met
    have found : ((g.representatives g.initial).find? fun entry => entry.2 = q).isSome = true :=
      List.find?_isSome.mpr ⟨_, met, decide_eq_true rfl⟩
    obtain ⟨⟨v, r⟩, first⟩ := Option.isSome_iff_exists.mp found
    obtain rfl : r = q := by simpa using List.find?_some first
    have other := mem_representatives.mp (List.mem_of_find?_eq_some first)
    rw [first, Option.map_some, (mem_representatives.mp met).unique other]

theorem exists_leastTo (reached : g.Reaches p q) : ∃ w, g.LeastTo p q w := by
  obtain ⟨w, met, _⟩ := exists_mem_representatives reached
  exact ⟨w, mem_representatives.mp met⟩

theorem accessWord_eq_none : g.accessWord q = none ↔ ¬ g.Reaches g.initial q := by
  rw [Option.eq_none_iff_forall_ne_some]
  constructor
  · intro nothing reached
    obtain ⟨w, least⟩ := exists_leastTo reached
    exact nothing w (accessWord_eq_some.mpr least)
  · intro apart w found
    exact apart ⟨w, (accessWord_eq_some.mp found).1⟩

theorem mem_accessWords : (q, w) ∈ g.accessWords ↔ g.accessWord q = some w := by
  rw [accessWords, mem_sortBy, List.mem_map, accessWord_eq_some, ← mem_representatives]
  constructor
  · rintro ⟨⟨v, r⟩, met, same⟩
    obtain ⟨rfl, rfl⟩ := Prod.mk.inj same
    exact met
  · exact fun met => ⟨(w, q), met, rfl⟩

omit [LawfulEqOrd α] in
/-- No state is listed twice, so the states strictly ascend. -/
theorem accessWords_pairwise : g.accessWords.Pairwise fun e f => compare e.1 f.1 = .lt := by
  have ascending : g.accessWords.Pairwise fun e f => (compare e.1 f.1).isLE :=
    sortBy_pairwise (compareOn fun e : StateId × Word α => e.1) _
  have distinct : g.accessWords.Pairwise fun e f => e.1 ≠ f.1 := by
    have states : (g.accessWords.map (·.1)).Perm (g.reachable g.initial) := by
      rw [← map_snd_representatives]
      refine ((sortBy_perm _ _).map _).trans (List.Perm.of_eq ?_)
      rw [List.map_map]
      rfl
    exact List.pairwise_map.mp (states.nodup_iff.mpr (nodup_reachable g g.initial))
  refine (ascending.and distinct).imp fun {e f} both => ?_
  cases order : compare e.1 f.1 with
  | lt => rfl
  | eq => exact absurd (LawfulEqOrd.eq_of_compare order) both.2
  | gt => simp [order] at both

/-- From any origin the search finds each state that can be reached, once and by the least word that
leads there, in the order of these words, and with a word it finds all prefixes of it. So the
functions that make use of the search say what can be reached. -/
theorem representatives_exact (g : Graph α) (closed : g.Closed) (initial : g.initial ∈ g) :
    (∀ origin,
      (∀ q w, (w, q) ∈ g.representatives origin ↔ g.LeastTo origin q w) ∧
      (∀ q, (∃ w, (w, q) ∈ g.representatives origin) ↔ g.Reaches origin q) ∧
      ((g.representatives origin).map (·.2)).Nodup ∧
      (g.representatives origin).Pairwise (fun e f => Word.shortlex e.1 f.1 = .lt) ∧
      (∀ q, q ∈ g.reachable origin ↔ g.Reaches origin q) ∧
      ∀ q v w, (w, q) ∈ g.representatives origin → v <+: w →
        ∃ r, g.runFrom origin v = some r ∧ (v, r) ∈ g.representatives origin) ∧
    (∀ q w, g.accessWord q = some w ↔ g.LeastTo g.initial q w) ∧
    (∀ q, g.accessWord q = none ↔ ¬ g.Reaches g.initial q) ∧
    (∀ q w, (q, w) ∈ g.accessWords ↔ g.accessWord q = some w) ∧
    g.accessWords.Pairwise (fun e f => compare e.1 f.1 = .lt) ∧
    (g.isTrim = true ↔ ∀ q ∈ g, g.Reaches g.initial q) ∧
    ∀ q v w, g.accessWord q = some w → v <+: w →
      ∃ r, g.run v = some r ∧ g.accessWord r = some v := by
  refine ⟨fun origin => ⟨fun q w => mem_representatives, fun q => ⟨?_, ?_⟩, ?_,
      Search.breadthFirst_pairwise fun _ => edges_pairwise, fun q => mem_reachable, ?_⟩,
    fun q w => accessWord_eq_some, fun q => accessWord_eq_none, fun q w => mem_accessWords,
    accessWords_pairwise, isTrim_iff closed initial, ?_⟩
  · rintro ⟨w, met⟩
    exact ⟨w, (mem_representatives.mp met).1⟩
  · intro reached
    obtain ⟨w, met, _⟩ := exists_mem_representatives reached
    exact ⟨w, met⟩
  · rw [map_snd_representatives]
    exact nodup_reachable g origin
  · intro q v w met first
    obtain ⟨r, least⟩ := (mem_representatives.mp met).of_isPrefix first
    exact ⟨r, least.1, mem_representatives.mpr least⟩
  · intro q v w found first
    obtain ⟨r, least⟩ := (accessWord_eq_some.mp found).of_isPrefix first
    exact ⟨r, least.1, accessWord_eq_some.mpr least⟩

/-- A graph in which two words of one length lead to the state 3, and the state 1 has a shorter
way than the one over the smaller label. -/
def junction : Graph Nat :=
  ((((((((Graph.single true).addState true).addState true).addState true).setTarget ⟨0⟩ 1
    ⟨1⟩).setTarget ⟨0⟩ 0 ⟨2⟩).setTarget ⟨2⟩ 1 ⟨1⟩).setTarget ⟨1⟩ 0 ⟨3⟩).setTarget ⟨2⟩ 0 ⟨3⟩

theorem junction_represented : junction.Closed ∧ junction.initial ∈ junction ∧
    junction.representatives ⟨0⟩ = [([], ⟨0⟩), ([0], ⟨2⟩), ([1], ⟨1⟩), ([0, 0], ⟨3⟩)] ∧
    junction.LeastTo ⟨0⟩ ⟨3⟩ [0, 0] ∧ ∀ q ∈ junction, junction.Reaches junction.initial q := by
  have closed : junction.Closed := by decide +kernel
  have initial : junction.initial ∈ junction := by decide +kernel
  have found : junction.representatives ⟨0⟩ =
      [([], ⟨0⟩), ([0], ⟨2⟩), ([1], ⟨1⟩), ([0, 0], ⟨3⟩)] := by decide +kernel
  obtain ⟨search, _, _, _, _, trim, _⟩ := representatives_exact junction closed initial
  refine ⟨closed, initial, found, ((search ⟨0⟩).1 _ _).mp ?_, trim.mp (by decide +kernel)⟩
  rw [found]
  simp

/-! ### Depths -/

omit [LawfulEqOrd α] in
/-- The depth of every state that can be reached is the length of a shortest word to it. -/
def Measured (g : Graph α) : Prop :=
  ∀ w q, g.run w = some q →
    ∃ v, g.run v = some q ∧ g.depth? q = some v.length ∧ v.length ≤ w.length

omit [LawfulEqOrd α] in
theorem Levelled.measured (levelled : g.Levelled) : g.Measured :=
  fun w q run => ⟨w, run, levelled w q run, Nat.le_refl _⟩

omit [LawfulEqOrd α] in
theorem Measured.of_views (measured : g.Measured) (initial : g'.initial = g.initial)
    (transition : ∀ q a, g'.transition q a = g.transition q a)
    (depth : ∀ q, g'.depth? q = g.depth? q) : g'.Measured := by
  intro w q run
  rw [run_eq_of_transition initial transition] at run
  obtain ⟨v, hv, same, le⟩ := measured w q run
  refine ⟨v, ?_, (depth q).trans same, le⟩
  rw [run_eq_of_transition initial transition, hv]

theorem measured_recomputeDepths (closed : g.recomputeDepths.Closed)
    (initial : g.recomputeDepths.initial ∈ g.recomputeDepths) : g.recomputeDepths.Measured := by
  intro w q run
  have here := closed.mem_of_reaches initial ⟨w, run⟩
  obtain ⟨s, hs⟩ := mem_iff_exists.mp (mem_recomputeDepths.mp here)
  have same := run_eq_of_transition (initial_recomputeDepths (g := g))
    (fun _ _ => transition_recomputeDepths)
  rw [same] at run
  obtain ⟨v, met, -⟩ := exists_representative_le run
  have least := mem_representatives.mp met
  refine ⟨v, (same v).trans least.1, ?_, least.length_le run⟩
  rw [depth?, state?_recomputeDepths, hs, accessWord_eq_some.mpr least]
  rfl

theorem measured_of_merge {pair : StatePair} {m : Identification}
    (made : g.merge pair m = .ok merged) (closed : merged.Closed)
    (initial : merged.initial ∈ merged) : merged.Measured := by
  rw [merge] at made
  split at made
  · cases made
  · dsimp only at made
    split at made <;> cases made
    exact measured_recomputeDepths closed initial

end Graph

namespace Conformance

variable [LawfulEqOrd α] {c : Conformance α} {w : Word α}

theorem mem_stateCover :
    w ∈ c.stateCover ↔ ∃ q, c.reference.LeastTo c.reference.initial q w := by
  rw [stateCover, Word.mem_arrange, List.mem_map]
  constructor
  · rintro ⟨⟨v, q⟩, met, rfl⟩
    exact ⟨q, Graph.mem_representatives.mp met⟩
  · rintro ⟨q, least⟩
    exact ⟨(w, q), Graph.mem_representatives.mpr least, rfl⟩

end Conformance

end BlueFringe
