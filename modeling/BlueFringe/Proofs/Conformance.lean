import BlueFringe.Conformance
import BlueFringe.Proofs.Difference
import BlueFringe.Proofs.Reachability
import Mathlib.Combinatorics.Enumerative.DoubleCounting

/-!
# Conformance suites are complete

Words of the state cover lead a graph that passes the suite to different states, one for each
accepting state of the reference. Longer words meet further states, but only as often as there are
extra ones, and from some length on no state is new. As the endings tell all states of the reference
apart, words that meet in the graph meet in the reference. So every word behaves like some word of
the suite, on both sides.
-/

namespace BlueFringe

open Std

variable {α : Type} [Ord α] [TransOrd α]

namespace Graph

/-- The states that accept. -/
def acceptingStates (g : Graph α) : Finset StateId :=
  (g.stateIds.filter fun q => g.accepting? q = some true).toFinset

variable {g h : Graph α} {p q : StateId} {a : α} {w : Word α}

omit [TransOrd α] in
theorem mem_acceptingStates : q ∈ g.acceptingStates ↔ g.accepting? q = some true := by
  rw [acceptingStates, List.mem_toFinset, List.mem_filter, mem_stateIds, decide_eq_true_iff,
    and_iff_right_iff_imp]
  exact fun accepting => accepting?_isSome.mp (by rw [accepting]; rfl)

variable [LawfulEqOrd α]

/-- The accepting states that can be reached. -/
def liveStates (g : Graph α) : Finset StateId :=
  g.acceptingStates.filter fun q => g.Reaches g.initial q

theorem mem_liveStates :
    q ∈ g.liveStates ↔ g.accepting? q = some true ∧ g.Reaches g.initial q := by
  rw [liveStates, Finset.mem_filter, mem_acceptingStates]

theorem runFrom_of_spells (spells : Search.Spells g.edges p w q) : g.runFrom p w = some q := by
  induction spells with
  | nil => rfl
  | concat _ step ih => exact runFrom_concat_eq_some.mpr ⟨_, ih, mem_edges.mp step⟩

theorem exists_mem_representatives (reached : g.Reaches p q) :
    ∃ w, (w, q) ∈ g.representatives p ∧ g.runFrom p w = some q := by
  have mem := mem_reachable.mpr reached
  rw [← map_snd_representatives] at mem
  obtain ⟨⟨w, _⟩, met, rfl⟩ := List.mem_map.mp mem
  exact ⟨w, met, runFrom_of_spells (Search.spells_of_mem_breadthFirst met)⟩

/-- If rejecting states are leaves, a run to an accepting state has passed none of them. -/
theorem accepts_of_run
    (leaves : ∀ q, g.Reaches g.initial q → g.accepting? q = some false → g.isLeaf q = true)
    (run : g.run w = some q) (accepting : g.accepting? q = some true) : g.accepts w = true := by
  refine acceptsFrom_iff.mpr fun v u split => ?_
  obtain ⟨r, hr, rest⟩ := exists_runFrom_of_append (split ▸ run)
  refine ⟨r, hr, ?_⟩
  cases u with
  | nil => rwa [Option.some.inj rest]
  | cons a u =>
      rw [runFrom_cons, Option.bind_eq_some_iff] at rest
      obtain ⟨s, ha, _⟩ := rest
      obtain ⟨flag, has⟩ :=
        Option.isSome_iff_exists.mp (accepting?_isSome.mpr (mem_of_transition ha))
      cases flag with
      | true => exact has
      | false =>
          have lacking := isLeaf_iff.mp (leaves r ⟨v, hr⟩ has) a
          rw [ha] at lacking
          cases lacking

theorem liveRun_concat_eq_none (label : a ∉ g.alphabet) : g.liveRun q (w ++ [a]) = none := by
  rw [← Option.not_isSome_iff_eq_none, liveRun_isSome]
  exact fun accepted => label (mem_alphabet_of_acceptsFrom accepted List.mem_concat_self)

end Graph

namespace Conformance

open BlueFringe.Graph

variable {c : Conformance α} {g : Graph α} {tests : List (Word α)} {n : Nat} {a : α} {w : Word α}
  {p q s : StateId}

/-- The words of the state cover, each with all that goes on by up to so many labels. -/
def stems (c : Conformance α) (n : Nat) : List (Word α) := c.extensions n c.stateCover

theorem mem_stems : w ∈ c.stems n ↔ ∃ stem ∈ c.stateCover, ∃ v : Word α,
    v.length ≤ n ∧ (∀ a ∈ v, a ∈ c.reference.alphabet) ∧ stem ++ v = w :=
  mem_extensions

theorem mem_stems_of_le {m : Nat} (mem : w ∈ c.stems m) (le : m ≤ n) : w ∈ c.stems n := by
  obtain ⟨stem, cover, v, short, labels, rfl⟩ := mem_stems.mp mem
  exact mem_stems.mpr ⟨stem, cover, v, short.trans le, labels, rfl⟩

theorem mem_stems_of_cover (cover : w ∈ c.stateCover) : w ∈ c.stems n :=
  mem_stems.mpr ⟨w, cover, [], Nat.zero_le n, by simp, List.append_nil w⟩

theorem concat_mem_stems (mem : w ∈ c.stems n) (label : a ∈ c.reference.alphabet) :
    w ++ [a] ∈ c.stems (n + 1) := by
  obtain ⟨stem, cover, v, short, labels, rfl⟩ := mem_stems.mp mem
  refine mem_stems.mpr ⟨stem, cover, v ++ [a], by simpa using short, fun b hb => ?_, by simp⟩
  rcases List.mem_append.mp hb with old | new
  · exact labels b old
  · rwa [List.mem_singleton.mp new]

variable [LawfulEqOrd α]

theorem nil_mem_stateCover : [] ∈ c.stateCover :=
  Word.mem_arrange.mpr (List.mem_map.mpr ⟨([], c.reference.initial), List.mem_cons_self, rfl⟩)

theorem exists_mem_stateCover (reached : c.reference.Reaches c.reference.initial q) :
    ∃ w ∈ c.stateCover, c.reference.run w = some q := by
  obtain ⟨w, met, run⟩ := exists_mem_representatives reached
  exact ⟨w, Word.mem_arrange.mpr (List.mem_map.mpr ⟨_, met, rfl⟩), run⟩

/-! ### What is in the suite -/

theorem exists_separator {states : List StateId} {words : List (Word α)}
    (made : separators g states = .ok words) (hp : p ∈ states) (hq : q ∈ states) (ne : p ≠ q) :
    ∃ w ∈ words, g.Separates p g q w := by
  induction states generalizing words with
  | nil => cases hp
  | cons r rest ih =>
      rw [separators, bind_eq_ok] at made
      obtain ⟨here, first, made⟩ := made
      obtain ⟨later, others, made⟩ := bind_eq_ok.mp made
      obtain rfl := Except.ok.inj made
      have against : ∀ s ∈ rest, ∃ w ∈ here ++ later, g.Separates r g s w := by
        intro s hs
        obtain ⟨w, mem, found⟩ := exists_mem_of_mapM_eq_ok first hs
        refine ⟨w, List.mem_append_left later mem, ?_⟩
        split at found
        · rename_i least
          cases found
          exact (separate_eq_some_iff.mp least).1
        · cases found
      rcases List.mem_cons.mp hp with rfl | hp' <;> rcases List.mem_cons.mp hq with rfl | hq'
      · exact absurd rfl ne
      · exact against q hq'
      · obtain ⟨w, mem, separates⟩ := against p hp'
        exact ⟨w, mem, separates_comm.mp separates⟩
      · obtain ⟨w, mem, separates⟩ := ih others hp' hq'
        exact ⟨w, List.mem_append_right here mem, separates⟩

/-- The endings tell the states of the reference apart, and one of them is empty. -/
theorem characterisation_eq_ok {endings : List (Word α)} (made : c.characterisation = .ok endings) :
    [] ∈ endings ∧ ∀ p q, c.reference.Reaches c.reference.initial p →
      c.reference.Reaches c.reference.initial q → p ≠ q →
        ∃ w ∈ endings, c.reference.Separates p c.reference q w := by
  rw [characterisation] at made
  obtain ⟨words, separated, made⟩ := bind_eq_ok.mp made
  obtain rfl := Except.ok.inj made
  refine ⟨Word.mem_arrange.mpr List.mem_cons_self, fun p q hp hq ne => ?_⟩
  obtain ⟨w, mem, separates⟩ := exists_separator separated
    (mem_sortBy.mpr (mem_reachable.mpr hp)) (mem_sortBy.mpr (mem_reachable.mpr hq)) ne
  exact ⟨w, Word.mem_arrange.mpr (List.mem_cons_of_mem [] mem), separates⟩

/-- The words of the suite are the stems, each with each ending. -/
theorem testSet_eq_ok (made : c.testSet = .ok tests) :
    ∃ endings, c.characterisation = .ok endings ∧
      ∀ w, w ∈ tests ↔ ∃ u ∈ c.stems (c.extraStates + 1), ∃ v ∈ endings, u ++ v = w := by
  rw [testSet] at made
  obtain ⟨endings, characterised, made⟩ := bind_eq_ok.mp made
  obtain rfl := Except.ok.inj made
  have stems : ∀ u, u ∈ Word.products c.stateCover (c.powers (c.extraStates + 1)) ↔
      u ∈ c.stems (c.extraStates + 1) := by
    intro u
    simp [Word.mem_products, powers, mem_stems, mem_extensions, and_assoc]
  refine ⟨endings, characterised, fun w => ?_⟩
  simp only [Word.mem_arrange, Word.mem_products, ← stems]

/-! ### What passing the suite means -/

/-- The graph classifies the stems like the reference, and stems that lead to one of its states lead
to one state of the reference. -/
structure Passed (c : Conformance α) (g : Graph α) : Prop where
  alike : ∀ u ∈ c.stems (c.extraStates + 1), (g.liveRun g.initial u).isSome =
    (c.reference.liveRun c.reference.initial u).isSome
  faithful : ∀ u ∈ c.stems (c.extraStates + 1), ∀ v ∈ c.stems (c.extraStates + 1), ∀ s,
    g.liveRun g.initial u = some s → g.liveRun g.initial v = some s →
      c.reference.liveRun c.reference.initial u = c.reference.liveRun c.reference.initial v

theorem passed_of_agree (made : c.testSet = .ok tests)
    (agree : ∀ w ∈ tests, g.accepts w = c.reference.accepts w) : c.Passed g := by
  obtain ⟨endings, characterised, members⟩ := testSet_eq_ok made
  obtain ⟨plain, separated⟩ := characterisation_eq_ok characterised
  have tested : ∀ u ∈ c.stems (c.extraStates + 1), ∀ w ∈ endings, u ++ w ∈ tests :=
    fun u hu w hw => (members _).mpr ⟨u, hu, w, hw, rfl⟩
  have alike : ∀ u ∈ c.stems (c.extraStates + 1), (g.liveRun g.initial u).isSome =
      (c.reference.liveRun c.reference.initial u).isSome := by
    intro u hu
    have same := agree _ (tested u hu [] plain)
    rw [List.append_nil] at same
    rwa [liveRun_isSome, liveRun_isSome]
  have live : ∀ u ∈ c.stems (c.extraStates + 1), ∀ s, g.liveRun g.initial u = some s →
      ∃ q, c.reference.liveRun c.reference.initial u = some q := by
    intro u hu s hs
    have same := alike u hu
    rw [hs] at same
    exact Option.isSome_iff_exists.mp same.symm
  refine ⟨alike, fun u hu v hv s us vs => ?_⟩
  obtain ⟨p, hp⟩ := live u hu s us
  obtain ⟨q, hq⟩ := live v hv s vs
  rw [hp, hq, Option.some.injEq]
  by_contra ne
  -- An ending tells the two states of the reference apart, but behind both stems the graph goes on
  -- from one state.
  obtain ⟨w, hw, separates⟩ := separated p q ⟨u, (liveRun_eq_some.mp hp).2⟩
    ⟨v, (liveRun_eq_some.mp hq).2⟩ ne
  refine separates_iff.mp separates ?_
  calc c.reference.acceptsFrom p w
      = c.reference.accepts (u ++ w) := (acceptsFrom_append_of_liveRun hp).symm
    _ = g.accepts (u ++ w) := (agree _ (tested u hu w hw)).symm
    _ = g.acceptsFrom s w := acceptsFrom_append_of_liveRun us
    _ = g.accepts (v ++ w) := (acceptsFrom_append_of_liveRun vs).symm
    _ = c.reference.accepts (v ++ w) := agree _ (tested v hv w hw)
    _ = c.reference.acceptsFrom q w := acceptsFrom_append_of_liveRun hq

/-! ### The states that stems meet -/

/-- The states of a graph to which words of the state cover lead with up to so many labels more. -/
def met (c : Conformance α) (g : Graph α) (n : Nat) : Finset StateId :=
  ((c.stems n).filterMap (g.liveRun g.initial)).toFinset

omit [LawfulEqOrd α] in
theorem mem_met : s ∈ c.met g n ↔ ∃ u ∈ c.stems n, g.liveRun g.initial u = some s := by
  rw [met, List.mem_toFinset, List.mem_filterMap]

omit [LawfulEqOrd α] in
theorem met_subset_succ : c.met g n ⊆ c.met g (n + 1) := by
  intro s hs
  obtain ⟨u, hu, leads⟩ := mem_met.mp hs
  exact mem_met.mpr ⟨u, mem_stems_of_le hu n.le_succ, leads⟩

omit [LawfulEqOrd α] in
theorem met_subset_acceptingStates : c.met g n ⊆ g.acceptingStates := by
  intro s hs
  obtain ⟨u, _, leads⟩ := mem_met.mp hs
  exact mem_acceptingStates.mpr (accepting?_of_liveRun leads)

/-- The state cover meets a state for each accepting state of the reference. -/
theorem Passed.card_liveStates_le (passed : c.Passed g)
    (leaves : ∀ q, c.reference.Reaches c.reference.initial q →
      c.reference.accepting? q = some false → c.reference.isLeaf q = true) :
    c.reference.liveStates.card ≤ (c.met g 0).card := by
  refine Finset.card_le_card_of_forall_subsingleton
    (fun q s => ∃ u ∈ c.stems 0, g.liveRun g.initial u = some s ∧
      c.reference.liveRun c.reference.initial u = some q) (fun q hq => ?_) ?_
  · obtain ⟨accepting, reached⟩ := mem_liveStates.mp hq
    obtain ⟨u, cover, run⟩ := exists_mem_stateCover reached
    have accepted := accepts_of_run leaves run accepting
    have live := passed.alike u (mem_stems_of_cover cover)
    rw [liveRun_isSome.trans accepted] at live
    obtain ⟨s, leads⟩ := Option.isSome_iff_exists.mp live
    have stem : u ∈ c.stems 0 := mem_stems_of_cover cover
    exact ⟨s, mem_met.mpr ⟨u, stem, leads⟩, u, stem, leads, liveRun_eq_some.mpr ⟨accepted, run⟩⟩
  · rintro s _ p ⟨_, u, hu, us, up⟩ q ⟨_, v, hv, vs, vq⟩
    have same := passed.faithful u (mem_stems_of_le hu (Nat.zero_le _)) v
      (mem_stems_of_le hv (Nat.zero_le _)) s us vs
    rw [up, vq] at same
    exact Option.some.inj same

omit [Ord α] [TransOrd α] [LawfulEqOrd α] in
/-- Sets that only ascend and leave room for a few more members than the first one has do not ascend
at every step. -/
theorem exists_subset_of_card_le {S : Nat → Finset StateId} {all : Finset StateId} {k : Nat}
    (ascending : ∀ n, S n ⊆ S (n + 1)) (inside : ∀ n, S n ⊆ all)
    (few : all.card ≤ (S 0).card + k) : ∃ n ≤ k, S (n + 1) ⊆ S n := by
  by_contra! grows
  -- Each of the first steps adds a state, one more than there is room for.
  have count : ∀ n ≤ k + 1, (S 0).card + n ≤ (S n).card := by
    intro n
    induction n with
    | zero => exact fun _ => Nat.le_refl _
    | succ n ih =>
        intro le
        have more := Finset.card_lt_card ⟨ascending n, grows n (Nat.le_of_succ_le_succ le)⟩
        exact Nat.lt_of_le_of_lt (ih (Nat.le_of_succ_le le)) more
  have most := Finset.card_le_card (inside (k + 1))
  have many := count (k + 1) (Nat.le_refl _)
  omega

/-- If no state is new after some length, every word goes on both sides where a stem of at most this
length goes. -/
theorem Passed.follow (passed : c.Passed g) (labels : ∀ a ∈ g.alphabet, a ∈ c.reference.alphabet)
    (le : n ≤ c.extraStates) (full : c.met g (n + 1) ⊆ c.met g n) (w : Word α) :
    (g.liveRun g.initial w = none ∧ c.reference.liveRun c.reference.initial w = none) ∨
      ∃ u ∈ c.stems n, g.liveRun g.initial w = g.liveRun g.initial u ∧
        c.reference.liveRun c.reference.initial w =
          c.reference.liveRun c.reference.initial u := by
  induction w using List.reverseRecOn with
  | nil => exact .inr ⟨[], mem_stems_of_cover nil_mem_stateCover, rfl, rfl⟩
  | append_singleton w a ih =>
      by_cases label : a ∈ c.reference.alphabet
      · rcases ih with ⟨left, right⟩ | ⟨u, hu, left, right⟩
        · refine .inl ⟨?_, ?_⟩
          · rw [liveRun_concat, left, Option.bind_none]
          · rw [liveRun_concat, right, Option.bind_none]
        · rw [liveRun_concat, liveRun_concat, left, right, ← liveRun_concat, ← liveRun_concat]
          have longer := concat_mem_stems hu label
          have stem := mem_stems_of_le longer (Nat.succ_le_succ le)
          cases leads : g.liveRun g.initial (u ++ [a]) with
          | none =>
              have alike := passed.alike _ stem
              rw [leads] at alike
              exact .inl ⟨rfl, Option.not_isSome_iff_eq_none.mp (by rw [← alike]; exact nofun)⟩
          | some s =>
              -- The state was met before, so a shorter stem leads there, on both sides.
              obtain ⟨v, hv, leads'⟩ := mem_met.mp (full (mem_met.mpr ⟨_, longer, leads⟩))
              have stem' := mem_stems_of_le hv (Nat.le_succ_of_le le)
              exact .inr ⟨v, hv, leads'.symm, passed.faithful _ stem v stem' s leads leads'⟩
      · exact .inl ⟨liveRun_concat_eq_none fun mem => label (labels a mem),
          liveRun_concat_eq_none label⟩

/-- A graph that passes the suite of a reference, has no other labels and has no more accepting
states than the reference and the extra ones together is equivalent to the reference. -/
theorem suite_complete (c : Conformance α)
    (leaves : ∀ q, c.reference.Reaches c.reference.initial q →
      c.reference.accepting? q = some false → c.reference.isLeaf q = true)
    (tests : List (Word α)) (made : c.testSet = .ok tests) (g : Graph α)
    (labels : ∀ a ∈ g.alphabet, a ∈ c.reference.alphabet)
    (few : g.acceptingStates.card ≤ c.reference.liveStates.card + c.extraStates)
    (agree : ∀ w ∈ tests, g.accepts w = c.reference.accepts w) :
    g.difference c.reference = none := by
  have passed := passed_of_agree made agree
  have room : g.acceptingStates.card ≤ (c.met g 0).card + c.extraStates :=
    few.trans (Nat.add_le_add_right (passed.card_liveStates_le leaves) _)
  obtain ⟨n, le, full⟩ := exists_subset_of_card_le (S := c.met g) (fun _ => met_subset_succ)
    (fun _ => met_subset_acceptingStates) room
  refine difference_eq_none_iff.mpr fun w => ?_
  rw [accepts, accepts, ← liveRun_isSome, ← liveRun_isSome]
  rcases passed.follow labels le full w with ⟨left, right⟩ | ⟨u, hu, left, right⟩
  · rw [left, right]
  · rw [left, right]
    exact passed.alike u (mem_stems_of_le hu (Nat.le_succ_of_le le))

/-- Words with at most one 1. The state that rejects is a leaf. -/
def sparse : Graph Nat :=
  ((((((Graph.single true).addState true).addState false).setTarget ⟨0⟩ 0 ⟨0⟩).setTarget ⟨0⟩ 1
    ⟨1⟩).setTarget ⟨1⟩ 0 ⟨1⟩).setTarget ⟨1⟩ 1 ⟨2⟩

/-- The same words, but the parity of the zeros before the 1 is kept as well. -/
def parity : Graph Nat :=
  (((((((Graph.single true).addState true).addState true).setTarget ⟨0⟩ 0 ⟨2⟩).setTarget ⟨2⟩ 0
    ⟨0⟩).setTarget ⟨0⟩ 1 ⟨1⟩).setTarget ⟨2⟩ 1 ⟨1⟩).setTarget ⟨1⟩ 0 ⟨1⟩

theorem parity_passes : ∃ tests, (Conformance.mk sparse 1).testSet = .ok tests ∧
    (∀ w ∈ tests, parity.accepts w = sparse.accepts w) ∧ parity.acceptingStates.card = 3 ∧
      sparse.liveStates.card = 2 ∧ parity.difference sparse = none := by
  have facts : ((Conformance.mk sparse 1).testSet.map fun tests =>
        tests.all fun w => parity.accepts w == sparse.accepts w) = .ok true ∧
      (∀ q ∈ sparse.reachable sparse.initial,
        sparse.accepting? q = some false → sparse.isLeaf q = true) ∧
      (∀ a ∈ parity.alphabet, a ∈ sparse.alphabet) ∧ parity.acceptingStates.card = 3 ∧
      sparse.liveStates.card = 2 := by decide +kernel
  obtain ⟨agree, leaves, labels, three, two⟩ := facts
  cases made : (Conformance.mk sparse 1).testSet with
  | error e =>
      rw [made] at agree
      cases agree
  | ok tests =>
      rw [made] at agree
      have all := List.all_eq_true.mp (Except.ok.inj agree)
      have same : ∀ w ∈ tests, parity.accepts w = sparse.accepts w :=
        fun w hw => beq_iff_eq.mp (all w hw)
      have few : parity.acceptingStates.card ≤ sparse.liveStates.card + 1 := by rw [three, two]
      refine ⟨tests, rfl, same, three, two, ?_⟩
      exact suite_complete ⟨sparse, 1⟩ (fun q reached => leaves q (mem_reachable.mpr reached)) tests
        made parity labels few same

/-- One accepting state too many, and a graph that is not equivalent can pass. -/
example :
    let reference : Graph Nat := (Graph.single true).setTarget ⟨0⟩ 0 ⟨0⟩
    let g : Graph Nat := ((Graph.single true).addState true).setTarget ⟨0⟩ 0 ⟨1⟩
    ((Conformance.mk reference 0).testSet.map fun tests =>
        tests.all fun w => g.accepts w == reference.accepts w) = .ok true ∧
      g.acceptingStates.card = reference.liveStates.card + 1 ∧
      g.difference reference = some [0, 0] := by decide +kernel

end Conformance

end BlueFringe
