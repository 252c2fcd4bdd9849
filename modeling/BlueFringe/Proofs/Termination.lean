import BlueFringe.Proofs.Inquiries
import BlueFringe.Proofs.Preference
import BlueFringe.Proofs.Moves
import Mathlib.Data.Finset.Prod
import Mathlib.Logic.Function.Iterate

/-!
# Searches end

Merges and promotions use up the states that are not red, exclusions use up pairs of states, and all
other moves lead on towards one of these. The sum of what is left falls with every step, and it is
never above the number of steps that a run allows for. So a run that nothing stops ends with the
search being over.
-/

namespace BlueFringe

open Std

variable {α ω : Type} [Ord α] [TransOrd α]

/-! ### States that are left -/

namespace Graph

omit [TransOrd α] in
theorem card_states (g : Graph α) : g.stateIds.toFinset.card = g.size := by
  rw [List.toFinset_card_of_nodup nodup_stateIds, length_stateIds]

/-- The states that are not red. -/
def undecided (g : Graph α) : Finset StateId :=
  g.stateIds.toFinset.filter fun q => g.colour? q ≠ some .red

variable {g merged : Graph α} {q : StateId}

omit [TransOrd α] in
theorem mem_undecided : q ∈ g.undecided ↔ q ∈ g ∧ g.colour? q ≠ some .red := by
  simp [undecided]

theorem RootedTree.card_undecided (tree : g.RootedTree) : g.undecided.card = g.size := by
  have all : g.undecided = g.stateIds.toFinset := by
    refine Finset.filter_true_of_mem fun q _ red => ?_
    cases tree.plain q _ red
  rw [all, card_states]

theorem RootedTree.card_undecided_begin (tree : g.RootedTree) :
    (g.clearColours.setColour g.initial .red).undecided.card + 1 = g.size := by
  have rest : (g.clearColours.setColour g.initial .red).undecided =
      g.stateIds.toFinset.erase g.initial := by
    ext q
    rw [mem_undecided, Finset.mem_erase, List.mem_toFinset, mem_stateIds, ne_eq,
      colour?_begin tree.initial, setColour, mem_update, clearColours, mem_mapStates, and_comm]
  have present : g.initial ∈ g.stateIds.toFinset := by simpa using tree.initial
  rw [rest, Finset.card_erase_add_one present, card_states]

variable [LawfulEqOrd α]

theorem undecided_recolour : g.recolour.undecided = g.undecided := by
  ext q
  rw [mem_undecided, mem_undecided, ne_eq, colour?_recolour_eq_red]
  exact and_congr_left fun _ => mem_mapStates

theorem Fringed.mem_undecided_of_frontier (fringed : g.Fringed) (front : q ∈ g.frontier) :
    q ∈ g.undecided :=
  mem_undecided.mpr ⟨fringed.mem_of_mem_frontier front, (mem_frontier.mp front).2⟩

omit [TransOrd α] [LawfulEqOrd α] in
theorem card_undecided_promote (undecided : q ∈ g.undecided) :
    (g.setColour q .red).undecided.card + 1 = g.undecided.card := by
  have rest : (g.setColour q .red).undecided = g.undecided.erase q := by
    ext p
    obtain ⟨s, hs⟩ := mem_iff_exists.mp (mem_undecided.mp undecided).1
    rw [Finset.mem_erase, mem_undecided, mem_undecided, setColour, mem_update, ← setColour,
      colour?_setColour]
    by_cases here : q = p
    · subst here
      simp [hs]
    · simp [here, Ne.symm here]
  rw [rest, Finset.card_erase_add_one undecided]

omit [LawfulEqOrd α] in
theorem Fringed.card_undecided_lt (fringed : g.Fringed) : g.undecided.card < g.size := by
  have root : g.initial ∉ g.undecided := fun h => (mem_undecided.mp h).2 fringed.rooted
  have present : g.initial ∈ g.stateIds.toFinset := by simpa using fringed.initial_mem
  have fewer : g.undecided ⊂ g.stateIds.toFinset :=
    (Finset.ssubset_iff_of_subset (Finset.filter_subset _ _)).mpr ⟨g.initial, present, root⟩
  exact g.card_states ▸ Finset.card_lt_card fewer

theorem Fringed.red_of_frontier_empty (fringed : g.Fringed) (none_left : g.frontier = []) :
    ∀ q ∈ g, g.colour? q = some .red := by
  intro q hq
  let Red (q : StateId) : Prop := g.colour? q = some .red
  -- Whatever is entered from a red state is red itself, or it would be on the frontier.
  refine (fringed.reached q hq).induct (P := Red) fringed.rooted fun r a p _ hr ha => ?_
  by_contra other
  have front : p ∈ g.frontier := mem_frontier.mpr ⟨⟨r, a, hr, ha⟩, other⟩
  rw [none_left] at front
  cases front

/-- What a merge takes away was not red. -/
theorem Merges.card_undecided {m : Identification} (merges : g.Merges m merged)
    (fringed : g.Fringed) (front : m.pair.blue ∈ g.frontier) :
    merged.undecided.card + m.size = g.undecided.card := by
  have below : m.replaced.toFinset ⊆ g.undecided := by
    intro q hq
    have replaced := List.mem_toFinset.mp hq
    exact mem_undecided.mpr
      ⟨merges.replaced_mem replaced, merges.not_red_of_replaced fringed front replaced⟩
  have rest : merged.undecided = g.undecided \ m.replaced.toFinset := by
    ext q
    rw [mem_undecided, Finset.mem_sdiff, mem_undecided, List.mem_toFinset]
    constructor
    · rintro ⟨hq, other⟩
      obtain ⟨hg, kept⟩ := (merges.mem q).mp hq
      exact ⟨⟨hg, merges.colour q hq ▸ other⟩, kept⟩
    · rintro ⟨⟨hg, other⟩, kept⟩
      have hq := (merges.mem q).mpr ⟨hg, kept⟩
      exact ⟨hq, (merges.colour q hq).symm ▸ other⟩
  have taken : m.replaced.toFinset.card = m.size := by
    rw [← merges.moved_eq, merges.card_moved]
  rw [rest, ← taken, Finset.card_sdiff_add_card_eq_card below]

omit [LawfulEqOrd α] in
theorem Folds.size_pos {m : Identification} (folds : g.Folds m) : 0 < m.size :=
  List.length_pos_of_mem folds.pair_mem

end Graph

theorem Settings.Weighs.opened {settings : Settings α} {g : Graph α}
    {excluded : ExtTreeSet StatePair compare} {scored others : List Candidate} {best : Candidate}
    (weighs : settings.Weighs g excluded scored (best :: others)) :
    best.pair ∈ g.openPairs excluded := by
  have listed : best ∈ g.candidates scored := weighs.left ▸ List.mem_cons_self
  exact ((Graph.mem_scoredPairs weighs.made).mp (Graph.mem_candidates.mp listed).1).1

/-! ### What is left to do -/

/-- How far a phase is from the next decision. -/
def Phase.weight : Phase α → Nat
  | .explore => 3
  | .select _ _ => 2
  | .initial | .merge _ _ | .promote => 1
  | .done => 0

omit [TransOrd α] in
theorem Phase.eq_done {phase : Phase α} (ended : phase.isDone = true) : phase = .done := by
  cases phase with
  | done => rfl
  | initial | explore | select | merge | promote => cases ended

omit [TransOrd α] in
theorem Phase.weight_eq_zero {phase : Phase α} : phase.weight = 0 ↔ phase.isDone = true := by
  cases phase <;> simp [weight, isDone]

namespace Learner

/-- The pairs of states that are not excluded. -/
def openings (l : Learner α ω) : Finset (StateId × StateId) :=
  (l.graph.stateIds.toFinset ×ˢ l.graph.stateIds.toFinset).filter fun pair =>
    (⟨pair.1, pair.2⟩ : StatePair) ∉ l.excluded

/-- What a search has left to do at most. -/
def potential (l : Learner α ω) : Nat :=
  3 * l.graph.undecided.card + 2 * l.openings.card + l.phase.weight

variable {l l' : Learner α ω}

omit [TransOrd α] in
theorem mem_openings {entry : StateId × StateId} : entry ∈ l.openings ↔
    entry.1 ∈ l.graph ∧ entry.2 ∈ l.graph ∧ (⟨entry.1, entry.2⟩ : StatePair) ∉ l.excluded := by
  simp [openings, and_assoc]

omit [TransOrd α] in
theorem card_openings_le (states : ∀ q ∈ l'.graph, q ∈ l.graph)
    (excluded : ∀ pair ∈ l.excluded, pair ∈ l'.excluded) :
    l'.openings.card ≤ l.openings.card := by
  refine Finset.card_le_card fun entry h => ?_
  obtain ⟨blue, red, free⟩ := mem_openings.mp h
  exact mem_openings.mpr ⟨states _ blue, states _ red, fun h => free (excluded _ h)⟩

omit [TransOrd α] in
theorem card_openings_exclude {pair : StatePair} (blue : pair.blue ∈ l.graph)
    (red : pair.red ∈ l.graph) (free : pair ∉ l.excluded) :
    (l.exclude pair).2.openings.card < l.openings.card := by
  have here : (pair.blue, pair.red) ∈ l.openings := mem_openings.mpr ⟨blue, red, free⟩
  have gone : (pair.blue, pair.red) ∉ (l.exclude pair).2.openings :=
    fun h => (mem_openings.mp h).2.2 ExtTreeSet.mem_insert_self
  have fewer : (l.exclude pair).2.openings ⊆ l.openings := by
    intro entry h
    obtain ⟨hb, hr, kept⟩ := mem_openings.mp h
    exact mem_openings.mpr ⟨hb, hr, fun h => kept (ExtTreeSet.mem_insert.mpr (Or.inr h))⟩
  exact Finset.card_lt_card ((Finset.ssubset_iff_of_subset fewer).mpr ⟨_, here, gone⟩)

/-- The bound on the steps of a run allows for all that is left to do. -/
theorem Sound.potential_le [LawfulEqOrd α] (sound : l.Sound) : l.potential ≤ l.stepBound := by
  have pairs : l.openings.card ≤ l.graph.size * l.graph.size := by
    refine (Finset.card_filter_le _ _).trans ?_
    rw [Finset.card_product, Graph.card_states]
  have states : 3 * l.graph.undecided.card + l.phase.weight ≤ 3 * l.graph.size + 2 := by
    cases phase : l.phase with
    | initial =>
        rw [Sound, phase] at sound
        rw [sound.card_undecided, Phase.weight]
        omega
    | _ =>
        have fewer := (sound.fringed (by simp [phase])).card_undecided_lt
        simp only [Phase.weight]
        omega
  unfold potential stepBound
  rw [Nat.mul_assoc]
  omega

/-! ### Every step does some of it -/

section Moves

variable [LawfulEqOrd α]

theorem left_recoloured : l.recoloured.graph.undecided.card = l.graph.undecided.card ∧
    l.recoloured.openings.card ≤ l.openings.card :=
  ⟨congrArg Finset.card Graph.undecided_recolour,
    card_openings_le (fun _ => Graph.mem_mapStates.mp) fun _ => id⟩

/-- A promotion leaves one state less to decide on. -/
theorem left_promote {blue : StateId} (fringed : l.graph.Fringed)
    (front : blue ∈ l.graph.recolour.frontier) :
    (l.recoloured.promote blue).2.graph.undecided.card + 1 = l.graph.undecided.card ∧
      (l.recoloured.promote blue).2.openings.card ≤ l.openings.card := by
  have undecided := fringed.recolour.1.mem_undecided_of_frontier front
  have fewer := Graph.card_undecided_promote undecided
  rw [Graph.undecided_recolour] at fewer
  refine ⟨fewer, card_openings_le (fun q hq => ?_) fun _ => id⟩
  exact Graph.mem_mapStates.mp (Graph.mem_update.mp hq)

/-- A merge leaves fewer states to decide on, by as many as it takes away. -/
theorem left_commit {chosen : Candidate} {merged : Graph α} (fringed : l.graph.Fringed)
    (fits : chosen.Fits l.graph) (merges : l.graph.Merges chosen.identification merged) :
    (l.commit chosen merged).2.graph.undecided.card + chosen.identification.size =
        l.graph.undecided.card ∧
      (l.commit chosen merged).2.openings.card ≤ l.openings.card := by
  have front : chosen.identification.pair.blue ∈ l.graph.frontier := fits.paired ▸ fits.blue
  refine ⟨merges.card_undecided fringed front, card_openings_le (fun q hq => ?_) fun _ => id⟩
  exact ((merges.mem q).mp hq).1

omit [TransOrd α] [LawfulEqOrd α] in
theorem potential_lt_of_weight (states : l'.graph.undecided.card ≤ l.graph.undecided.card)
    (pairs : l'.openings.card ≤ l.openings.card) (weight : l'.phase.weight < l.phase.weight) :
    l'.potential < l.potential := by
  unfold potential
  omega

theorem potential_promote_lt {blue : StateId} (fringed : l.graph.Fringed)
    (front : blue ∈ l.graph.recolour.frontier) (going : 0 < l.phase.weight) :
    (l.recoloured.promote blue).2.potential < l.potential := by
  obtain ⟨fewer, pairs⟩ := left_promote fringed front
  have next : (l.recoloured.promote blue).2.phase.weight = 3 := rfl
  unfold potential
  omega

variable [Oracle ω α] {s : Step}

/-- Unless the search is over, a step that succeeds leaves less to do. -/
theorem Move.potential_lt (coherent : l.Coherent) (move : l.Move (.ok s) l')
    (going : l.phase.isDone = false) : l'.potential < l.potential := by
  -- A decision leads back to exploring, the heaviest phase: it has to pay for that with a state or
  -- a pair. All other moves leave states and pairs alone and go on to a lighter phase.
  have sound := coherent.sound
  rw [Sound] at sound
  obtain ⟨states, pairs⟩ := left_recoloured (l := l)
  cases move with
  | begin phase =>
      rw [phase] at sound
      have all := sound.card_undecided
      have fewer : l.begin.graph.undecided.card + 1 = l.graph.size := sound.card_undecided_begin
      have pairs : l.begin.openings.card ≤ l.openings.card :=
        card_openings_le (fun q hq => Graph.mem_mapStates.mp (Graph.mem_update.mp hq)) fun _ => id
      have next : l.begin.phase.weight = 3 := rfl
      have now : l.phase.weight = 1 := by rw [phase, Phase.weight]
      unfold potential
      omega
  | finish phase none_left =>
      have now : 0 < l.phase.weight := by
        rcases phase with phase | phase <;> simp [phase, Phase.weight]
      exact potential_lt_of_weight states.le pairs now
  | hasten phase made stuck =>
      rw [phase] at sound
      have front := Settings.mem_frontier_of_waiting? stuck
      exact potential_promote_lt sound front (by simp [phase, Phase.weight])
  | @weigh scored choices phase weighs =>
      have next : (Phase.ofChoices choices : Phase α).weight < 3 := by
        cases choices <;> simp [Phase.ofChoices, Phase.weight]
      have now : l.phase.weight = 3 := by rw [phase, Phase.weight]
      exact potential_lt_of_weight states.le pairs (now ▸ next)
  | choose phase made asked =>
      have now : l.phase.weight = 2 := by rw [phase, Phase.weight]
      exact potential_lt_of_weight le_rfl le_rfl (now ▸ Nat.one_lt_two)
  | @exclude best others merged inquiry phase made asked =>
      have weighed := coherent.weighed
      rw [Weighed, phase] at weighed
      rw [phase] at sound
      obtain ⟨scored, weighs⟩ := weighed
      obtain ⟨front, red, free⟩ := Graph.mem_openPairs.mp weighs.opened
      have blue := sound.1.mem_of_mem_frontier front
      have pairs := card_openings_exclude blue (Graph.mem_of_colour red) free
      have fewer : ({ l with inquiry }.exclude best.pair).2.openings.card < l.openings.card := pairs
      have states : ({ l with inquiry }.exclude best.pair).2.graph.undecided =
        l.graph.undecided := rfl
      have next : ({ l with inquiry }.exclude best.pair).2.phase.weight = 3 := rfl
      have now : l.phase.weight = 2 := by rw [phase, Phase.weight]
      unfold potential
      rw [states]
      omega
  | @commit chosen merged phase =>
      rw [phase] at sound
      obtain ⟨fringed, _, fits, merges⟩ := sound
      obtain ⟨fewer, pairs⟩ := left_commit fringed fits merges
      have taken := merges.size_pos
      have next : (l.commit chosen merged).2.phase.weight = 3 := rfl
      have now : l.phase.weight = 1 := by rw [phase, Phase.weight]
      unfold potential
      omega
  | promote phase front =>
      rw [phase] at sound
      have front := Graph.mem_frontier_recolour.mpr (front ▸ List.mem_cons_self)
      exact potential_promote_lt sound.1 front (by simp [phase, Phase.weight])
  | rest phase =>
      rw [phase] at going
      cases going

end Moves

/-! ### Runs -/

/-- The search after so many steps. -/
def after [Oracle ω α] (l : Learner α ω) (k : Nat) : Learner α ω := (fun l => l.step.2)^[k] l

section Runs

variable [Oracle ω α]

@[simp] theorem after_zero : l.after 0 = l := rfl

theorem after_succ (k : Nat) : l.after (k + 1) = (l.after k).step.2 :=
  Function.iterate_succ_apply' ..

/-- A run follows the steps as long as nothing stops it. -/
theorem advance_add {stop : Learner α ω → Bool} {k rest : Nat}
    (way : ∀ j < k, (l.after j).phase.isDone = false ∧ (l.after j).stopBefore stop = none ∧
      ∃ s, (l.after j).step.1 = .ok s) :
    l.advance stop (k + rest) = (l.after k).advance stop rest := by
  induction k generalizing l with
  | zero => rw [Nat.zero_add, after_zero]
  | succ k ih =>
      obtain ⟨going, free, s, fine⟩ := way 0 k.succ_pos
      have made : l.step = (.ok s, l.step.2) := Prod.ext fine rfl
      have next := ih (l := l.step.2) fun j hj => way (j + 1) (Nat.succ_lt_succ hj)
      simp only [after_zero] at going free
      rw [Nat.succ_add, advance, if_neg (Bool.eq_false_iff.mp going), free]
      dsimp only
      rw [made]
      exact next

theorem advance_eq_after {stop : Learner α ω → Bool} {steps k : Nat} (enough : k ≤ steps)
    (ended : (l.after k).phase.isDone = true)
    (way : ∀ j < k, (l.after j).phase.isDone = false ∧ (l.after j).stopBefore stop = none ∧
      ∃ s, (l.after j).step.1 = .ok s) : l.advance stop steps = (.ok (), l.after k) := by
  obtain ⟨rest, rfl⟩ := Nat.exists_eq_add_of_le enough
  rw [advance_add way]
  cases rest with
  | zero => rfl
  | succ rest =>
      rw [advance]
      exact if_pos ended

variable [LawfulEqOrd α]

theorem Coherent.after (coherent : l.Coherent) (k : Nat) : (l.after k).Coherent := by
  induction k with
  | zero => exact coherent
  | succ k ih =>
      rw [after_succ]
      exact ih.step

theorem Coherent.settings_after (coherent : l.Coherent) (k : Nat) :
    (l.after k).settings = l.settings := by
  induction k with
  | zero => rfl
  | succ k ih =>
      rw [after_succ]
      exact (coherent.after k).move.settings_eq.trans ih

/-- As long as steps succeed, what is left to do falls by one at least with each. -/
theorem Coherent.potential_after (coherent : l.Coherent) {k : Nat}
    (way : ∀ j < k, (l.after j).phase.isDone = false ∧ ∃ s, (l.after j).step.1 = .ok s) :
    (l.after k).potential + k ≤ l.potential := by
  induction k with
  | zero => exact le_rfl
  | succ k ih =>
      have before := ih fun j hj => way j (Nat.lt_succ_of_lt hj)
      obtain ⟨going, s, fine⟩ := way k k.lt_succ_self
      have move := (coherent.after k).move
      rw [fine, ← after_succ] at move
      have less := move.potential_lt (coherent.after k) going
      omega

/-- A run that nothing stops ends with the search being over. -/
theorem isDone_of_advance {stop : Learner α ω → Bool} {steps : Nat} (coherent : l.Coherent)
    (enough : l.potential ≤ steps) (fine : (l.advance stop steps).1 = .ok ()) :
    (l.advance stop steps).2.phase.isDone = true := by
  induction steps generalizing l with
  | zero =>
      have still : l.phase.weight = 0 := by
        unfold potential at enough
        omega
      rw [advance]
      exact Phase.weight_eq_zero.mp still
  | succ steps ih =>
      rw [advance] at fine ⊢
      split
      · assumption
      · rename_i going
        rw [if_neg going] at fine
        split
        · rename_i stopped
          rw [stopped] at fine
          cases fine
        · rename_i free
          rw [free] at fine
          dsimp only at fine
          have move := coherent.move
          have next := coherent.step
          split
          · rename_i made
            rw [made] at fine
            cases fine
          · rename_i l' made
            rw [made] at fine move next
            have less : l'.potential < l.potential :=
              move.potential_lt coherent (Bool.eq_false_iff.mpr going)
            exact ih next (by omega) fine

end Runs

/-! ### Oracles that always answer -/

variable [Oracle ω α] {out : Except (LearnError α) Step}

/-- With an oracle that always answers no step fails. -/
theorem Move.exists_ok (answers : Oracle.Answers α l.inquiry.oracle) (move : l.Move out l') :
    (∃ s, out = .ok s) ∧ Oracle.Answers α l'.inquiry.oracle := by
  rcases move.inquiry_cases with ⟨fine, same⟩ | ⟨questions, passed, asked, fine⟩
  · exact ⟨fine, same ▸ answers⟩
  · have later := Inquiry.exists_passes l.settings.constraints answers questions
    rw [asked] at later
    exact ⟨fine later.1, later.2⟩

variable [LawfulEqOrd α]

/-- With an oracle that always answers a search is over after finitely many steps. -/
theorem Coherent.exists_done (coherent : l.Coherent)
    (answers : Oracle.Answers α l.inquiry.oracle) :
    ∃ k ≤ l.potential, (l.after k).phase.isDone = true ∧
      ∀ j < k, (l.after j).phase.isDone = false ∧ ∃ s, (l.after j).step.1 = .ok s := by
  -- Steps of the search are the recursion here, what is left to do only bounds their number.
  induction left : l.potential using Nat.strong_induction_on generalizing l with
  | _ n ih =>
      by_cases ended : l.phase.isDone = true
      · exact ⟨0, Nat.zero_le _, ended, fun j hj => absurd hj (Nat.not_lt_zero j)⟩
      · have going := Bool.eq_false_iff.mpr ended
        have move := coherent.move
        obtain ⟨⟨s, fine⟩, later⟩ := move.exists_ok answers
        rw [fine] at move
        have less := move.potential_lt coherent going
        obtain ⟨k, few, done, way⟩ := ih _ (left ▸ less) coherent.step later rfl
        refine ⟨k + 1, by omega, done, fun j hj => ?_⟩
        cases j with
        | zero => exact ⟨going, s, fine⟩
        | succ j => exact way j (Nat.lt_of_succ_lt_succ hj)

end Learner

end BlueFringe
