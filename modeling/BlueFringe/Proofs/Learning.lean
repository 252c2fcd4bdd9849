import BlueFringe.Learner.Run
import BlueFringe.Proofs.Fringe
import BlueFringe.Proofs.PrefixTree

/-!
# Invariants of the search

Between two steps the hypothesis has the shape of a fringe, and what a phase holds fits it: the
candidates can be merged, and a graph that waits to be committed is the quotient. A step keeps this
and lets the hypothesis advance, so the same is true of everything that a search turns into.
-/

namespace BlueFringe

open Std

variable {α ω ω' ω'' : Type} [Ord α] [TransOrd α]

/-- The candidate pairs the frontier with a red state, and its identification folds the pair. -/
structure Candidate.Fits (c : Candidate) (g : Graph α) : Prop where
  blue : c.pair.blue ∈ g.frontier
  red : g.colour? c.pair.red = some .red
  folds : g.Folds c.identification
  paired : c.identification.pair = c.pair
  unrejected : c.identification.rejected = false

namespace Learner

/-- What holds of a search between two steps. -/
def Sound (l : Learner α ω) : Prop :=
  match l.phase with
  | .initial => l.graph.RootedTree
  | .explore => l.graph.Fringed
  | .select best others =>
    l.graph.Fringed ∧ l.graph.Painted ∧ ∀ c ∈ best :: others, c.Fits l.graph
  | .merge chosen merged =>
    l.graph.Fringed ∧ l.graph.Painted ∧ chosen.Fits l.graph ∧
      l.graph.Merges chosen.identification merged
  | .promote => l.graph.Fringed ∧ l.graph.Painted
  | .done => l.graph.Fringed ∧ l.graph.frontier = []

/-- A search that another one may turn into. -/
structure Continues (l : Learner α ω) (l' : Learner α ω') : Prop where
  sound : l'.Sound
  advances : l.graph.Advances l'.graph
  skipped : l'.skipped = l.skipped

variable {l : Learner α ω} {l' : Learner α ω'} {l'' : Learner α ω''}

theorem Continues.refl (sound : l.Sound) : l.Continues l := ⟨sound, Graph.Advances.refl _, rfl⟩

theorem Continues.trans (first : l.Continues l') (second : l'.Continues l'') : l.Continues l'' :=
  ⟨second.sound, first.advances.trans second.advances, second.skipped.trans first.skipped⟩

variable [LawfulEqOrd α]

/-! ### Exploring -/

theorem exists_scoredPairs {g : Graph α} (fringed : g.Fringed) (strategy : Strategy)
    (excluded : ExtTreeSet StatePair compare) :
    ∃ scored, g.scoredPairs strategy excluded = .ok scored ∧
      ∀ c ∈ scored, c.score.isCompatible = true → c.Fits g := by
  let Open (pair : StatePair) : Prop :=
    pair.blue ∈ g.frontier ∧ g.colour? pair.red = some .red
  have opened : ∀ pair ∈ g.openPairs excluded, Open pair := by
    intro pair h
    simp only [Graph.openPairs, List.mem_filter, List.mem_flatMap, List.mem_map,
      Graph.mem_coloured] at h
    obtain ⟨⟨blue, hb, red, hr, rfl⟩, _⟩ := h
    exact ⟨hb, hr⟩
  unfold Graph.scoredPairs
  generalize g.openPairs excluded = pairs at opened
  induction pairs with
  | nil => exact ⟨[], rfl, fun c hc => by cases hc⟩
  | cons pair pairs ih =>
      obtain ⟨scored, hs, fits⟩ := ih fun p hp => opened p (List.mem_cons_of_mem _ hp)
      obtain ⟨blue, red⟩ := opened pair List.mem_cons_self
      have foldable := fringed.foldable blue red
      obtain ⟨score, m, hm⟩ := Strategy.exists_score foldable strategy
      refine ⟨⟨pair, score, m⟩ :: scored, ?_, fun c hc compatible => ?_⟩
      · rw [List.mapM_cons, hs, hm]
        rfl
      · rcases List.mem_cons.mp hc with rfl | hc
        · obtain ⟨folds, paired, unrejected⟩ :=
            Strategy.folds_of_compatible foldable hm compatible
          exact ⟨blue, red, folds, paired, unrejected⟩
        · exact fits c hc compatible

theorem promote_continues (fringed : l.graph.Fringed) {blue : StateId}
    (front : blue ∈ l.graph.frontier) : l.Continues (l.promote blue).2 := by
  obtain ⟨promoted, advances⟩ := fringed.promote front
  exact ⟨promoted, advances, rfl⟩

theorem explored_continues (fringed : l.graph.Fringed) (painted : l.graph.Painted)
    {scored : List Candidate}
    (fits : ∀ c ∈ scored, c.score.isCompatible = true → c.Fits l.graph) :
    l.Continues (l.explored scored).2 := by
  unfold explored
  dsimp only
  split
  · rename_i blue stuck
    have front : blue ∈ l.graph.frontier := by
      cases hp : l.settings.promotion with
      | whenStuck => simp [hp] at stuck
      | eager =>
          simp only [hp] at stuck
          exact List.mem_of_find?_eq_some stuck
    exact promote_continues fringed front
  · split
    · exact ⟨⟨fringed, painted⟩, Graph.Advances.refl _, rfl⟩
    · rename_i best others found
      refine ⟨⟨fringed, painted, fun c hc => ?_⟩, Graph.Advances.refl _, rfl⟩
      rw [← found, Graph.candidates, mem_sortBy, List.mem_filter] at hc
      exact fits c hc.1 hc.2

theorem explore_spec (fringed : l.graph.Fringed) :
    (∃ step, l.explore.1 = .ok step) ∧ l.Continues l.explore.2 := by
  obtain ⟨recoloured, advances⟩ := fringed.recolour
  obtain ⟨scored, hs, fits⟩ :=
    exists_scoredPairs recoloured l.settings.strategy l.excluded
  unfold explore
  dsimp only
  split
  · rename_i none_left
    exact ⟨⟨_, rfl⟩, ⟨recoloured, List.isEmpty_iff.mp none_left⟩, advances, rfl⟩
  · rw [hs]
    have later := explored_continues (l := { l with graph := l.graph.recolour }) recoloured
      fringed.painted_recolour fits
    exact ⟨⟨_, rfl⟩, later.sound, advances.trans later.advances, later.skipped⟩

/-! ### Deciding -/

theorem commit_continues {chosen : Candidate} {merged : Graph α} (fringed : l.graph.Fringed)
    (fits : chosen.Fits l.graph) (merges : l.graph.Merges chosen.identification merged) :
    l.Continues (l.commit chosen merged).2 := by
  have front : chosen.identification.pair.blue ∈ l.graph.frontier := fits.paired ▸ fits.blue
  have red : l.graph.colour? chosen.identification.pair.red = some .red := fits.paired ▸ fits.red
  exact ⟨merges.fringed_merged fringed front red, merges.advances fringed front, rfl⟩

theorem exists_merge {g : Graph α} {c : Candidate} (fringed : g.Fringed) (fits : c.Fits g) :
    ∃ merged, g.merge c.pair c.identification = .ok merged ∧ g.Merges c.identification merged := by
  have rooted : ¬ g.Reaches c.identification.pair.blue g.initial := by
    rw [fits.paired]
    exact fringed.not_reaches_initial (Graph.mem_frontier.mp fits.blue).2
  rw [← fits.paired]
  exact fits.folds.exists_merge fits.unrejected fringed.initial_mem rooted

variable [Oracle ω α]

/-- A selection fails only if the oracle does not answer. -/
theorem select_spec {best : Candidate} {others : List Candidate}
    (phase : l.phase = .select best others) (sound : l.Sound) :
    (∀ e, (l.select best).1 = .error e → ∃ unanswered, e = .suspended unanswered) ∧
      l.Continues (l.select best).2 := by
  have holds := sound
  rw [Sound, phase] at holds
  obtain ⟨fringed, painted, fits⟩ := holds
  have fit := fits best List.mem_cons_self
  obtain ⟨merged, made, merges⟩ := exists_merge fringed fit
  unfold select
  rw [made]
  dsimp only
  split
  · rename_i unanswered inquiry _
    refine ⟨fun e h => ⟨unanswered, (by cases h; rfl)⟩, ?_, Graph.Advances.refl _, rfl⟩
    rw [Sound]
    simp only [phase]
    exact ⟨fringed, painted, fits⟩
  · refine ⟨fun e h => (by cases h), ⟨fringed, painted, fit, merges⟩, Graph.Advances.refl _, rfl⟩
  · exact ⟨fun e h => (by cases h), fringed, Graph.Advances.refl _, rfl⟩

/-! ### Steps and runs -/

/-- One step keeps the invariant and fails only if the oracle does not answer. -/
theorem step_spec (sound : l.Sound) :
    (∀ e, l.step.1 = .error e → ∃ unanswered, e = .suspended unanswered) ∧
      l.Continues l.step.2 := by
  have holds := sound
  have explores : l.graph.Fringed →
      (∀ e, l.explore.1 = .error e → ∃ unanswered, e = .suspended unanswered) ∧
        l.Continues l.explore.2 := by
    intro fringed
    obtain ⟨⟨step, fine⟩, later⟩ := explore_spec fringed
    exact ⟨fun e h => (by rw [fine] at h; cases h), later⟩
  unfold step
  cases phase : l.phase with
  | initial =>
      rw [Sound, phase] at holds
      obtain ⟨fringed, advances⟩ := holds.begin
      exact ⟨fun e h => (by cases h), fringed, advances, rfl⟩
  | explore =>
      rw [Sound, phase] at holds
      exact explores holds
  | select best others => exact select_spec phase sound
  | merge chosen merged =>
      rw [Sound, phase] at holds
      obtain ⟨fringed, _, fits, merges⟩ := holds
      exact ⟨fun e h => (by cases h), commit_continues fringed fits merges⟩
  | promote =>
      rw [Sound, phase] at holds
      dsimp only
      split
      · exact explores holds.1
      · rename_i blue rest front
        obtain ⟨recoloured, advances⟩ := holds.1.recolour
        have mem : blue ∈ l.graph.recolour.frontier :=
          Graph.mem_frontier_recolour.mpr (front ▸ List.mem_cons_self)
        have later := promote_continues (l := { l with graph := l.graph.recolour }) recoloured mem
        exact ⟨fun e h => (by cases h), later.sound, advances.trans later.advances, later.skipped⟩
  | done => exact ⟨fun e h => (by cases h), Continues.refl sound⟩

/-- A run keeps the invariant, and only the oracle, the signal or the limit stops it. -/
theorem advance_spec (stop : Learner α ω → Bool) (steps : Nat) (sound : l.Sound) :
    (∀ e, (l.advance stop steps).1 = .error e → (∃ unanswered, e = .suspended unanswered) ∨
        (∃ n, e = .cancelled n) ∨ ∃ n, e = .iterationLimit n) ∧
      l.Continues (l.advance stop steps).2 := by
  induction steps generalizing l with
  | zero => exact ⟨fun e h => (by cases h), Continues.refl sound⟩
  | succ steps ih =>
      rw [advance]
      split
      · exact ⟨fun e h => (by cases h), Continues.refl sound⟩
      · split
        · rename_i error stopped
          refine ⟨fun e h => Or.inr ?_, Continues.refl sound⟩
          cases h
          unfold stopBefore at stopped
          split at stopped
          · exact Or.inl ⟨_, (Option.some.inj stopped).symm⟩
          · split at stopped
            · exact Or.inr ⟨_, (Option.some.inj stopped).symm⟩
            · cases stopped
        · obtain ⟨errors, later⟩ := step_spec sound
          split
          · rename_i error l₁ made
            rw [made] at errors later
            exact ⟨fun e h => Or.inl (errors e (by cases h; rfl)), later⟩
          · rename_i step l₁ made
            rw [made] at later
            obtain ⟨errors', later'⟩ := ih later.sound
            exact ⟨errors', later.trans later'⟩

end Learner

end BlueFringe
