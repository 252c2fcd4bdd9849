import BlueFringe.Proofs.Moves
import BlueFringe.Proofs.Preference

/-!
# Decisions are greedy

Each decision of a search is the one that the hypothesis before it calls for: the pair that is
merged is the best of all that may be merged, and a state is promoted only if it is the first that
has to be. Phases hold candidates over several steps, but the hypothesis stays as it is meanwhile.
-/

namespace BlueFringe

open Std

variable {α ω : Type} [Ord α] [TransOrd α]

namespace Graph

/-- A red state leads to the state, which is not red itself. -/
def OnFrontier (g : Graph α) (q : StateId) : Prop :=
  (∃ r a, g.colour? r = some .red ∧ g.transition r a = some q) ∧ g.colour? q ≠ some .red

/-- The state has the least rank of those with a property. -/
def Foremost (g : Graph α) (P : StateId → Prop) (q : StateId) : Prop :=
  P q ∧ ∀ p, P p → p ≠ q → g.rank q < g.rank p

end Graph

namespace Learner

/-- The pair may be merged with this score: a state of the frontier and a red one, compatible by the
strategy and excluded by no decision so far. -/
structure Eligible (l : Learner α ω) (pair : StatePair) (s : Score) : Prop where
  blue : l.graph.OnFrontier pair.blue
  red : l.graph.colour? pair.red = some .red
  free : Record.excluded pair ∉ l.history
  scored : ∃ m, l.settings.strategy.score l.graph pair = .ok (s, m)
  compatible : s.isCompatible = true

/-- The pair may be merged and strictly precedes all others that may be merged. -/
def Best (l : Learner α ω) (pair : StatePair) (s : Score) : Prop :=
  l.Eligible pair s ∧
    ∀ pair' s', l.Eligible pair' s' → pair' ≠ pair →
      l.graph.pairRank pair s < l.graph.pairRank pair' s'

/-- The state of the frontier may be merged with no red state. -/
def Stuck (l : Learner α ω) (q : StateId) : Prop :=
  l.graph.OnFrontier q ∧ ∀ pair s, l.Eligible pair s → pair.blue ≠ q

/-- What the hypothesis before a decision must be like. -/
def Greedy (l : Learner α ω) : Record → Prop
  | .merged pair s _ => l.Best pair s ∧ (l.settings.promotion = .eager → ∀ q, ¬ l.Stuck q)
  | .promoted q =>
    match l.settings.promotion with
    | .whenStuck => (∀ pair s, ¬ l.Eligible pair s) ∧ l.graph.Foremost l.graph.OnFrontier q
    | .eager => l.graph.Foremost l.Stuck q
  | .excluded pair => ∃ s, l.Best pair s

variable [LawfulEqOrd α] {l : Learner α ω} {scored others : List Candidate} {best : Candidate}
  {pair : StatePair} {s : Score} {q : StateId}

/-! ### Candidates and eligible pairs -/

theorem eligible_iff (made : l.graph.scoredPairs l.settings.strategy l.excluded = .ok scored)
    (remembers : l.Remembers) :
    l.Eligible pair s ↔ ∃ c ∈ l.graph.candidates scored, c.pair = pair ∧ c.score = s := by
  constructor
  · intro eligible
    obtain ⟨m, score⟩ := eligible.scored
    have opened : pair ∈ l.graph.openPairs l.excluded :=
      Graph.mem_openPairs.mpr ⟨Graph.mem_frontier.mpr eligible.blue, eligible.red,
        fun h => eligible.free ((remembers pair).mp h)⟩
    have listed : (⟨pair, s, m⟩ : Candidate) ∈ scored :=
      (Graph.mem_scoredPairs made).mpr ⟨opened, score⟩
    exact ⟨_, Graph.mem_candidates.mpr ⟨listed, eligible.compatible⟩, rfl, rfl⟩
  · rintro ⟨c, hc, rfl, rfl⟩
    obtain ⟨listed, compatible⟩ := Graph.mem_candidates.mp hc
    obtain ⟨opened, score⟩ := (Graph.mem_scoredPairs made).mp listed
    obtain ⟨blue, red, free⟩ := Graph.mem_openPairs.mp opened
    exact ⟨Graph.mem_frontier.mp blue, red, fun h => free ((remembers c.pair).mpr h), ⟨_, score⟩,
      compatible⟩

/-- The test for states that have to be promoted does what it is meant to do. -/
theorem stuck_iff (made : l.graph.scoredPairs l.settings.strategy l.excluded = .ok scored)
    (remembers : l.Remembers) : l.Stuck q ↔ q ∈ l.graph.frontier ∧
      ((scored.filter fun c => c.pair.blue = q).all fun c => !c.score.isCompatible) = true := by
  rw [Stuck, Graph.mem_frontier]
  refine and_congr_right fun _ => ?_
  simp only [List.all_eq_true, List.mem_filter, decide_eq_true_eq, Bool.not_eq_true', and_imp]
  constructor
  · intro none_left c hc blue
    by_contra compatible
    have listed : c ∈ l.graph.candidates scored :=
      Graph.mem_candidates.mpr ⟨hc, Bool.eq_true_of_not_eq_false compatible⟩
    exact none_left c.pair c.score ((eligible_iff made remembers).mpr ⟨c, listed, rfl, rfl⟩) blue
  · intro refused pair s eligible blue
    obtain ⟨c, hc, rfl, rfl⟩ := (eligible_iff made remembers).mp eligible
    obtain ⟨listed, compatible⟩ := Graph.mem_candidates.mp hc
    rw [refused c listed blue] at compatible
    cases compatible

theorem best_of_weighs (fringed : l.graph.Fringed) (remembers : l.Remembers)
    (weighs : l.settings.Weighs l.graph l.excluded scored (best :: others)) :
    l.Best best.pair best.score := by
  have chosen : best ∈ l.graph.candidates scored := weighs.left ▸ List.mem_cons_self
  have mem : ∀ {pair s}, l.Eligible pair s → pair.blue ∈ l.graph ∧ pair.red ∈ l.graph :=
    fun eligible => ⟨fringed.mem_of_mem_frontier (Graph.mem_frontier.mpr eligible.blue),
      Graph.mem_of_colour eligible.red⟩
  have eligible := (eligible_iff weighs.made remembers).mpr ⟨best, chosen, rfl, rfl⟩
  refine ⟨eligible, fun pair s other ne => ?_⟩
  obtain ⟨c, hc, rfl, rfl⟩ := (eligible_iff weighs.made remembers).mp other
  have first := Graph.preference_of_candidates weighs.left hc ne
  obtain ⟨hbb, hbr⟩ := mem eligible
  obtain ⟨hcb, hcr⟩ := mem other
  exact (Graph.preference_eq_lt hbb hbr hcb hcr).mp first

/-- Where the candidates are known, no state has to be promoted first. -/
theorem not_stuck_of_weighs (remembers : l.Remembers) {choices : List Candidate}
    (weighs : l.settings.Weighs l.graph l.excluded scored choices)
    (eager : l.settings.promotion = .eager) : ¬ l.Stuck q := by
  have settled := weighs.settled
  simp only [Settings.waiting?, eager, Graph.stuckState?, List.find?_eq_none] at settled
  intro stuck
  obtain ⟨front, refused⟩ := (stuck_iff weighs.made remembers).mp stuck
  exact settled q front refused

theorem foremost_stuck (fringed : l.graph.Fringed) (remembers : l.Remembers)
    (made : l.graph.scoredPairs l.settings.strategy l.excluded = .ok scored)
    (found : l.graph.stuckState? scored = some q) : l.graph.Foremost l.Stuck q := by
  unfold Graph.stuckState? at found
  have refuses := List.find?_some found
  refine ⟨(stuck_iff made remembers).mpr ⟨List.mem_of_find?_eq_some found, refuses⟩,
    fun p stuck ne => ?_⟩
  obtain ⟨front, refused⟩ := (stuck_iff made remembers).mp stuck
  have first := Graph.rank_lt_of_find?_frontier (fun _ => fringed.mem_of_mem_frontier) found
  exact first p front refused ne

theorem foremost_frontier (fringed : l.graph.Fringed) {rest : List StateId}
    (front : l.graph.frontier = q :: rest) : l.graph.Foremost l.graph.OnFrontier q := by
  have found : (l.graph.frontier.find? fun _ => true) = some q := by simp [front]
  have first := Graph.rank_lt_of_find?_frontier (fun _ => fringed.mem_of_mem_frontier) found
  refine ⟨Graph.mem_frontier.mp (front ▸ List.mem_cons_self), fun p hp ne => ?_⟩
  exact first p (Graph.mem_frontier.mpr hp) rfl ne

/-- With no candidate left a state of the frontier is stuck. -/
theorem stuck_of_no_candidate (remembers : l.Remembers)
    (weighs : l.settings.Weighs l.graph l.excluded scored []) :
    (∀ pair s, ¬ l.Eligible pair s) ∧ (l.graph.OnFrontier q → l.Stuck q) := by
  have none_left : ∀ pair s, ¬ l.Eligible pair s := by
    intro pair s eligible
    obtain ⟨c, hc, _⟩ := (eligible_iff weighs.made remembers).mp eligible
    rw [weighs.left] at hc
    cases hc
  exact ⟨none_left, fun front => ⟨front, fun pair s eligible => absurd eligible (none_left pair s)⟩⟩

/-! ### Painting does not matter -/

theorem onFrontier_recolour {g : Graph α} : g.recolour.OnFrontier q ↔ g.OnFrontier q := by
  unfold Graph.OnFrontier
  simp only [Graph.transition_recolour, Graph.colour?_recolour_eq_red, ne_eq]

theorem eligible_recoloured : l.recoloured.Eligible pair s ↔ l.Eligible pair s := by
  have score : ∀ m, l.settings.strategy.score l.graph.recolour pair = .ok (s, m) ↔
      l.settings.strategy.score l.graph pair = .ok (s, m) := by
    intro m
    rw [Graph.score_recolour]
  constructor
  · intro h
    obtain ⟨m, hm⟩ := h.scored
    exact ⟨onFrontier_recolour.mp h.blue, Graph.colour?_recolour_eq_red.mp h.red, h.free,
      ⟨m, (score m).mp hm⟩, h.compatible⟩
  · intro h
    obtain ⟨m, hm⟩ := h.scored
    exact ⟨onFrontier_recolour.mpr h.blue, Graph.colour?_recolour_eq_red.mpr h.red, h.free,
      ⟨m, (score m).mpr hm⟩, h.compatible⟩

theorem stuck_recoloured : l.recoloured.Stuck q ↔ l.Stuck q := by
  have front : l.recoloured.graph.OnFrontier q ↔ l.graph.OnFrontier q := onFrontier_recolour
  simp only [Stuck, front, eligible_recoloured]

theorem foremost_recoloured (h : l.recoloured.graph.Foremost l.recoloured.Stuck q) :
    l.graph.Foremost l.Stuck q := by
  refine ⟨stuck_recoloured.mp h.1, fun p stuck ne => ?_⟩
  have first : l.graph.recolour.rank q < l.graph.recolour.rank p :=
    h.2 p (stuck_recoloured.mpr stuck) ne
  rwa [Graph.rank_recolour, Graph.rank_recolour] at first

/-! ### Every decision -/

variable [Oracle ω α] {l' : Learner α ω} {r : Record}

theorem Move.greedy (coherent : l.Coherent) (move : l.Move (.ok (.recorded r)) l') :
    l.Greedy r := by
  have remembers := coherent.remembers
  have weighed := coherent.weighed
  rw [Weighed] at weighed
  cases move with
  | hasten phase made stuck =>
      have fringed := (coherent.sound.fringed (by simp [phase])).recolour.1
      cases promotion : l.settings.promotion with
      | whenStuck => simp [Settings.waiting?, promotion] at stuck
      | eager =>
          simp only [Settings.waiting?, promotion] at stuck
          simp only [Greedy, promotion]
          have foremost := foremost_stuck (l := l.recoloured) fringed remembers made stuck
          exact foremost_recoloured foremost
  | exclude phase =>
      have fringed := coherent.sound.fringed (by simp [phase])
      rw [phase] at weighed
      obtain ⟨scored, weighs⟩ := weighed
      exact ⟨_, best_of_weighs fringed remembers weighs⟩
  | commit phase =>
      have fringed := coherent.sound.fringed (by simp [phase])
      rw [phase] at weighed
      obtain ⟨scored, others, weighs⟩ := weighed
      exact ⟨best_of_weighs fringed remembers weighs,
        fun eager q => not_stuck_of_weighs remembers weighs eager⟩
  | promote phase front =>
      have fringed := coherent.sound.fringed (by simp [phase])
      rw [phase] at weighed
      obtain ⟨scored, weighs⟩ := weighed
      obtain ⟨none_left, stuck⟩ := stuck_of_no_candidate remembers weighs
      have first := foremost_frontier fringed front
      cases promotion : l.settings.promotion with
      | whenStuck =>
          simp only [Greedy, promotion]
          exact ⟨none_left, first⟩
      | eager => exact absurd (stuck first.1) (not_stuck_of_weighs remembers weighs promotion)

/-! ### Every decision of a search -/

variable {ω₀ : Type} {start : Learner α ω₀}

/-- The decision was made by a step of the search, from a hypothesis that called for it. -/
def Traced (start : Learner α ω₀) (l : Learner α ω) (earlier : List Record) (r : Record) : Prop :=
  ∃ (ω' : Type) (_ : Oracle ω' α) (before : Learner α ω'),
    start.Reached before ∧ before.settings = start.settings ∧ before.history = earlier ∧
      before.step.1 = .ok (.recorded r) ∧ before.step.2.Reached l ∧ before.Greedy r

omit [LawfulEqOrd α] [Oracle ω α] in
theorem Traced.later {ω' : Type} {l' : Learner α ω'} {earlier : List Record}
    (extend : ∀ (ω'' : Type) (l'' : Learner α ω''), l''.Reached l → l''.Reached l') :
    start.Traced l earlier r → start.Traced l' earlier r := by
  rintro ⟨ω'', oracle, before, reached, same, history, made, later, greedy⟩
  exact ⟨ω'', oracle, before, reached, same, history, made, extend _ _ later, greedy⟩

omit [Oracle ω α] in
theorem Reached.traced (reached : start.Reached l) (coherent : start.Coherent)
    (fresh : start.history = []) :
    l.settings = start.settings ∧ ∀ i r, l.history[i]? = some r →
      start.Traced l (l.history.take i) r := by
  refine reached.induct (P := fun l => l.settings = start.settings ∧
    ∀ i r, l.history[i]? = some r → start.Traced l (l.history.take i) r) ?_ ?_ ?_
  · refine ⟨rfl, fun i r written => ?_⟩
    rw [fresh] at written
    cases written
  · intro ω _ l reached ⟨same, traced⟩
    have here := reached.coherent coherent
    have extend : ∀ (ω'' : Type) (l'' : Learner α ω''), l''.Reached l → l''.Reached l.step.2 :=
      fun _ _ later => .step later
    refine ⟨here.move.settings_eq.trans same, fun i r written => ?_⟩
    -- A step leaves what was written down before it, so only its own decision is to be explained.
    rcases here.move.history_cases with kept | ⟨last, made, appended⟩
    · rw [kept] at written ⊢
      exact (traced i r written).later extend
    · rw [appended] at written ⊢
      by_cases old : i < l.history.length
      · rw [List.getElem?_append_left old] at written
        rw [List.take_append_of_le_length old.le]
        exact (traced i r written).later extend
      · rw [List.getElem?_append_right (Nat.le_of_not_lt old), List.getElem?_singleton] at written
        split at written
        · have length : i = l.history.length := by omega
          obtain rfl : last = r := Option.some.inj written
          have move := here.move
          rw [made] at move
          have earlier : (l.history ++ [last]).take i = l.history := by
            rw [length, List.take_left]
          rw [earlier]
          exact ⟨ω, inferInstance, l, reached, same, rfl, made, .start, move.greedy here⟩
        · cases written
  · intro ω ω' l oracle reached ⟨same, traced⟩
    refine ⟨same, fun i r written => ?_⟩
    exact (traced i r written).later fun _ _ later => .withOracle oracle later

end Learner

variable [LawfulEqOrd α] {ω₀ : Type}

/-- Every decision of a search is the greedy one for the hypothesis before the step that made it:
a merge takes the first of all pairs that may be merged, a promotion the first state of the frontier
that has to be promoted by the policy. -/
theorem every_decision_is_greedy (sample : Sample α) (settings : Settings α) (oracle : ω₀)
    (start : Learner α ω₀) (created : Learner.ofSample sample settings oracle = .ok start)
    (l : Learner α ω) (reached : start.Reached l) (i : Nat) (r : Record)
    (written : l.history[i]? = some r) :
    ∃ (ω' : Type) (_ : Oracle ω' α) (before : Learner α ω'),
      start.Reached before ∧ before.settings = settings ∧ before.history = l.history.take i ∧
        before.step.1 = .ok (.recorded r) ∧ before.step.2.Reached l ∧ before.Greedy r := by
  obtain ⟨coherent, same, _, fresh⟩ := Learner.coherent_of_ofSample created
  have traced := (reached.traced coherent fresh).2 i r written
  rw [Learner.Traced, same] at traced
  exact traced

theorem contested_merged_greedily : ∃ start : Learner Nat (Informant Nat),
    Learner.ofSample contested { conflicts := .keepFirst } .silent = .ok start ∧
      ∃ (ω' : Type) (_ : Oracle ω' Nat) (before : Learner Nat ω'),
        before.step.2.Reached start.run.2 ∧ before.history = start.run.2.history.take 2 ∧
          before.Best ⟨⟨4⟩, ⟨0⟩⟩ (.compatible 0 0) := by
  have facts : (Learner.ofSample contested { conflicts := .keepFirst }
      (Informant.silent (α := Nat))).map (fun l => l.run.2.history[2]?) =
        .ok (some (.merged ⟨⟨4⟩, ⟨0⟩⟩ (.compatible 0 0) 3)) := by
    decide +kernel
  obtain ⟨start, created, third⟩ := Learner.exists_of_map_eq_ok facts
  obtain ⟨ω', oracle, before, _, _, earlier, _, later, greedy⟩ := every_decision_is_greedy
    contested { conflicts := .keepFirst } Informant.silent start created start.run.2
    (.run _ .start) 2 _ third
  exact ⟨start, created, ω', oracle, before, later, earlier, greedy.1⟩

end BlueFringe
