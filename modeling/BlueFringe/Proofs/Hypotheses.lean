import BlueFringe.Proofs.Learning

/-!
# Hypotheses of a search

Whatever is done with a search for a sample, in whatever order, its hypothesis classifies the sample
as given and never takes back what it said of a word. The red states and their transitions stay, all
other states hang off them in trees, and so no step finds a pair that cannot be scored or merged.
-/

namespace BlueFringe

open Std

variable {α : Type} [Ord α] [TransOrd α]

namespace Learner

/-- The searches that one turns into by steps, by runs and by changes of the oracle. -/
inductive Reached {ω₀ : Type} (start : Learner α ω₀) : {ω : Type} → Learner α ω → Prop where
  | start : Reached start start
  | step {ω : Type} [Oracle ω α] {l : Learner α ω} : Reached start l → Reached start l.step.2
  | run {ω : Type} [Oracle ω α] {l : Learner α ω} (stop : Learner α ω → Bool) :
    Reached start l → Reached start (l.runUnless stop).2
  | withOracle {ω ω' : Type} {l : Learner α ω} (oracle : ω') :
    Reached start l → Reached start (l.withOracle oracle)

variable {ω₀ ω ω' : Type} {start : Learner α ω₀} {l : Learner α ω} {l' : Learner α ω'}

/-! ### The invariant along a search -/

theorem Reached.continues [LawfulEqOrd α] (reached : start.Reached l) (sound : start.Sound) :
    start.Continues l := by
  induction reached with
  | start => exact Continues.refl sound
  | step _ ih => exact ih.trans (step_spec ih.sound).2
  | run stop _ ih => exact ih.trans (advance_spec stop _ ih.sound).2
  | withOracle oracle _ ih => exact ⟨ih.sound, ih.advances, ih.skipped⟩

/-- A search starts with a tree that agrees with all traces that were not skipped. -/
theorem sound_of_ofSample [LawfulEqOrd α] {sample : Sample α} {settings : Settings α} {oracle : ω₀}
    (created : ofSample sample settings oracle = .ok start) :
    start.Sound ∧ ∀ i trace, sample.traces[i]? = some trace →
      (∀ c ∈ start.skipped, c.trace ≠ i) → start.graph.Agrees trace := by
  unfold ofSample at created
  split at created
  · cases created
  · rename_i tree made
    cases created
    have records := PrefixTree.records_of_ofTraces made
    exact ⟨records.tree, records.agrees⟩

theorem Sound.fringed (sound : l.Sound) (begun : l.phase ≠ .initial) : l.graph.Fringed := by
  rw [Sound] at sound
  cases phase : l.phase <;> rw [phase] at sound begun
  · exact absurd rfl begun
  · exact sound
  all_goals exact sound.1

theorem Sound.initial_mem (sound : l.Sound) : l.graph.initial ∈ l.graph := by
  by_cases begun : l.phase = .initial
  · rw [Sound, begun] at sound
    exact sound.initial
  · exact (sound.fringed begun).initial_mem

theorem Sound.closed (sound : l.Sound) : l.graph.Closed := by
  by_cases begun : l.phase = .initial
  · rw [Sound, begun] at sound
    exact sound.closed
  · exact (sound.fringed begun).closed

/-- Whether the blue states were found and the hypothesis has not changed since. -/
def isColoured (l : Learner α ω) : Bool :=
  match l.phase with
  | .select _ _ | .merge _ _ | .promote => true
  | .initial | .explore | .done => false

theorem Sound.painted (sound : l.Sound) (coloured : l.isColoured = true) : l.graph.Painted := by
  rw [Sound] at sound
  rw [isColoured] at coloured
  cases phase : l.phase <;> rw [phase] at sound coloured
  case select => exact sound.2.1
  case merge => exact sound.2.1
  case promote => exact sound.2
  all_goals cases coloured

end Learner

variable [LawfulEqOrd α] {ω₀ ω : Type}

/-- No hypothesis of a search contradicts the sample, up to the traces that were skipped. A word
that has a run in one hypothesis has a run in all later ones and is classified the same. -/
theorem hypotheses_never_contradict (sample : Sample α) (settings : Settings α) (oracle : ω₀)
    (start : Learner α ω₀) (created : Learner.ofSample sample settings oracle = .ok start)
    (l : Learner α ω) (reached : start.Reached l) :
    l.skipped = start.skipped ∧
      (∀ i trace, sample.traces[i]? = some trace → (∀ c ∈ l.skipped, c.trace ≠ i) →
        l.graph.accepts trace.word = trace.outcome.isAccept) ∧
      ∀ (ω' : Type) (l' : Learner α ω'), l.Reached l' → ∀ w,
        ((l.graph.run w).isSome = true →
          (l'.graph.run w).isSome = true ∧ l'.graph.accepts w = l.graph.accepts w) ∧
        (l.graph.accepts w = true → l'.graph.accepts w = true) := by
  obtain ⟨sound, agrees⟩ := Learner.sound_of_ofSample created
  have continues := reached.continues sound
  refine ⟨continues.skipped, fun i trace given free => ?_, fun ω' l' later w => ⟨fun h => ?_, ?_⟩⟩
  · rw [continues.skipped] at free
    exact (continues.advances.grows.agrees (agrees i trace given free)).accepts_eq
  · have grows := (later.continues continues.sound).advances.grows
    obtain ⟨q, hq⟩ := Option.isSome_iff_exists.mp h
    obtain ⟨p, hp, _⟩ := grows w q hq
    exact ⟨Option.isSome_iff_exists.mpr ⟨p, hp⟩, grows.accepts_eq hq⟩
  · exact (later.continues continues.sound).advances.grows.accepts_of_accepts

/-- Traces of which the second contradicts the first. -/
def contested : Sample Nat :=
  ⟨[.accepted [1, 1], .rejected [1], .accepted [2, 1], .rejected [2, 2], .rejected [1, 2, 2]]⟩

theorem contested_classified : ∃ start : Learner Nat (Informant Nat),
    Learner.ofSample contested { conflicts := .keepFirst } .silent = .ok start ∧
      start.skipped.map (·.trace) = [1] ∧ start.run.2.graph.accepts [2, 1] = true ∧
      start.run.2.graph.accepts [1, 2, 2] = false := by
  have facts : (Learner.ofSample contested { conflicts := .keepFirst }
      (Informant.silent (α := Nat))).map (fun l => l.skipped.map (·.trace)) = .ok [1] := by
    decide +kernel
  cases created : Learner.ofSample contested { conflicts := .keepFirst }
      (Informant.silent (α := Nat)) with
  | error e =>
      rw [created] at facts
      cases facts
  | ok start =>
      rw [created] at facts
      have skipped : start.skipped.map (·.trace) = [1] := Except.ok.inj facts
      obtain ⟨same, classified, _⟩ := hypotheses_never_contradict contested
        { conflicts := .keepFirst } Informant.silent start created start.run.2 (.run _ .start)
      have free : ∀ i, i ≠ 1 → ∀ c ∈ start.run.2.skipped, c.trace ≠ i := by
        intro i ne c hc he
        have listed := List.mem_map_of_mem (f := fun c => Conflict.trace c) (same ▸ hc)
        rw [skipped, List.mem_singleton] at listed
        exact ne (he.symm.trans listed)
      exact ⟨start, rfl, skipped, classified 2 _ rfl (free 2 (by decide)),
        classified 4 _ rfl (free 4 (by decide))⟩

/-- The shape of the fringe is kept along every search: red states and the transitions between them
stay, all else hangs off them in trees, the blue states are where the two meet. Nothing but the
oracle, the signal and the limit stops a search. -/
theorem fringe_never_broken (sample : Sample α) (settings : Settings α) (oracle : ω₀)
    (start : Learner α ω₀) (created : Learner.ofSample sample settings oracle = .ok start)
    (l : Learner α ω) (reached : start.Reached l) :
    (l.graph.initial ∈ l.graph ∧ l.graph.Closed) ∧
      (l.phase ≠ .initial → l.graph.isTrim = true ∧
        l.graph.colour? l.graph.initial = some .red ∧
        (∀ q ∈ l.graph, l.graph.colour? q ≠ some .red →
          ∃! entry : StateId × α, l.graph.transition entry.1 entry.2 = some q) ∧
        ∀ q a p, l.graph.transition q a = some p → l.graph.colour? q ≠ some .red →
          l.graph.colour? p ≠ some .red) ∧
      (l.isColoured = true → ∀ q, l.graph.colour? q = some .blue ↔
        (∃ r a, l.graph.colour? r = some .red ∧ l.graph.transition r a = some q) ∧
          l.graph.colour? q ≠ some .red) ∧
      (∀ (ω' : Type) (l' : Learner α ω'), l.Reached l' →
        (∀ q, l.graph.colour? q = some .red → l'.graph.colour? q = some .red) ∧
        ∀ q a p, l.graph.colour? q = some .red → l.graph.colour? p = some .red →
          l.graph.transition q a = some p → l'.graph.transition q a = some p) ∧
      ∀ [Oracle ω α],
        (∀ e, l.step.1 = .error e → ∃ unanswered, e = .suspended unanswered) ∧
        ∀ stop e, (l.runUnless stop).1 = .error e →
          (∃ unanswered, e = .suspended unanswered) ∨
            (∃ n, e = .cancelled n) ∨ ∃ n, e = .iterationLimit n := by
  obtain ⟨sound, _⟩ := Learner.sound_of_ofSample created
  have here := (reached.continues sound).sound
  refine ⟨⟨here.initial_mem, here.closed⟩, fun begun => ?_, fun coloured q => ?_,
    fun ω' l' later => ?_, fun {_} => ?_⟩
  · have fringed := here.fringed begun
    refine ⟨fringed.isTrim, fringed.rooted, fun q => fringed.existsUnique_parent, ?_⟩
    exact fun q a p ha hq hp => hq (fringed.outward q a p ha hp)
  · rw [here.painted coloured q, Graph.mem_frontier]
  · have advances := (later.continues here).advances
    exact ⟨advances.red, advances.core⟩
  · exact ⟨(Learner.step_spec here).1, fun stop => (Learner.advance_spec stop _ here).1⟩

theorem contested_fringed : ∃ start : Learner Nat (Informant Nat),
    Learner.ofSample contested { conflicts := .keepFirst } .silent = .ok start ∧
      start.step.2.step.2.isColoured = true ∧ start.step.2.step.2.graph.isTrim = true ∧
      ∀ e, start.step.2.step.2.step.1 = .error e → ∃ unanswered, e = .suspended unanswered := by
  have facts : (Learner.ofSample contested { conflicts := .keepFirst }
      (Informant.silent (α := Nat))).map (fun l => l.step.2.step.2.isColoured) = .ok true := by
    decide +kernel
  cases created : Learner.ofSample contested { conflicts := .keepFirst }
      (Informant.silent (α := Nat)) with
  | error e =>
      rw [created] at facts
      cases facts
  | ok start =>
      rw [created] at facts
      have coloured : start.step.2.step.2.isColoured = true := Except.ok.inj facts
      obtain ⟨_, shape, _, _, errors⟩ := fringe_never_broken contested
        { conflicts := .keepFirst } Informant.silent start created start.step.2.step.2
        (.step (.step .start))
      have begun : start.step.2.step.2.phase ≠ .initial := by
        intro h
        rw [Learner.isColoured, h] at coloured
        cases coloured
      exact ⟨start, rfl, coloured, (shape begun).1, errors.1⟩

end BlueFringe
