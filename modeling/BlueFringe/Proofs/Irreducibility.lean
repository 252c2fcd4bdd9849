import BlueFringe.Proofs.Greedy
import BlueFringe.Proofs.Termination

/-!
# Results cannot be merged further

A state is promoted when no red state agrees with it, in a hypothesis that is larger than the final
one and has trees where that one may have cycles. What spoke against a pair then still does so at
the end: later hypotheses are images of earlier ones, and a conflict that determinism forces is
handed on to every image.
-/

namespace BlueFringe

open Std

variable {α ω : Type} [Ord α] [TransOrd α]

namespace Graph

/-! ### Images of graphs -/

/-- The function maps transitions of one graph to those of another and keeps what is accepted. -/
structure Morphism (g g' : Graph α) (h : StateId → StateId) : Prop where
  transition : ∀ q a p, g.transition q a = some p → g'.transition (h q) a = some (h p)
  accepting : ∀ q ∈ g, g'.accepting? (h q) = g.accepting? q

variable {g g' merged : Graph α} {h : StateId → StateId} {x y p q : StateId}

theorem Morphism.forced (morphism : g.Morphism g' h) (forced : g.Forced x y p q) :
    g'.Forced (h x) (h y) (h p) (h q) := by
  induction forced with
  | pair => exact .pair
  | refl q => exact .refl (h q)
  | symm _ ih => exact ih.symm
  | trans _ _ ih ih' => exact ih.trans ih'
  | step _ hp hq ih => exact ih.step (morphism.transition _ _ _ hp) (morphism.transition _ _ _ hq)

/-- What a pair forces is forced by all pairs that force the pair itself. -/
theorem Forced.through {x' y' : StateId} (given : g.Forced x' y' x y) (forced : g.Forced x y p q) :
    g.Forced x' y' p q := by
  induction forced with
  | pair => exact given
  | refl q => exact .refl q
  | symm _ ih => exact ih.symm
  | trans _ _ ih ih' => exact ih.trans ih'
  | step _ hp hq ih => exact ih.step hp hq

theorem clashes_iff : g.Clashes ⟨x, y⟩ ↔ ∃ p q, g.Forced x y p q ∧
    g.accepting? p = some true ∧ g.accepting? q = some false := by
  constructor
  · rintro ⟨_, ⟨r, _, rfl⟩, ⟨p, hp, accept⟩, q, hq, reject⟩
    exact ⟨p, q, hp.2.symm.trans hq.2, accept, reject⟩
  · rintro ⟨p, q, forced, accept, reject⟩
    have hp : p ∈ g := accepting?_isSome.mp (by rw [accept]; rfl)
    have hq : q ∈ g := accepting?_isSome.mp (by rw [reject]; rfl)
    apply clashes_of_forced forced hp hq
    simp [accept, reject]

theorem Clashes.symm (clashes : g.Clashes ⟨x, y⟩) : g.Clashes ⟨y, x⟩ := by
  obtain ⟨p, q, forced, accept, reject⟩ := clashes_iff.mp clashes
  exact clashes_iff.mpr ⟨p, q, Forced.pair.symm.through forced, accept, reject⟩

theorem Morphism.clashes (morphism : g.Morphism g' h) (clashes : g.Clashes ⟨x, y⟩) :
    g'.Clashes ⟨h x, h y⟩ := by
  obtain ⟨p, q, forced, accept, reject⟩ := clashes_iff.mp clashes
  have hp : p ∈ g := accepting?_isSome.mp (by rw [accept]; rfl)
  have hq : q ∈ g := accepting?_isSome.mp (by rw [reject]; rfl)
  refine clashes_iff.mpr ⟨h p, h q, morphism.forced forced, ?_, ?_⟩
  · rw [morphism.accepting p hp, accept]
  · rw [morphism.accepting q hq, reject]

theorem Morphism.of_views (transition : ∀ q a, g'.transition q a = g.transition q a)
    (accepting : ∀ q, g'.accepting? q = g.accepting? q) : g.Morphism g' id :=
  ⟨fun q a _ ha => (transition q a).trans ha, fun q _ => accepting q⟩

theorem Merges.morphism [LawfulEqOrd α] {m : Identification} (merges : g.Merges m merged) :
    g.Morphism merged m.image :=
  ⟨fun _ _ _ ha => merges.transition_image ha, fun _ hq => merges.accepting?_image_merged hq⟩

/-! ### Confirmed states -/

/-- Any two red states clash. -/
def Apart (g : Graph α) : Prop :=
  ∀ x y, g.colour? x = some .red → g.colour? y = some .red → x ≠ y → g.Clashes ⟨x, y⟩

theorem Apart.repaint (apart : g.Apart) (morphism : g.Morphism g' id)
    (red : ∀ q, g'.colour? q = some .red → g.colour? q = some .red) : g'.Apart :=
  fun x y hx hy ne => morphism.clashes (apart x y (red x hx) (red y hy) ne)

theorem Apart.setColour (apart : g.Apart)
    (clashes : ∀ r, g.colour? r = some .red → g.Clashes ⟨q, r⟩) : (g.setColour q .red).Apart := by
  have morphism : g.Morphism (g.setColour q .red) id :=
    .of_views (fun _ _ => transition_setColour) fun _ => accepting?_setColour
  have red : ∀ p, (g.setColour q .red).colour? p = some .red → q = p ∨ g.colour? p = some .red := by
    intro p hp
    rw [colour?_setColour] at hp
    split at hp
    · exact .inl ‹_›
    · exact .inr hp
  intro x y hx hy ne
  apply morphism.clashes
  -- Either of the two may be the state that has just turned red, but not both.
  rcases red x hx with rfl | hx
  · exact clashes y ((red y hy).resolve_left ne)
  · rcases red y hy with rfl | hy
    · exact (clashes x hx).symm
    · exact apart x y hx hy ne

theorem Apart.merge [LawfulEqOrd α] {m : Identification} (apart : g.Apart)
    (merges : g.Merges m merged) (fringed : g.Fringed) (front : m.pair.blue ∈ g.frontier) :
    merged.Apart := by
  have red : ∀ q, merged.colour? q = some .red → g.colour? q = some .red := by
    intro q hq
    rwa [merges.colour q (mem_of_colour hq)] at hq
  intro x y hx hy ne
  have clashes := merges.morphism.clashes (apart x y (red x hx) (red y hy) ne)
  rwa [merges.image_of_red fringed front (red x hx),
    merges.image_of_red fringed front (red y hy)] at clashes

end Graph

namespace Learner

/-- Nothing was excluded, and the confirmed states are apart. -/
structure Decisive (l : Learner α ω) : Prop where
  free : ∀ pair, pair ∉ l.excluded
  apart : l.graph.Apart

variable [LawfulEqOrd α] {l l' : Learner α ω} {q r : StateId}

omit [LawfulEqOrd α] in
theorem Greedy.stuck (greedy : l.Greedy (.promoted q)) : l.Stuck q := by
  rw [Greedy] at greedy
  split at greedy
  · obtain ⟨none_left, front, _⟩ := greedy
    exact ⟨front, fun pair s eligible => absurd eligible (none_left pair s)⟩
  · exact greedy.1

/-- A state that may be merged with no red one clashes with all of them. -/
theorem Stuck.clashes (stuck : l.Stuck q) (fringed : l.graph.Fringed)
    (free : ∀ pair, Record.excluded pair ∉ l.history)
    (lenient : l.settings.strategy = .edsm ∨ l.settings.strategy = .rpni)
    (red : l.graph.colour? r = some .red) : l.graph.Clashes ⟨q, r⟩ := by
  have foldable : l.graph.Foldable ⟨q, r⟩ :=
    fringed.foldable (Graph.mem_frontier.mpr stuck.1) red
  obtain ⟨s, m, scored⟩ := Strategy.exists_score foldable l.settings.strategy
  rw [← Strategy.isCompatible_eq_false_iff foldable lenient scored, ← Bool.not_eq_true]
  intro compatible
  exact stuck.2 ⟨q, r⟩ s ⟨stuck.1, red, free _, ⟨m, scored⟩, compatible⟩ rfl

theorem Decisive.promote (decisive : l.Decisive) (coherent : l.Coherent)
    (fringed : l.graph.Fringed)
    (lenient : l.settings.strategy = .edsm ∨ l.settings.strategy = .rpni)
    (greedy : l.Greedy (.promoted q)) : (l.recoloured.promote q).2.Decisive := by
  have free : ∀ pair, Record.excluded pair ∉ l.history :=
    fun pair h => decisive.free pair ((coherent.remembers pair).mpr h)
  have painted : l.graph.Morphism l.graph.recolour id :=
    .of_views (fun _ _ => Graph.transition_recolour) fun _ => Graph.accepting?_recolour
  have red : ∀ p, l.graph.recolour.colour? p = some .red → l.graph.colour? p = some .red :=
    fun p => Graph.colour?_recolour_eq_red.mp
  refine ⟨decisive.free, (decisive.apart.repaint painted red).setColour fun r hr => ?_⟩
  exact painted.clashes (greedy.stuck.clashes fringed free lenient (red r hr))

variable [Oracle ω α] {out : Except (LearnError α) Step}

/-- Without questions no pair is excluded, and states stay apart. -/
theorem Move.decisive (coherent : l.Coherent) (decisive : l.Decisive)
    (lenient : l.settings.strategy = .edsm ∨ l.settings.strategy = .rpni)
    (unasked : l.settings.questions = none) (move : l.Move out l') : l'.Decisive := by
  have sound := coherent.sound
  rw [Sound] at sound
  have painted : l.recoloured.graph.Apart := by
    refine decisive.apart.repaint (.of_views (fun _ _ => Graph.transition_recolour) fun _ =>
      Graph.accepting?_recolour) fun _ => Graph.colour?_recolour_eq_red.mp
  cases move with
  | begin phase =>
      rw [phase] at sound
      refine ⟨decisive.free, fun x y hx hy ne => absurd ?_ ne⟩
      have initial := sound.initial
      exact ((Graph.colour?_begin initial).mp hx).trans ((Graph.colour?_begin initial).mp hy).symm
  | finish => exact ⟨decisive.free, painted⟩
  | hasten phase made stuck =>
      rw [phase] at sound
      have greedy := Move.greedy coherent (.hasten phase made stuck)
      exact decisive.promote coherent sound lenient greedy
  | weigh => exact ⟨decisive.free, painted⟩
  | suspend => exact ⟨decisive.free, decisive.apart⟩
  | choose => exact ⟨decisive.free, decisive.apart⟩
  | exclude _ _ asked =>
      simp only [questionsFor, unasked, Inquiry.passes] at asked
      cases asked
  | commit phase =>
      rw [phase] at sound
      obtain ⟨fringed, _, fits, merges⟩ := sound
      exact ⟨decisive.free, decisive.apart.merge merges fringed (fits.paired ▸ fits.blue)⟩
  | promote phase front =>
      rw [phase] at sound
      have greedy := Move.greedy coherent (.promote phase front)
      exact decisive.promote coherent sound.1 lenient greedy
  | rest => exact decisive

omit [Oracle ω α] [LawfulEqOrd α] in
/-- A search starts with no red state, so there is nothing to keep apart. -/
theorem Sound.apart_of_initial (sound : l.Sound) (phase : l.phase = .initial) : l.graph.Apart := by
  rw [Sound, phase] at sound
  intro x _ hx
  cases sound.plain x _ hx

omit [Oracle ω α] in
theorem Reached.decisive {ω₀ : Type} {start : Learner α ω₀} (reached : start.Reached l)
    (coherent : start.Coherent) (decisive : start.Decisive)
    (lenient : start.settings.strategy = .edsm ∨ start.settings.strategy = .rpni)
    (unasked : start.settings.questions = none) :
    l.settings = start.settings ∧ l.Decisive := by
  refine reached.induct (P := fun l => l.settings = start.settings ∧ l.Decisive)
    ⟨rfl, decisive⟩ ?_ ?_
  · intro ω _ l reached ⟨same, decisive⟩
    have here := reached.coherent coherent
    refine ⟨here.move.settings_eq.trans same, here.move.decisive here decisive ?_ ?_⟩
    · rwa [same]
    · rwa [same]
  · intro ω ω' l oracle _ ⟨same, decisive⟩
    exact ⟨same, decisive.free, decisive.apart⟩

end Learner

variable [LawfulEqOrd α] {ω₀ : Type}

/-- The hypothesis that a search without questions comes to cannot be merged further: any two of its
states force an accepting and a rejecting one together. So whatever map of the states respects
transitions and acceptance keeps all states apart. -/
theorem result_irreducible (sample : Sample α) (settings : Settings α) (oracle : ω₀)
    (start : Learner α ω₀) (created : Learner.ofSample sample settings oracle = .ok start)
    (lenient : settings.strategy = .edsm ∨ settings.strategy = .rpni)
    (unasked : settings.questions = none) (l : Learner α ω) [Oracle ω α]
    (reached : start.Reached l) (stop : Learner α ω → Bool) (g : Graph α)
    (fine : (l.runUnless stop).1 = .ok ()) (result : (l.runUnless stop).2.graph = g) :
    (∀ x ∈ g, ∀ y ∈ g, x ≠ y → ∃ p q, g.Forced x y p q ∧
      g.accepting? p = some true ∧ g.accepting? q = some false) ∧
    ∀ (β : Type) (f : StateId → β),
      (∀ p q a p' q', f p = f q → g.transition p a = some p' → g.transition q a = some q' →
        f p' = f q') →
      (∀ p ∈ g, ∀ q ∈ g, f p = f q → g.accepting? p = g.accepting? q) →
      Set.InjOn f {q | q ∈ g} := by
  obtain ⟨coherent, rfl, phase, fresh⟩ := Learner.coherent_of_ofSample created
  have nothing : ∀ pair, pair ∉ start.excluded := by
    intro pair h
    have listed := (coherent.remembers pair).mp h
    rw [fresh] at listed
    cases listed
  have decisive : start.Decisive := ⟨nothing, coherent.sound.apart_of_initial phase⟩
  have last : start.Reached (l.runUnless stop).2 := .run stop reached
  have apart := (last.decisive coherent decisive lenient unasked).2.apart
  have here := reached.coherent coherent
  have sound := (last.coherent coherent).sound
  have done : (l.runUnless stop).2.phase = .done :=
    Phase.eq_done (Learner.isDone_of_advance here here.sound.potential_le fine)
  rw [Learner.Sound, done] at sound
  have red := sound.1.red_of_frontier_empty sound.2
  rw [result] at apart red
  have clash : ∀ x ∈ g, ∀ y ∈ g, x ≠ y → ∃ p q, g.Forced x y p q ∧
      g.accepting? p = some true ∧ g.accepting? q = some false :=
    fun x hx y hy ne => Graph.clashes_iff.mp (apart x y (red x hx) (red y hy) ne)
  refine ⟨clash, fun β f step respects x hx y hy same => ?_⟩
  by_contra ne
  obtain ⟨p, q, forced, accept, reject⟩ := clash x hx y hy ne
  have identified : f p = f q := forced.image_eq same step
  have hp : p ∈ g := Graph.accepting?_isSome.mp (by rw [accept]; rfl)
  have hq : q ∈ g := Graph.accepting?_isSome.mp (by rw [reject]; rfl)
  have agree := respects p hp q hq identified
  rw [accept, reject] at agree
  cases agree

theorem contested_irreducible : ∃ start : Learner Nat (Informant Nat),
    Learner.ofSample contested { conflicts := .keepFirst } .silent = .ok start ∧
      start.run.1 = .ok () ∧ ∀ x ∈ start.run.2.graph, ∀ y ∈ start.run.2.graph, x ≠ y →
        ∃ p q, start.run.2.graph.Forced x y p q ∧ start.run.2.graph.accepting? p = some true ∧
          start.run.2.graph.accepting? q = some false := by
  have facts : (Learner.ofSample contested { conflicts := .keepFirst }
      (Informant.silent (α := Nat))).map (fun l => l.run.1) = .ok (.ok ()) := by
    decide +kernel
  obtain ⟨start, created, fine⟩ := Learner.exists_of_map_eq_ok facts
  obtain ⟨clash, _⟩ := result_irreducible contested { conflicts := .keepFirst }
    Informant.silent start created (.inl rfl) rfl start .start (fun _ => false) _ fine rfl
  exact ⟨start, created, fine, clash⟩

end BlueFringe
