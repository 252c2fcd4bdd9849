import BlueFringe.Proofs.Lineage
import BlueFringe.Proofs.Moves
import BlueFringe.Proofs.Preference
import BlueFringe.Proofs.RandomGraphs

/-!
# Depths

Depths are counted while trees and random graphs grow, and set anew by a search after a merge or for
a blueprint. Either way the depth of a state that can be reached is the length of its access word,
so the order of preference of a search does not depend on where its hypothesis came from.
-/

namespace BlueFringe

open Std

variable {α ω : Type} [Ord α] [TransOrd α]

namespace Graph

variable {g g' merged : Graph α} {q : StateId} {w : Word α}

/-- Every state that can be reached has the length of its access word as its depth, and nothing
changes when the depths are set anew. -/
structure DepthsExact (g : Graph α) : Prop where
  depth : ∀ q, g.Reaches g.initial q →
    ∃ w, g.accessWord q = some w ∧ g.depth? q = some w.length
  stable : g.recomputeDepths = g

variable [LawfulEqOrd α]

/-! ### Setting depths anew -/

theorem accessWord_congr (initial : g'.initial = g.initial)
    (transition : ∀ q a, g'.transition q a = g.transition q a) (q : StateId) :
    g'.accessWord q = g.accessWord q := by
  ext w
  simp only [accessWord_eq_some, LeastTo, initial, runFrom_eq_of_transition transition]

theorem accessWord_recomputeDepths : g.recomputeDepths.accessWord q = g.accessWord q :=
  accessWord_congr initial_recomputeDepths (fun _ _ => transition_recomputeDepths) q

/-- Setting the depths anew once is as good as twice. -/
theorem recomputeDepths_idem (g : Graph α) :
    g.recomputeDepths.recomputeDepths = g.recomputeDepths := by
  refine ext_state? (fun q => ?_) initial_recomputeDepths nextIndex_recomputeDepths
  rw [state?_recomputeDepths, accessWord_recomputeDepths, state?_recomputeDepths, Option.map_map]
  cases g.accessWord q <;> rfl

theorem Measured.depth?_eq (measured : g.Measured) (found : g.accessWord q = some w) :
    g.depth? q = some w.length := by
  have least := accessWord_eq_some.mp found
  obtain ⟨v, run, depth, shorter⟩ := measured w q least.1
  have longer := least.length_le run
  rw [depth, Nat.le_antisymm shorter longer]

/-- Shortest words are as long as access words, so where depths are right already, they stay. -/
theorem Measured.depthsExact (measured : g.Measured) : g.DepthsExact where
  depth q reached := by
    obtain ⟨w, least⟩ := exists_leastTo reached
    have found := accessWord_eq_some.mpr least
    exact ⟨w, found, measured.depth?_eq found⟩
  stable := by
    refine ext_state? (fun q => ?_) initial_recomputeDepths nextIndex_recomputeDepths
    rw [state?_recomputeDepths]
    cases found : g.accessWord q with
    | none => simp
    | some w =>
        obtain ⟨s, hs, same⟩ := Option.map_eq_some_iff.mp (measured.depth?_eq found)
        simp [hs, ← same]

/-! ### Graphs with right depths -/

theorem Closed.measured_merge {pair : StatePair} {m : Identification} (closed : g.Closed)
    (entry : (m.pair.blue, m.pair.red) ∈ m.entries) (made : g.merge pair m = .ok merged) :
    merged.Measured := by
  obtain ⟨initial, closed', _⟩ := closed.merge entry made
  exact measured_of_merge made closed' initial

theorem measured_toGraph {b : Blueprint α} {initial : Nat} (made : b.toGraph initial = .ok g) :
    g.Measured := by
  have wf := Blueprint.wellFormed_toGraph made
  rw [Blueprint.toGraph, bind_eq_ok] at made
  obtain ⟨g₁, _, made⟩ := made
  obtain rfl := Except.ok.inj made
  exact measured_recomputeDepths wf.closed wf.initial

theorem measured_acceptor {γ : Type} [Draws γ] (shape : Random.Shape) (draws : γ) :
    (Random.acceptor shape draws).1.Measured := by
  obtain ⟨-, done, orderly⟩ :=
    Random.Growth.orderly_settled draws (Nat.le_refl (max 1 shape.maxStates))
  exact orderly.layered.measured orderly.wellFormed.closed orderly.wellFormed.initial

end Graph

namespace PrefixTree

variable [LawfulEqOrd α] {t : PrefixTree α}

/-- The trees that traces were added to, one by one or many at once, with or without conflicts. -/
inductive Built : PrefixTree α → Prop where
  | empty (policy : ConflictPolicy) : Built (empty policy)
  | add {t : PrefixTree α} (trace : Trace α) : Built t → Built (t.add trace).2
  | addAll {t : PrefixTree α} (traces : List (Trace α)) : Built t → Built (t.addAll traces).2

theorem Denotes.exists_addAll {kept : List (Trace α)} (denotes : t.Denotes kept)
    (traces : List (Trace α)) : ∃ kept', (t.addAll traces).2.Denotes kept' := by
  induction traces generalizing t kept with
  | nil => exact ⟨kept, denotes⟩
  | cons trace rest ih =>
      have next := denotes.add trace
      rw [PrefixTree.addAll]
      cases added : t.add trace with
      | mk conflict t' =>
          rw [added] at next
          cases conflict with
          | none => exact ih next
          | some c =>
              dsimp only
              split
              · exact ⟨_, next⟩
              · exact ih { next with }

theorem Built.exists_denotes (built : t.Built) : ∃ kept, t.Denotes kept := by
  induction built with
  | empty policy => exact ⟨[], .empty policy⟩
  | add trace _ ih =>
      obtain ⟨kept, denotes⟩ := ih
      exact ⟨_, denotes.add trace⟩
  | addAll traces _ ih =>
      obtain ⟨kept, denotes⟩ := ih
      exact denotes.exists_addAll traces

omit [LawfulEqOrd α] in
theorem built_of_ofTraces {policy : ConflictPolicy} {traces : List (Trace α)}
    (made : ofTraces policy traces = .ok t) : t.Built := by
  have whole : ((PrefixTree.empty policy).addAll traces).2.Built := .addAll traces (.empty policy)
  rw [ofTraces] at made
  cases added : (PrefixTree.empty policy).addAll traces with
  | mk conflict t' =>
      rw [added] at made whole
      cases conflict with
      | none => exact Except.ok.inj made ▸ whole
      | some c => cases made

theorem Built.measured (built : t.Built) : t.graph.Measured := by
  obtain ⟨kept, denotes⟩ := built.exists_denotes
  exact denotes.levelled.measured

end PrefixTree

/-! ### Searches -/

namespace Learner

variable [LawfulEqOrd α] {l l' : Learner α ω}

/-- The depths of the hypothesis are those of shortest words, and so are the depths of the graph
that waits to become the next one. -/
structure Measured (l : Learner α ω) : Prop where
  graph : l.graph.Measured
  waiting : ∀ chosen merged, l.phase = .merge chosen merged → merged.Measured

omit [LawfulEqOrd α] in
theorem Measured.recoloured (measured : l.Measured) : l.recoloured.Measured where
  graph := measured.graph.of_views rfl (fun _ _ => Graph.transition_recolour)
    fun _ => Graph.depth?_recolour
  waiting := measured.waiting

omit [LawfulEqOrd α] in
theorem Measured.promote (measured : l.Measured) (q : StateId) : (l.promote q).2.Measured where
  graph := measured.graph.of_views rfl (fun _ _ => Graph.transition_setColour)
    fun _ => Graph.depth?_setColour
  waiting chosen merged phase := by cases phase

/-- Colours have no influence on depths, and a merge sets them anew. -/
theorem Move.measured [Oracle ω α] {out : Except (LearnError α) Step} (sound : l.Sound)
    (measured : l.Measured) (move : l.Move out l') : l'.Measured := by
  cases move with
  | begin =>
      refine ⟨?_, fun chosen merged phase => by cases phase⟩
      refine measured.graph.of_views rfl (fun q a => ?_) fun q => ?_
      · exact Graph.transition_setColour.trans Graph.transition_clearColours
      · exact Graph.depth?_setColour.trans Graph.depth?_clearColours
  | finish => exact ⟨measured.recoloured.graph, fun chosen merged phase => by cases phase⟩
  | hasten | promote => exact measured.recoloured.promote _
  | @weigh scored choices =>
      refine ⟨measured.recoloured.graph, fun chosen merged phase => ?_⟩
      cases choices <;> cases phase
  | suspend | rest => exact ⟨measured.graph, measured.waiting⟩
  | choose phase made =>
      refine ⟨measured.graph, fun chosen merged' waits => ?_⟩
      obtain ⟨rfl, rfl⟩ := Phase.merge.inj waits
      rw [Sound, phase] at sound
      obtain ⟨fringed, -, fits⟩ := sound
      exact fringed.closed.measured_merge (fits _ List.mem_cons_self).folds.pair_mem made
  | exclude => exact ⟨measured.graph, fun chosen merged phase => by cases phase⟩
  | commit phase =>
      exact ⟨measured.waiting _ _ phase, fun chosen merged phase => by cases phase⟩

theorem measured_of_ofSample {sample : Sample α} {settings : Settings α} {oracle : ω}
    (created : ofSample sample settings oracle = .ok l) : l.Measured := by
  rw [ofSample] at created
  cases made : PrefixTree.ofTraces settings.conflicts sample.traces with
  | error conflict =>
      rw [made] at created
      cases created
  | ok tree =>
      rw [made] at created
      cases created
      refine ⟨(PrefixTree.built_of_ofTraces made).measured, fun chosen merged phase => ?_⟩
      cases phase

/-- Whatever is done with a search, the depths of its hypothesis are those of shortest words. -/
theorem Reached.measured {ω₀ : Type} {start : Learner α ω₀} (reached : start.Reached l)
    (coherent : start.Coherent) (measured : start.Measured) : l.Measured := by
  refine reached.induct (P := Measured) measured (fun l reached measured => ?_) ?_
  · have coherent := reached.coherent coherent
    exact coherent.move.measured coherent.sound measured
  · exact fun l oracle _ measured => ⟨measured.graph, measured.waiting⟩

end Learner

/-- Trees, blueprints, random graphs, merges and searches all make graphs in which a state that can
be reached has the length of its access word as its depth, so setting the depths of these graphs
anew changes nothing. In any graph it changes no more than the depths of states that can be reached,
and doing it twice changes no more than doing it once. -/
theorem depths_exact [LawfulEqOrd α] :
    (∀ t : PrefixTree α, t.Built → t.graph.DepthsExact) ∧
    (∀ (b : Blueprint α) initial g, b.toGraph initial = .ok g → g.DepthsExact) ∧
    (∀ (γ : Type) [Draws γ] (shape : Random.Shape) (draws : γ),
      (Random.acceptor shape draws).1.DepthsExact) ∧
    (∀ (g merged : Graph α) pair (m : Identification), g.Closed → m.Computed →
      g.merge pair m = .ok merged → merged.DepthsExact) ∧
    (∀ (ω₀ ω : Type) (sample : Sample α) settings (oracle : ω₀) (start : Learner α ω₀)
      (l : Learner α ω), Learner.ofSample sample settings oracle = .ok start → start.Reached l →
      l.graph.DepthsExact) ∧
    ∀ g : Graph α,
      g.recomputeDepths.recomputeDepths = g.recomputeDepths ∧
      g.recomputeDepths.initial = g.initial ∧ g.recomputeDepths.nextIndex = g.nextIndex ∧
      (∀ q, ¬ g.Reaches g.initial q → g.recomputeDepths.state? q = g.state? q) ∧
      ∀ q, g.recomputeDepths.state? q = (g.state? q).map fun s =>
        { s with depth := ((g.accessWord q).map List.length).getD s.depth } := by
  refine ⟨fun t built => built.measured.depthsExact, fun b initial g made => ?_,
    fun γ _ shape draws => ?_, fun g merged pair m closed computed made => ?_,
    fun ω₀ ω sample settings oracle start l created reached => ?_, fun g => ?_⟩
  · exact (Graph.measured_toGraph made).depthsExact
  · exact (Graph.measured_acceptor shape draws).depthsExact
  · exact (closed.measured_merge computed.pair_mem made).depthsExact
  · have coherent := (Learner.coherent_of_ofSample created).1
    have measured := reached.measured coherent (Learner.measured_of_ofSample created)
    exact measured.graph.depthsExact
  · refine ⟨g.recomputeDepths_idem, Graph.initial_recomputeDepths, Graph.nextIndex_recomputeDepths,
      fun q apart => ?_, fun q => Graph.state?_recomputeDepths⟩
    rw [Graph.state?_recomputeDepths, Graph.accessWord_eq_none.mpr apart]
    simp

/-- A merge takes the state 2 one level up, and whatever a search does keeps depths right. -/
theorem ladder_measured : ∃ merged start,
    ladder.merge ⟨⟨1⟩, ⟨0⟩⟩ foreign = .ok merged ∧
      ladder.depth? ⟨2⟩ = some 2 ∧ merged.depth? ⟨2⟩ = some 1 ∧ merged.DepthsExact ∧
      Learner.ofSample contested { conflicts := .keepFirst } (Informant.silent (α := Nat)) =
        .ok start ∧ start.run.2.graph.DepthsExact := by
  obtain ⟨_, _, _, merges, searches, _⟩ := depths_exact (α := Nat)
  have nearer : (ladder.merge ⟨⟨1⟩, ⟨0⟩⟩ foreign).map (fun merged => merged.depth? ⟨2⟩) =
      .ok (some 1) := by decide +kernel
  have begun : (Learner.ofSample contested { conflicts := .keepFirst }
      (Informant.silent (α := Nat))).map (fun l => l.skipped.length) = .ok 1 := by
    decide +kernel
  obtain ⟨merged, made, nearer⟩ := Learner.exists_of_map_eq_ok nearer
  obtain ⟨start, created, _⟩ := Learner.exists_of_map_eq_ok begun
  refine ⟨merged, start, made, by decide +kernel, nearer, ?_, created, ?_⟩
  · exact merges ladder merged _ foreign (by decide +kernel) foreign_computed made
  · exact searches _ _ contested _ _ start _ created (.run _ .start)

end BlueFringe
