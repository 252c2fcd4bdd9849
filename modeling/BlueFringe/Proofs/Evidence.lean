import BlueFringe.Proofs.AccessWords
import BlueFringe.Proofs.Irreducibility

/-!
# Evidence in a hypothesis

The states of a hypothesis stand for states of the reference that the sample was taken from, as long
as only states that stand for the same one are merged. Such pairs never clash. Other pairs do,
provided that the cover leads to the parent of the blue state: then the sample has words that tell
the two apart.
-/

namespace BlueFringe

open Std

variable {α : Type} [Ord α] [TransOrd α]

/-- The words of a cover, also with one label more. -/
def kernel (cover : Set (Word α)) : Set (Word α) :=
  {w | w ∈ cover ∨ ∃ v ∈ cover, ∃ a, w = v ++ [a]}

namespace Graph

variable {ref g g' : Graph α} {cover seen : Set (Word α)} {p q r b : StateId} {a : α}
  {u v w : Word α}

/-! ### Words of the reference -/

/-- The accepting state that an accepted word leads to. A word that is not accepted has none. -/
def landing (g : Graph α) (w : Word α) : Option StateId := g.liveRun g.initial w

theorem isSome_landing : (g.landing w).isSome = g.accepts w := liveRun_isSome

theorem landing_concat :
    g.landing (w ++ [a]) = (g.landing w).bind fun p => g.live (g.transition p a) :=
  liveRun_concat

theorem landing_append_congr (same : g.landing v = g.landing w) (u : Word α) :
    g.landing (v ++ u) = g.landing (w ++ u) := by
  simp only [landing] at same
  simp only [landing, liveRun_append, same]

/-- A cover has one shortest word for each state of the reference that an accepted word leads to.
What was seen bears it out: nothing was seen behind a rejected word, words of the cover were
followed by each label with which they are accepted, what was seen behind any word was also seen
behind the word of the cover to the same state, and words of the kernel that lead to different
states were told apart. -/
structure Characteristic (ref : Graph α) (cover seen : Set (Word α)) : Prop where
  observed : ∀ w a, w ++ [a] ∈ seen → ref.accepts w = true
  closed : PrefixClosed cover
  accepted : ∀ v ∈ cover, ref.accepts v = true
  reaches : ∀ w q, ref.landing w = some q → ∃ v ∈ cover, ref.landing v = some q
  single : ∀ v ∈ cover, ∀ w ∈ cover, ref.landing v = ref.landing w → v = w
  shortest : ∀ v ∈ cover, ∀ w, ref.landing v = ref.landing w → v.length ≤ w.length
  extended : ∀ v ∈ cover, ∀ a, ref.accepts (v ++ [a]) = true → v ++ [a] ∈ seen
  shifted : ∀ v ∈ cover, ∀ u w, ref.landing v = ref.landing u → u ++ w ∈ seen → v ++ w ∈ seen
  apart : ∀ v ∈ kernel cover, ∀ w ∈ kernel cover, ∀ p q, ref.landing v = some p →
    ref.landing w = some q → p ≠ q →
      ∃ u, v ++ u ∈ seen ∧ w ++ u ∈ seen ∧ ref.accepts (v ++ u) ≠ ref.accepts (w ++ u)

/-! ### What the states of a hypothesis stand for -/

/-- Each state of the hypothesis stands for the state of the reference that all words to it lead to,
or for rejection. -/
structure Labelled (ref g : Graph α) (meaning : StateId → Option StateId) : Prop where
  initial : meaning g.initial = ref.landing []
  step : ∀ q a p, g.transition q a = some p →
    ∃ s, meaning q = some s ∧ meaning p = ref.live (ref.transition s a)
  accepting : ∀ q ∈ g, g.accepting? q = some (meaning q).isSome

variable {meaning : StateId → Option StateId}

theorem Forced.runFrom {x y p' q' : StateId} (forced : g.Forced x y p q)
    (hp : g.runFrom p w = some p') (hq : g.runFrom q w = some q') : g.Forced x y p' q' := by
  induction w generalizing p q with
  | nil =>
      obtain rfl := Option.some.inj hp
      obtain rfl := Option.some.inj hq
      exact forced
  | cons a w ih =>
      obtain ⟨p₁, stepP, restP⟩ := Option.bind_eq_some_iff.mp hp
      obtain ⟨q₁, stepQ, restQ⟩ := Option.bind_eq_some_iff.mp hq
      exact ih (forced.step stepP stepQ) restP restQ

namespace Labelled

theorem eq_landing (labelled : ref.Labelled g meaning) (run : g.run w = some q) :
    meaning q = ref.landing w := by
  induction w using List.reverseRecOn generalizing q with
  | nil =>
      obtain rfl := Option.some.inj run
      exact labelled.initial
  | append_singleton w a ih =>
      obtain ⟨p, first, last⟩ := runFrom_concat_eq_some.mp run
      obtain ⟨s, here, next⟩ := labelled.step p a q last
      rw [next, landing_concat, ← ih first, here, Option.bind_some]

theorem forced {x y : StateId} (labelled : ref.Labelled g meaning) (same : meaning x = meaning y)
    (forced : g.Forced x y p q) : meaning p = meaning q := by
  refine forced.image_eq same fun p q a p' q' agree hp hq => ?_
  obtain ⟨s, here, next⟩ := labelled.step p a p' hp
  obtain ⟨t, here', next'⟩ := labelled.step q a q' hq
  obtain rfl : s = t := Option.some.inj (here.symm.trans (agree.trans here'))
  rw [next, next']

theorem not_clashes {x y : StateId} (labelled : ref.Labelled g meaning)
    (same : meaning x = meaning y) : ¬ g.Clashes ⟨x, y⟩ := by
  intro clashes
  obtain ⟨p, q, forced, accept, reject⟩ := clashes_iff.mp clashes
  have hp : p ∈ g := accepting?_isSome.mp (by rw [accept]; rfl)
  have hq : q ∈ g := accepting?_isSome.mp (by rw [reject]; rfl)
  rw [labelled.accepting p hp, labelled.forced same forced, ← labelled.accepting q hq,
    reject] at accept
  cases accept

theorem clashes_of_isSome_ne {x y : StateId} (labelled : ref.Labelled g meaning)
    (forced : g.Forced x y p q) (hp : p ∈ g) (hq : q ∈ g)
    (differ : (meaning p).isSome ≠ (meaning q).isSome) : g.Clashes ⟨x, y⟩ := by
  apply clashes_of_forced forced hp hq
  rw [labelled.accepting p hp, labelled.accepting q hq]
  exact fun same => differ (Option.some.inj same)

/-- States clash if one of two words behind them is accepted and the other one is not. -/
theorem clashes_of_accepts_ne {x y p q : StateId} (labelled : ref.Labelled g meaning)
    (closed : g.Closed) (initial : g.initial ∈ g) (hx : g.run v = some x) (hy : g.run w = some y)
    (hp : g.run (v ++ u) = some p) (hq : g.run (w ++ u) = some q)
    (differ : ref.accepts (v ++ u) ≠ ref.accepts (w ++ u)) : g.Clashes ⟨x, y⟩ := by
  have restP : g.runFrom x u = some p := by
    rwa [Graph.run, runFrom_append, ← Graph.run, hx, Option.bind_some] at hp
  have restQ : g.runFrom y u = some q := by
    rwa [Graph.run, runFrom_append, ← Graph.run, hy, Option.bind_some] at hq
  refine labelled.clashes_of_isSome_ne (Forced.pair.runFrom restP restQ)
    (closed.mem_of_reaches initial ⟨_, hp⟩) (closed.mem_of_reaches initial ⟨_, hq⟩) ?_
  rwa [labelled.eq_landing hp, labelled.eq_landing hq, isSome_landing, isSome_landing]

theorem of_views (labelled : ref.Labelled g meaning) (initial : g'.initial = g.initial)
    (transition : ∀ q a, g'.transition q a = g.transition q a)
    (accepting : ∀ q, g'.accepting? q = g.accepting? q) : ref.Labelled g' meaning := by
  refine ⟨?_, fun q a p ha => ?_, fun q hq => ?_⟩
  · rw [initial]
    exact labelled.initial
  · rw [transition] at ha
    exact labelled.step q a p ha
  · have here : q ∈ g := by rwa [← accepting?_isSome, ← accepting, accepting?_isSome]
    rw [accepting]
    exact labelled.accepting q here

theorem merge [LawfulEqOrd α] {m : Identification} {merged : Graph α}
    (labelled : ref.Labelled g meaning) (merges : g.Merges m merged)
    (same : meaning m.pair.blue = meaning m.pair.red) : ref.Labelled merged meaning := by
  have image : ∀ q, meaning (m.image q) = meaning q :=
    fun q => (labelled.forced same (merges.toFolds.forced_image q)).symm
  refine ⟨?_, fun q a p ha => ?_, fun q hq => ?_⟩
  · rw [merges.initial]
    exact labelled.initial
  · obtain ⟨x, y, step, rfl, rfl⟩ := merges.transition_iff.mp ha
    rw [image, image]
    exact labelled.step x a y step
  · rw [merges.accepting q hq]
    exact labelled.accepting q ((merges.mem q).mp hq).1

end Labelled

/-- The words of a prefix tree say what its states stand for. -/
theorem RootedTree.exists_labelled [LawfulEqOrd α] (tree : g.RootedTree)
    (flags : ∀ w q, g.run w = some q → g.accepting? q = some (ref.accepts w))
    (observed : ∀ w a q, g.run (w ++ [a]) = some q → ref.accepts w = true) :
    ∃ meaning, ref.Labelled g meaning := by
  classical
  have pick : ∀ q, ∃ s, ∀ w, g.run w = some q → s = ref.landing w := by
    intro q
    by_cases reached : ∃ w, g.run w = some q
    · obtain ⟨w, here⟩ := reached
      exact ⟨ref.landing w, fun v there => by rw [tree.unique v w q there here]⟩
    · exact ⟨none, fun w run => absurd ⟨w, run⟩ reached⟩
  choose meaning known using pick
  refine ⟨meaning, known g.initial [] rfl, fun q a p ha => ?_, fun q hq => ?_⟩
  · obtain ⟨w, here, there⟩ := tree.exists_run_concat ha
    have accepted := observed w a p there
    rw [← isSome_landing, Option.isSome_iff_exists] at accepted
    obtain ⟨s, lands⟩ := accepted
    refine ⟨s, (known q w here).trans lands, ?_⟩
    rw [known p _ there, landing_concat, lands, Option.bind_some]
  · obtain ⟨w, here⟩ := tree.reached q hq
    rw [flags w q here, known q w here, isSome_landing]

end Graph

end BlueFringe
