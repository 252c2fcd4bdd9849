import BlueFringe.Proofs.RandomGraphs
import BlueFringe.Proofs.SuiteSample

/-!
# Random samples

A random walk ends behind the first label that is rejected, so all proper prefixes of its word are
accepted and its trace holds in the language of the graph. Traces that are drawn apart from each
other hold there together: whatever the draws are, a prefix tree takes all of them.
-/

namespace BlueFringe.Random

open Std

variable {γ : Type} [Draws γ] {g : Graph Char} {labels : List Char} {q : StateId}
  {count maxLength : Nat}

/-! ### Random graphs are trim -/

theorem reaches_acceptor (shape : Shape) (draws : γ) (mem : q ∈ (acceptor shape draws).1) :
    (acceptor shape draws).1.Reaches (acceptor shape draws).1.initial q := by
  obtain ⟨-, done, orderly⟩ := Growth.orderly_settled draws (Nat.le_refl (max 1 shape.maxStates))
  obtain ⟨w, run, -⟩ := orderly.layered.reached q mem
  exact ⟨w, run⟩

theorem isTrim_acceptor (shape : Shape) (draws : γ) : (acceptor shape draws).1.isTrim = true := by
  obtain ⟨-, done, orderly⟩ := Growth.orderly_settled draws (Nat.le_refl (max 1 shape.maxStates))
  refine (Graph.isTrim_iff orderly.wellFormed.closed orderly.wellFormed.initial).mpr ?_
  exact fun q mem => reaches_acceptor shape draws mem

/-! ### Walks -/

/-- A walk from an accepting state is no longer than it may be, and only its last label is possibly
rejected. -/
theorem walk_spec (labels : List Char) (accepting : g.accepting? q = some true) (steps : Nat)
    (draws : γ) :
    (walk g labels steps q draws).1.length ≤ steps ∧
      ∀ v, v <+: (walk g labels steps q draws).1 → v ≠ (walk g labels steps q draws).1 →
        g.acceptsFrom q v = true := by
  have nothing (q : StateId) : ∀ v : Word Char, v <+: [] → v ≠ [] → g.acceptsFrom q v = true :=
    fun v first ne => absurd (List.prefix_nil.mp first) ne
  induction steps generalizing q draws with
  | zero => exact ⟨Nat.le_refl 0, nothing q⟩
  | succ steps ih =>
      have here : g.acceptsFrom q [] = true := by simp [Graph.acceptsFrom, accepting]
      rw [walk]
      cases picked : Draws.pick labels draws with
      | mk label draws =>
          cases label with
          | none => exact ⟨Nat.zero_le _, nothing q⟩
          | some a =>
              dsimp only
              cases next : g.live (g.transition q a) with
              | none =>
                  refine ⟨Nat.succ_le_succ (Nat.zero_le steps), ?_⟩
                  rw [Word.forall_proper_prefix_cons]
                  exact ⟨here, fun v first ne => absurd (List.prefix_nil.mp first) ne⟩
              | some p =>
                  obtain ⟨step, live⟩ := Graph.live_eq_some.mp next
                  obtain ⟨length, proper⟩ := ih live draws
                  refine ⟨Nat.succ_le_succ length, ?_⟩
                  rw [Word.forall_proper_prefix_cons]
                  refine ⟨here, fun v first ne => ?_⟩
                  simpa [Graph.acceptsFrom, accepting, step] using proper v first ne

theorem trace_spec (labels : List Char) (maxLength : Nat)
    (accepting : g.accepting? g.initial = some true) (draws : γ) :
    ∃ w : Word Char, (trace g labels maxLength draws).1 = ⟨w, .ofBool (g.accepts w)⟩ ∧
      w.length ≤ maxLength ∧ ∀ v, v <+: w → v ≠ w → g.accepts v = true := by
  obtain ⟨length, proper⟩ := walk_spec labels accepting (Draws.index maxLength draws).1.val
    (Draws.index maxLength draws).2
  exact ⟨_, rfl, length.trans (Nat.le_of_lt_succ (Draws.index maxLength draws).1.isLt), proper⟩

theorem length_traces (draws : γ) : (traces g labels maxLength count draws).1.length = count := by
  induction count generalizing draws with
  | zero => rfl
  | succ count ih => exact congrArg Nat.succ (ih _)

theorem mem_traces {draws : γ} {t : Trace Char}
    (mem : t ∈ (traces g labels maxLength count draws).1) :
    ∃ draws' : γ, (trace g labels maxLength draws').1 = t := by
  induction count generalizing draws with
  | zero => cases mem
  | succ count ih =>
      rcases List.mem_cons.mp mem with same | later
      · exact ⟨draws, same.symm⟩
      · exact ih later

/-- Traces that are drawn apart from each other hold in one language, that of the graph. -/
theorem consistent_traces (accepting : g.accepting? g.initial = some true) (draws : γ) :
    Consistent (traces g labels maxLength count draws).1 := by
  refine ⟨g.language g.initial, Graph.prefixClosed_language, fun t mem => ?_⟩
  obtain ⟨draws', rfl⟩ := mem_traces mem
  obtain ⟨w, same, -, proper⟩ := trace_spec labels maxLength accepting draws'
  rw [same]
  exact Graph.holdsIn_language proper

/-- Whatever the draws are, the loop that makes a random graph ends with no state waiting, and the
graph is trim, no larger than it may be, and accepts at its initial state and everywhere but at
leaves. Random walks through a graph whose initial state accepts give as many traces as were asked
for, none of them too long. The graph classifies each as the trace says and accepts all its proper
prefixes, and a prefix tree takes them without a conflict. -/
theorem samples_learnable {γ : Type} [Draws γ] :
    (∀ (shape : Shape) (draws : γ),
      let s := (Growth.start draws).grow shape (max 1 shape.maxStates)
      let g := (acceptor shape draws).1
      s.waiting = [] ∧
      (∀ bound, max 1 shape.maxStates ≤ bound → (Growth.start draws).grow shape bound = s) ∧
      g.isTrim = true ∧ (∀ q ∈ g, g.Reaches g.initial q) ∧
      g.size ≤ max 1 shape.maxStates ∧ g.accepting? g.initial = some true ∧
      ∀ q, g.accepting? q = some false → g.isLeaf q = true) ∧
    ∀ (g : Graph Char) (labels : List Char) (count maxLength : Nat) (draws : γ),
      g.accepting? g.initial = some true →
      let made := (sample g labels count maxLength draws).1
      made.size = count ∧ (∀ t ∈ made.traces, t.length ≤ maxLength) ∧
      made.misclassified g = none ∧
      (∀ t ∈ made.traces, ∀ v, v <+: t.word → v ≠ t.word → g.accepts v = true) ∧
      ∃ tree, PrefixTree.ofTraces .abort made.traces = .ok tree := by
  constructor
  · intro shape draws s g
    obtain ⟨settled, done, orderly⟩ :=
      Growth.orderly_settled draws (Nat.le_refl (max 1 shape.maxStates))
    refine ⟨settled, fun bound => Growth.grow_eq_of_le draws, isTrim_acceptor shape draws,
      fun q => reaches_acceptor shape draws, orderly.room, ?_, fun q rejects => ?_⟩
    · exact orderly.accepts _ orderly.root
    · exact Graph.isLeaf_iff.mpr fun a => orderly.leaves q a rejects
  · intro g labels count maxLength draws accepting made
    refine ⟨length_traces draws, fun t mem => ?_, Sample.misclassified_eq_none.mpr fun t mem => ?_,
      fun t mem => ?_, PrefixTree.exists_ofTraces_iff.mpr (consistent_traces accepting draws)⟩
    all_goals
      obtain ⟨draws', rfl⟩ := mem_traces mem
      obtain ⟨w, drawn, length, proper⟩ := trace_spec labels maxLength accepting draws'
      rw [drawn]
    · exact length
    · exact (Outcome.isAccept_ofBool _).symm
    · exact proper

/-- Draws that are read off a list of numbers. Behind its end all of them are zero. -/
structure Tape where
  numbers : List Nat

instance : Draws Tape where
  chance _ tape := (tape.numbers.headD 0 == 1, ⟨tape.numbers.tail⟩)
  flip tape := (tape.numbers.headD 0 == 1, ⟨tape.numbers.tail⟩)
  index bound tape := (⟨tape.numbers.headD 0 % (bound + 1), Nat.mod_lt _ bound.succ_pos⟩,
    ⟨tape.numbers.tail⟩)

/-- A state with a loop and a leaf that rejects, both below the initial state. -/
def twig : Graph Char := (acceptor ⟨2, 3, 0.5, 0.25⟩ (⟨[0, 0, 1, 1, 0, 1, 1]⟩ : Tape)).1

theorem twig_sampled :
    let made := (sample twig ['a', 'b'] 3 2 (⟨[2, 0, 1, 2, 1, 1, 0]⟩ : Tape)).1
    twig.size = 3 ∧ twig.isTrim = true ∧ twig.accepting? twig.initial = some true ∧
      made.traces = [.rejected ['a', 'b'], .rejected ['b'], .accepted ['a']] ∧
      made.misclassified twig = none ∧
      ∃ tree, PrefixTree.ofTraces .abort made.traces = .ok tree := by
  intro made
  obtain ⟨graphs, samples⟩ := @samples_learnable Tape _
  obtain ⟨_, _, trim, _, _, accepting, _⟩ := graphs ⟨2, 3, 0.5, 0.25⟩ ⟨[0, 0, 1, 1, 0, 1, 1]⟩
  obtain ⟨_, _, agrees, _, learnable⟩ :=
    samples twig ['a', 'b'] 3 2 ⟨[2, 0, 1, 2, 1, 1, 0]⟩ (by decide +kernel)
  exact ⟨by decide +kernel, trim, accepting, by decide +kernel, agrees, learnable⟩

end BlueFringe.Random
