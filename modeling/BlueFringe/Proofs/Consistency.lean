import BlueFringe.Proofs.Conflicts
import BlueFringe.Sample

/-!
# Samples that a graph classifies

A graph classifies a sample if it accepts the accepted words and rejects the rejected ones. A trace
says more than that of a rejected word, namely that its proper prefixes are accepted; so what the
graph confirms is each trace up to the first prefix that it does not accept. Rejected words that
are prefixes of rejected ones stay unnoticed, and a prefix tree refuses just those samples of a
graph in which they occur.
-/

namespace BlueFringe

open Std

variable {α : Type}

/-! ### Prefix-closed languages -/

theorem PrefixClosed.univ : PrefixClosed (Set.univ : Set (Word α)) :=
  fun _ _ _ => trivial

theorem PrefixClosed.union {L K : Set (Word α)} (first : PrefixClosed L) (second : PrefixClosed K) :
    PrefixClosed (L ∪ K) :=
  fun v w member => member.imp (first v w) (second v w)

theorem PrefixClosed.prefixes (words : Set (Word α)) :
    PrefixClosed {v | ∃ w ∈ words, v <+: w} := by
  rintro v u ⟨w, member, first⟩
  exact ⟨w, member, (List.prefix_append v u).trans first⟩

theorem PrefixClosed.proper_prefixes (words : Set (Word α)) :
    PrefixClosed {v | ∃ w ∈ words, v <+: w ∧ v ≠ w} := by
  rintro v u ⟨w, member, first, ne⟩
  refine ⟨w, member, (List.prefix_append v u).trans first, ?_⟩
  rintro rfl
  -- Nothing that goes on from the whole word is a prefix of it.
  have short := first.length_le
  rw [List.length_append] at short
  have nothing : u = [] := List.length_eq_zero_iff.mp (by omega)
  exact ne (by rw [nothing, List.append_nil])

variable [Ord α] [TransOrd α]

namespace Graph

/-- The trace up to the first prefix of its word that the graph does not accept. -/
def curtail (g : Graph α) (trace : Trace α) : Trace α :=
  ⟨g.truncateFrom g.initial trace.word, trace.outcome⟩

variable {g : Graph α} {trace : Trace α}

/-! ### What a graph confirms of a trace -/

/-- Up to the first prefix that is not accepted, to hold is to be classified. -/
theorem holdsIn_curtail : (g.curtail trace).HoldsIn (g.language g.initial) ↔
    g.accepts trace.word = trace.outcome.isAccept := by
  obtain ⟨w, outcome⟩ := trace
  have same : g.acceptsFrom g.initial (g.truncateFrom g.initial w) = g.accepts w :=
    acceptsFrom_truncateFrom
  cases outcome with
  | accept =>
      show g.truncateFrom g.initial w ∈ g.language g.initial ↔ g.accepts w = true
      rw [mem_language, same]
  | reject =>
      show (∀ v, v <+: g.truncateFrom g.initial w → v ≠ g.truncateFrom g.initial w →
        v ∈ g.language g.initial) ∧ g.truncateFrom g.initial w ∉ g.language g.initial ↔
        g.accepts w = false
      have proper := (prefix_truncateFrom_iff.mp
        (List.prefix_refl (g.truncateFrom g.initial w))).2
      rw [mem_language, same, Bool.not_eq_true]
      exact and_iff_right fun v first ne => mem_language.mpr (proper v first ne)

theorem curtail_eq_iff : g.curtail trace = trace ↔
    ∀ v, v <+: trace.word → v ≠ trace.word → g.accepts v = true := by
  obtain ⟨w, outcome⟩ := trace
  show (⟨g.truncateFrom g.initial w, outcome⟩ : Trace α) = ⟨w, outcome⟩ ↔ _
  rw [Trace.mk.injEq, and_iff_left rfl]
  constructor
  · intro whole
    exact (prefix_truncateFrom_iff.mp (by rw [whole])).2
  · intro proper
    have whole : w <+: g.truncateFrom g.initial w :=
      prefix_truncateFrom_iff.mpr ⟨List.prefix_refl w, proper⟩
    exact truncateFrom_prefix.eq_of_length_le whole.length_le

theorem holdsIn_iff_curtail_eq (classified : g.accepts trace.word = trace.outcome.isAccept) :
    trace.HoldsIn (g.language g.initial) ↔ g.curtail trace = trace := by
  constructor
  · intro holds
    rw [curtail_eq_iff]
    intro v first ne
    obtain ⟨u, split⟩ := first
    cases u with
    | nil => exact absurd (by simpa using split) ne
    | cons a u =>
        -- What is demanded of a proper prefix is that it is accepted.
        have demands : trace.DemandsAt v .accept := ⟨a :: u, split, rfl⟩
        exact mem_language.mp
          (((Trace.holdsIn_iff prefixClosed_language).mp holds v _ demands).mpr rfl)
  · intro whole
    rw [← whole]
    exact holdsIn_curtail.mpr classified

theorem accepts_of_holdsIn (holds : trace.HoldsIn (g.language g.initial)) :
    g.accepts trace.word = trace.outcome.isAccept := by
  rw [Bool.eq_iff_iff]
  exact mem_language.symm.trans
    ((Trace.holdsIn_iff prefixClosed_language).mp holds _ _ trace.demandsAt_word)

theorem holdsIn_of_accepted (classified : g.accepts trace.word = trace.outcome.isAccept)
    (accepted : trace.outcome = .accept) : trace.HoldsIn (g.language g.initial) := by
  rw [holdsIn_iff_curtail_eq classified, curtail_eq_iff]
  rintro v ⟨u, split⟩ _
  rw [accepted, ← split] at classified
  exact acceptsFrom_of_append classified

end Graph

namespace Sample

variable {s : Sample α} {g : Graph α} {v w : Word α}

/-! ### What a graph confirms of a sample -/

theorem holdsIn_of_mem (classified : s.misclassified g = none) {trace : Trace α}
    (mem : trace ∈ s.traces) : (g.curtail trace).HoldsIn (g.language g.initial) :=
  Graph.holdsIn_curtail.mpr (misclassified_eq_none.mp classified trace mem)

theorem consistent_curtail (classified : s.misclassified g = none) :
    Consistent (s.traces.map g.curtail) :=
  ⟨_, Graph.prefixClosed_language, List.forall_mem_map.mpr fun _ => holdsIn_of_mem classified⟩

theorem consistent_iff_of_classified (classified : s.misclassified g = none) :
    Consistent s.traces ↔
      ∀ v w, .rejected v ∈ s.traces → .rejected w ∈ s.traces → v <+: w → v = w := by
  constructor
  · rintro ⟨L, _, holds⟩ v w early late first
    by_contra ne
    have whole : v ∉ L := (holds _ early).2
    exact whole ((holds _ late).1 v first ne)
  · intro apart
    let rejects : Set (Word α) := {w | .rejected w ∈ s.traces}
    let L := g.language g.initial ∪ {v | ∃ w ∈ rejects, v <+: w ∧ v ≠ w}
    refine ⟨L, Graph.prefixClosed_language.union (.proper_prefixes rejects), fun trace mem => ?_⟩
    have flag := misclassified_eq_none.mp classified trace mem
    obtain ⟨w, outcome⟩ := trace
    cases outcome with
    | accept => exact .inl (Graph.mem_language.mpr flag)
    | reject =>
        refine ⟨fun v first ne => .inr ⟨w, mem, first, ne⟩, ?_⟩
        rintro (accepted | ⟨w', mem', first, ne⟩)
        · rw [Graph.mem_language, ← Graph.accepts, flag] at accepted
          cases accepted
        · exact ne (apart w w' mem mem' first)

/-! ### Samples that some graph classifies -/

theorem not_prefix_of_classified (classified : s.misclassified g = none)
    (early : .rejected v ∈ s.traces) (late : .accepted w ∈ s.traces) : ¬ v <+: w := by
  rintro ⟨u, rfl⟩
  have accepted : g.accepts (v ++ u) = true := misclassified_eq_none.mp classified _ late
  have rejected : g.accepts v = false := misclassified_eq_none.mp classified _ early
  rw [Graph.accepts, Graph.acceptsFrom_of_append accepted] at rejected
  cases rejected

/-- Without accepted words a single rejecting state will do. -/
theorem classified_of_rejected (rejects : ∀ w, .accepted w ∉ s.traces) :
    s.misclassified (.single false) = none := by
  rw [misclassified_eq_none]
  rintro ⟨w, outcome⟩ mem
  cases outcome with
  | accept => exact absurd mem (rejects w)
  | reject =>
      have root : (Graph.single false : Graph α).accepting? ⟨0⟩ = some false :=
        Graph.accepting?_single
      show Graph.acceptsFrom (.single false) ⟨0⟩ w = false
      cases w <;> simp [Graph.acceptsFrom, root]

variable [LawfulEqOrd α]

/-- The prefix tree of the accepted words rejects whatever is no prefix of them. -/
theorem exists_classified (apart : ∀ v w, .rejected v ∈ s.traces → .accepted w ∈ s.traces →
    ¬ v <+: w) : ∃ g : Graph α, s.misclassified g = none := by
  by_cases rejects : ∀ w, .accepted w ∉ s.traces
  · exact ⟨_, classified_of_rejected rejects⟩
  · obtain ⟨w₀, mem₀⟩ := not_forall_not.mp rejects
    have positive : ∀ trace, trace ∈ s.positive ↔
        trace ∈ s.traces ∧ trace.outcome.isAccept = true := fun _ => List.mem_filter
    have consistent : Consistent s.positive := by
      refine ⟨Set.univ, .univ, ?_⟩
      rintro ⟨w, outcome⟩ mem
      cases outcome with
      | accept => trivial
      | reject => cases ((positive _).mp mem).2
    obtain ⟨t, made⟩ := PrefixTree.exists_ofTraces_iff.mpr consistent
    have denotes := PrefixTree.denotes_of_ofTraces made
    refine ⟨t.graph, misclassified_eq_none.mpr ?_⟩
    rintro ⟨w, outcome⟩ mem
    cases outcome with
    | accept => exact (denotes.agrees _ ((positive _).mpr ⟨mem, rfl⟩)).accepts_eq
    | reject =>
        refine Bool.not_eq_true _ ▸ fun accepted => ?_
        rcases denotes.accepts_iff.mp accepted with least | ⟨nothing, _⟩
        · let words : Set (Word α) := {w | .accepted w ∈ s.traces}
          obtain ⟨w', mem', first⟩ := least _ (.prefixes words) fun trace kept => by
            obtain ⟨old, flag⟩ := (positive trace).mp kept
            obtain ⟨w', outcome⟩ := trace
            cases outcome with
            | accept => exact ⟨w', old, List.prefix_refl w'⟩
            | reject => cases flag
          exact apart w w' mem mem' first
        · exact List.ne_nil_of_mem ((positive _).mpr ⟨mem₀, rfl⟩) nothing

/-- A graph of which all traces of a sample hold classifies it. If a graph classifies a sample, its
traces hold up to the first prefix that the graph does not accept, and so does the tree that they
make; a trace holds as it stands if the proper prefixes of its word are accepted, as those of an
accepted word are. The traces themselves make a tree unless a rejected word goes on from a rejected
one. Some graph classifies the sample just if no accepted word goes on from a rejected one. -/
theorem classification_exact (s : Sample α) (g : Graph α) :
    ((∀ trace ∈ s.traces, trace.HoldsIn (g.language g.initial)) → s.misclassified g = none) ∧
      (s.misclassified g = none →
        (∀ trace ∈ s.traces, (g.curtail trace).HoldsIn (g.language g.initial) ∧
          (trace.outcome = .accept → trace.HoldsIn (g.language g.initial)) ∧
          (trace.HoldsIn (g.language g.initial) ↔
            ∀ v, v <+: trace.word → v ≠ trace.word → g.accepts v = true)) ∧
        (∃ t, PrefixTree.ofTraces .abort (s.traces.map g.curtail) = .ok t) ∧
        ((∃ t, PrefixTree.ofTraces .abort s.traces = .ok t) ↔
          ∀ v w, .rejected v ∈ s.traces → .rejected w ∈ s.traces → v <+: w → v = w)) ∧
      ((∃ g' : Graph α, s.misclassified g' = none) ↔
        ∀ v w, .rejected v ∈ s.traces → .accepted w ∈ s.traces → ¬ v <+: w) := by
  refine ⟨fun holds => misclassified_eq_none.mpr fun trace mem =>
    Graph.accepts_of_holdsIn (holds trace mem), fun classified => ⟨fun trace mem => ?_, ?_, ?_⟩,
    ⟨?_, exists_classified⟩⟩
  · have flag := misclassified_eq_none.mp classified trace mem
    refine ⟨holdsIn_of_mem classified mem, Graph.holdsIn_of_accepted flag, ?_⟩
    rw [Graph.holdsIn_iff_curtail_eq flag, Graph.curtail_eq_iff]
  · exact PrefixTree.exists_ofTraces_iff.mpr (consistent_curtail classified)
  · rw [PrefixTree.exists_ofTraces_iff]
    exact consistent_iff_of_classified classified
  · rintro ⟨g', classified⟩ v w
    exact not_prefix_of_classified classified

/-- A state with a loop on the label 0. -/
def ring : Graph Nat := (Graph.single true).setTarget ⟨0⟩ 0 ⟨0⟩

/-- Traces of words of which the loop rejects one before its end. -/
def ringTraces : Sample Nat := ⟨[.accepted [0, 0], .rejected [1, 0], .rejected [0, 1]]⟩

theorem ring_classifies :
    let curtailed : Sample Nat := ⟨[.accepted [0, 0], .rejected [1], .rejected [0, 1]]⟩
    ringTraces.misclassified ring = none ∧ ringTraces.traces.map ring.curtail = curtailed.traces ∧
      ¬ (Trace.rejected [1, 0]).HoldsIn (ring.language ⟨0⟩) ∧
      (Trace.rejected [0, 1]).HoldsIn (ring.language ⟨0⟩) ∧
      (∃ t, PrefixTree.ofTraces .abort ringTraces.traces = .ok t) ∧
      curtailed.misclassified ring = none := by
  intro curtailed
  have classified : ringTraces.misclassified ring = none := by decide +kernel
  have cut : ringTraces.traces.map ring.curtail = curtailed.traces := by decide +kernel
  obtain ⟨confirmed, _, grown⟩ := (classification_exact ringTraces ring).2.1 classified
  refine ⟨classified, cut, fun holds => ?_, ?_, grown.mpr ?_, ?_⟩
  · have early : ring.accepts [1] = true :=
      (confirmed (.rejected [1, 0]) (by decide)).2.2.mp holds [1] (by decide) (by decide)
    exact absurd early (by decide +kernel)
  · have whole : ring.curtail (.rejected [0, 1]) = .rejected [0, 1] := by decide +kernel
    exact whole ▸ (confirmed (.rejected [0, 1]) (by decide)).1
  · have rejected : ∀ w, .rejected w ∈ ringTraces.traces → w = [1, 0] ∨ w = [0, 1] := by
      simp [ringTraces, Trace.rejected, Trace.accepted]
    intro v w early late first
    rcases rejected v early with rfl | rfl <;> rcases rejected w late with rfl | rfl <;> simp_all
  · refine (classification_exact curtailed ring).1 fun trace mem => ?_
    rw [← cut, List.mem_map] at mem
    obtain ⟨trace, mem, rfl⟩ := mem
    exact (confirmed trace mem).1

/-- A graph without transitions rejects both words, of which one goes on from the other. It gives
the longer trace another meaning, and no tree and no language has both traces. -/
theorem overlooked_rejection_fails :
    let g : Graph Nat := .single true
    let s : Sample Nat := ⟨[.rejected [1, 1], .rejected [1]]⟩
    s.misclassified g = none ∧ ¬ (Trace.rejected [1, 1]).HoldsIn (g.language g.initial) ∧
      PrefixTree.ofTraces .abort s.traces = .error ⟨1, [1], .accept, .reject⟩ ∧
      ¬ Consistent s.traces := by
  intro g s
  refine ⟨by decide +kernel, fun holds => ?_, rfl, ?_⟩
  · have early : g.accepts [1] = true := Graph.mem_language.mp (holds.1 [1] (by decide) (by decide))
    exact absurd early (by decide +kernel)
  · rintro ⟨L, _, holds⟩
    have longer : [1] ∈ L := (holds (.rejected [1, 1]) (by decide)).1 [1] (by decide) (by decide)
    exact (holds (.rejected [1]) (by decide)).2 longer

end Sample

end BlueFringe
