import BlueFringe.Proofs.Languages
import BlueFringe.Proofs.PrefixTree

/-!
# What traces demand of a language

A trace demands of each prefix of its word that it is accepted, or for a rejected trace that the
word itself is not. Traces are consistent if some prefix-closed language meets all their demands,
and a graph that agrees with a trace has such a language.
-/

namespace BlueFringe

open Std

variable {α : Type}

namespace Trace

/-- What the trace says about a prefix of its word. -/
def DemandsAt (trace : Trace α) (v : Word α) (outcome : Outcome) : Prop :=
  ∃ w, v ++ w = trace.word ∧ PrefixTree.demand trace.outcome w = outcome

/-- The language is as the trace says: it contains an accepted word; of a rejected one it contains
all proper prefixes but not the word itself. -/
def HoldsIn (trace : Trace α) (L : Set (Word α)) : Prop :=
  match trace.outcome with
  | .accept => trace.word ∈ L
  | .reject => (∀ v, v <+: trace.word → v ≠ trace.word → v ∈ L) ∧ trace.word ∉ L

end Trace

/-- Some of the traces says this about the word. -/
def Demanded (traces : List (Trace α)) (v : Word α) (outcome : Outcome) : Prop :=
  ∃ trace ∈ traces, trace.DemandsAt v outcome

/-- Some prefix-closed language is as all of the traces say. -/
def Consistent (traces : List (Trace α)) : Prop :=
  ∃ L : Set (Word α), PrefixClosed L ∧ ∀ trace ∈ traces, trace.HoldsIn L

variable {traces traces' : List (Trace α)} {trace : Trace α} {outcome outcome' : Outcome}
  {v w : Word α} {L : Set (Word α)}

theorem PrefixTree.demand_demand : demand (demand outcome w) v = demand outcome (v ++ w) := by
  cases v <;> rfl

namespace Trace

theorem demandsAt_word (trace : Trace α) : trace.DemandsAt trace.word trace.outcome :=
  ⟨[], List.append_nil _, rfl⟩

theorem DemandsAt.unique (first : trace.DemandsAt v outcome) (second : trace.DemandsAt v outcome') :
    outcome = outcome' := by
  obtain ⟨w, split, rfl⟩ := first
  obtain ⟨w', split', rfl⟩ := second
  rw [List.append_cancel_left (split.trans split'.symm)]

theorem exists_demandsAt (h : v <+: trace.word) : ∃ outcome, trace.DemandsAt v outcome := by
  obtain ⟨w, split⟩ := h
  exact ⟨_, w, split, rfl⟩

theorem holdsIn_iff (closed : PrefixClosed L) : trace.HoldsIn L ↔
    ∀ v outcome, trace.DemandsAt v outcome → (v ∈ L ↔ outcome.isAccept = true) := by
  obtain ⟨word, outcome⟩ := trace
  cases outcome with
  | accept =>
      constructor
      · rintro holds v _ ⟨w, rfl, rfl⟩
        have always : PrefixTree.demand .accept w = .accept := ite_self _
        rw [always]
        exact iff_of_true (closed v w holds) rfl
      · exact fun all => (all word .accept (demandsAt_word ⟨word, .accept⟩)).mpr rfl
  | reject =>
      constructor
      · rintro ⟨proper, whole⟩ v _ ⟨w, split, rfl⟩
        -- The rejection is demanded of the whole word only.
        cases w with
        | nil =>
            rw [List.append_nil] at split
            rw [split]
            exact iff_of_false whole (by simp [PrefixTree.demand, Outcome.isAccept])
        | cons a w =>
            refine iff_of_true (proper v ⟨_, split⟩ fun same => ?_) rfl
            simpa using split.trans same.symm
      · refine fun all => ⟨fun v first ne => ?_, fun mem => ?_⟩
        · obtain ⟨w, split⟩ := first
          cases w with
          | nil => exact absurd (List.append_nil v ▸ split) ne
          | cons a w => exact (all v .accept ⟨_, split, rfl⟩).mpr rfl
        · have := (all word .reject (demandsAt_word ⟨word, .reject⟩)).mp mem
          cases this

end Trace

theorem Consistent.mono (sub : traces' ⊆ traces) (consistent : Consistent traces) :
    Consistent traces' := by
  obtain ⟨L, closed, all⟩ := consistent
  exact ⟨L, closed, fun trace mem => all trace (sub mem)⟩

/-- Consistent traces never demand both. -/
theorem Consistent.unique (consistent : Consistent traces) (first : Demanded traces v outcome)
    (second : Demanded traces v outcome') : outcome = outcome' := by
  obtain ⟨L, closed, all⟩ := consistent
  obtain ⟨s, hs, demands⟩ := first
  obtain ⟨s', hs', demands'⟩ := second
  have same := ((Trace.holdsIn_iff closed).mp (all s hs) v _ demands).symm.trans
    ((Trace.holdsIn_iff closed).mp (all s' hs') v _ demands')
  cases outcome <;> cases outcome' <;> simp_all [Outcome.isAccept]

namespace Graph

variable [Ord α] [TransOrd α] {g : Graph α} {q : StateId}

theorem Agrees.of_demandsAt (agrees : g.Agrees trace) (demands : trace.DemandsAt v outcome) :
    g.Agrees ⟨v, outcome⟩ := by
  obtain ⟨w, split, rfl⟩ := demands
  intro u u' rest
  obtain ⟨q, hq, flag⟩ := agrees u (u' ++ w) (by rw [← List.append_assoc, rest, split])
  exact ⟨q, hq, by rw [flag, PrefixTree.demand_demand]⟩

theorem Agrees.exists_run (agrees : g.Agrees trace) (demands : trace.DemandsAt v outcome) :
    ∃ q, g.run v = some q ∧ g.accepting? q = some outcome.isAccept :=
  agrees.of_demandsAt demands v [] (List.append_nil v)

/-- A trace that a graph agrees with holds in its language. -/
theorem Agrees.holdsIn (agrees : g.Agrees trace) : trace.HoldsIn (g.language g.initial) := by
  rw [Trace.holdsIn_iff prefixClosed_language]
  intro v outcome demands
  rw [mem_language, ← (agrees.of_demandsAt demands).accepts_eq]
  rfl

/-- A word that is rejected at its end or not at all may be traced as it is classified. -/
theorem holdsIn_language (proper : ∀ v, v <+: w → v ≠ w → g.accepts v = true) :
    (⟨w, .ofBool (g.accepts w)⟩ : Trace α).HoldsIn (g.language g.initial) := by
  cases classified : g.accepts w with
  | true => exact mem_language.mpr classified
  | false =>
      refine ⟨fun v first ne => mem_language.mpr (proper v first ne), fun mem => ?_⟩
      rw [mem_language, ← accepts, classified] at mem
      cases mem

end Graph

end BlueFringe
