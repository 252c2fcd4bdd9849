import BlueFringe.Proofs.AccessWords
import BlueFringe.Proofs.WellFormed

/-!
# Layers of a graph

In a layered graph a transition leads at most one level down, so no word is shorter than the depth
of the state that it leads to. A graph that gains its transitions one by one, each to a state that
is new or not too deep, is layered all along.
-/

namespace BlueFringe.Graph

open Std

variable {α : Type} [Ord α]

/-- The depth that is kept for a state, zero for a state that does not exist. -/
def level (g : Graph α) (q : StateId) : Nat := (g.depth? q).getD 0

variable {g g' : Graph α} {q p r t : StateId} {a b : α} {w : Word α} {accepting : Bool}

theorem depth?_eq_level (mem : q ∈ g) : g.depth? q = some (g.level q) := by
  obtain ⟨s, hs⟩ := mem_iff_exists.mp mem
  simp [level, depth?, hs]

theorem level_congr (same : g'.depth? q = g.depth? q) : g'.level q = g.level q :=
  congrArg (·.getD 0) same

theorem level_single : (single accepting : Graph α).level ⟨0⟩ = 0 := by
  rw [level, depth?, state?_single]
  rfl

variable [TransOrd α]

/-- The initial state lies at level zero, no transition leads more than one level down, and every
state is reached by a word as long as its depth. -/
structure Layered (g : Graph α) : Prop where
  root : g.level g.initial = 0
  step : ∀ q a p, g.transition q a = some p → g.level p ≤ g.level q + 1
  reached : ∀ q ∈ g, ∃ w, g.run w = some q ∧ w.length = g.level q

namespace Layered

/-- Every step goes down one level at most, so a word is no shorter than where it leads is deep. -/
theorem level_le_length (layered : g.Layered) (run : g.run w = some q) :
    g.level q ≤ w.length := by
  induction w using List.reverseRecOn generalizing q with
  | nil =>
      cases run
      exact layered.root.le
  | append_singleton w a ih =>
      obtain ⟨p, first, last⟩ := runFrom_concat_eq_some.mp run
      have before := ih first
      have down := layered.step p a q last
      simp only [List.length_append, List.length_singleton]
      omega

theorem measured (layered : g.Layered) (closed : g.Closed) (initial : g.initial ∈ g) :
    g.Measured := by
  intro w q run
  have mem := closed.mem_of_reaches initial ⟨w, run⟩
  obtain ⟨v, least, length⟩ := layered.reached q mem
  refine ⟨v, least, ?_, ?_⟩
  · rw [depth?_eq_level mem, length]
  · rw [length]
    exact layered.level_le_length run

theorem single (accepting : Bool) : (single accepting : Graph α).Layered where
  root := level_single
  step q a p h := by
    rw [transition_single] at h
    cases h
  reached q mem := by
    cases mem_single.mp mem
    exact ⟨[], rfl, level_single.symm⟩

end Layered

/-! ### Attaching a transition -/

/-- The second graph has one transition more than the first. It leads to a new state one level down
or to an old one that is no deeper than that. -/
structure Attaches (g g' : Graph α) (q : StateId) (a : α) (p : StateId) : Prop where
  initial : g'.initial = g.initial
  mem : ∀ r, r ∈ g' ↔ r = p ∨ r ∈ g
  added : g'.transition q a = some p
  kept : ∀ r b, r ≠ q ∨ b ≠ a → g'.transition r b = g.transition r b
  level : ∀ r ∈ g, g'.level r = g.level r
  accepting : ∀ r ∈ g, g'.accepting? r = g.accepting? r
  target : p ∈ g ∧ g.level p ≤ g.level q + 1 ∨ p ∉ g ∧ g'.level p = g.level q + 1

namespace Attaches

theorem transition_cases (attaches : g.Attaches g' q a p) (h : g'.transition r b = some t) :
    r = q ∧ b = a ∧ t = p ∨ g.transition r b = some t := by
  by_cases same : r = q ∧ b = a
  · obtain ⟨rfl, rfl⟩ := same
    rw [attaches.added] at h
    exact .inl ⟨rfl, rfl, (Option.some.inj h).symm⟩
  · rw [not_and_or] at same
    rw [attaches.kept r b same] at h
    exact .inr h

theorem transition_of_some (attaches : g.Attaches g' q a p) (lacking : g.transition q a = none)
    (h : g.transition r b = some t) : g'.transition r b = some t := by
  by_cases same : r = q ∧ b = a
  · rw [same.1, same.2, lacking] at h
    cases h
  · rw [attaches.kept r b (not_and_or.mp same), h]

theorem run (attaches : g.Attaches g' q a p) (lacking : g.transition q a = none)
    (h : g.run w = some r) : g'.run w = some r :=
  run_of_transition_kept attaches.initial
    (fun _ _ _ => attaches.transition_of_some lacking) h

/-- Old states stay where they are, and a new one lies below the start of the transition. -/
theorem level_cases (attaches : g.Attaches g' q a p) (mem : r ∈ g') :
    r ∈ g ∧ g'.level r = g.level r ∨ r ∉ g ∧ r = p ∧ g'.level r = g.level q + 1 := by
  by_cases old : r ∈ g
  · exact .inl ⟨old, attaches.level r old⟩
  · have same : r = p := ((attaches.mem r).mp mem).resolve_right old
    subst same
    have deep := attaches.target.resolve_left fun h => old h.1
    exact .inr ⟨old, rfl, deep.2⟩

theorem layered (attaches : g.Attaches g' q a p) (layered : g.Layered) (closed : g.Closed)
    (initial : g.initial ∈ g) (hq : q ∈ g) (lacking : g.transition q a = none) : g'.Layered where
  root := by rw [attaches.initial, attaches.level _ initial, layered.root]
  step r b t h := by
    rcases attaches.transition_cases h with ⟨rfl, rfl, rfl⟩ | old
    · rw [attaches.level r hq]
      rcases attaches.target with ⟨ht, near⟩ | ⟨_, deep⟩
      · rw [attaches.level t ht]
        exact near
      · exact deep.le
    · rw [attaches.level r (mem_of_transition old), attaches.level t (closed r b t old)]
      exact layered.step r b t old
  reached r mem := by
    rcases attaches.level_cases mem with ⟨old, same⟩ | ⟨_, rfl, deep⟩
    · obtain ⟨w, run, length⟩ := layered.reached r old
      exact ⟨w, attaches.run lacking run, by rw [length, same]⟩
    · obtain ⟨w, run, length⟩ := layered.reached q hq
      have longer := runFrom_concat_eq_some.mpr ⟨q, attaches.run lacking run, attaches.added⟩
      exact ⟨w ++ [a], longer, by simp [length, deep]⟩

end Attaches

variable [LawfulEqOrd α]

theorem attaches_sprout (new : g.fresh ∉ g) (hq : q ∈ g) :
    g.Attaches (g.sprout q (g.level q + 1) a accepting) q a g.fresh where
  initial := rfl
  mem r := by rw [mem_sprout, eq_comm]
  added := transition_sprout_self hq
  kept r b ne := transition_sprout_of_ne new (ne.imp Ne.symm Ne.symm)
  level r mem := by
    have ne : g.fresh ≠ r := fun same => new (same ▸ mem)
    exact level_congr (by rw [depth?_sprout, if_neg ne])
  accepting r mem := by
    have ne : g.fresh ≠ r := fun same => new (same ▸ mem)
    rw [accepting?_sprout, if_neg ne]
  target := by
    refine .inr ⟨new, ?_⟩
    rw [level, depth?_sprout, if_pos rfl]
    rfl

theorem attaches_setTarget (hq : q ∈ g) (hp : p ∈ g) (near : g.level p ≤ g.level q + 1) :
    g.Attaches (g.setTarget q a p) q a p where
  initial := rfl
  mem r := by
    rw [mem_setTarget]
    exact ⟨.inr, fun h => h.elim (fun same => same ▸ hp) id⟩
  added := transition_setTarget_self hq
  kept r b ne := transition_setTarget_of_ne (ne.imp Ne.symm Ne.symm)
  level r _ := level_congr depth?_setTarget
  accepting r _ := accepting?_setTarget
  target := .inl ⟨hp, near⟩

end BlueFringe.Graph
