import BlueFringe.Proofs.Quotient

/-!
# Graphs that grow

A graph grows into another if every run is kept, along with the flag of the state that it ends in.
Words that have a run are classified as before, so the language only grows.
-/

namespace BlueFringe.Graph

open Std

variable {α : Type} [Ord α] [TransOrd α]

/-- Every run of the first graph is one of the second, and their ends accept alike. -/
def Grows (g g' : Graph α) : Prop :=
  ∀ w q, g.run w = some q → ∃ p, g'.run w = some p ∧ g'.accepting? p = g.accepting? q

variable {g g' g'' : Graph α} {q p : StateId} {v w : Word α}

/-! ### Acceptance and prefixes -/

theorem exists_runFrom_of_append (h : g.runFrom q (v ++ w) = some p) :
    ∃ r, g.runFrom q v = some r ∧ g.runFrom r w = some p := by
  rw [runFrom_append, Option.bind_eq_some_iff] at h
  exact h

/-- A word is accepted just if all its prefixes lead to accepting states. -/
theorem acceptsFrom_iff : g.acceptsFrom q w = true ↔
    ∀ v u, v ++ u = w → ∃ p, g.runFrom q v = some p ∧ g.accepting? p = some true := by
  induction w generalizing q with
  | nil =>
      simp only [acceptsFrom, beq_iff_eq, List.append_eq_nil_iff]
      constructor
      · rintro h v u ⟨rfl, rfl⟩
        exact ⟨q, rfl, h⟩
      · intro all
        obtain ⟨p, hp, accepting⟩ := all [] [] ⟨rfl, rfl⟩
        rwa [← Option.some.inj hp] at accepting
  | cons a w ih =>
      rw [acceptsFrom, Bool.and_eq_true, beq_iff_eq]
      constructor
      · rintro ⟨here, there⟩ v u split
        cases ht : g.transition q a with
        | none => simp [ht] at there
        | some r =>
            simp only [ht] at there
            cases v with
            | nil => exact ⟨q, rfl, here⟩
            | cons b v =>
                rw [List.cons_append, List.cons.injEq] at split
                obtain ⟨p, hp, accepting⟩ := ih.mp there v u split.2
                refine ⟨p, ?_, accepting⟩
                rw [split.1, runFrom_cons, ht]
                exact hp
      · intro all
        obtain ⟨p, hp, accepting⟩ := all [] (a :: w) rfl
        rw [← Option.some.inj hp] at accepting
        refine ⟨accepting, ?_⟩
        obtain ⟨_, hr, _⟩ := all [a] w rfl
        rw [runFrom_cons, Option.bind_eq_some_iff] at hr
        obtain ⟨r, ht, _⟩ := hr
        simp only [ht]
        refine ih.mpr fun v u split => ?_
        obtain ⟨p, hp, accepting⟩ := all (a :: v) u (by rw [List.cons_append, split])
        rw [runFrom_cons, ht] at hp
        exact ⟨p, hp, accepting⟩

/-! ### Growing -/

theorem Grows.refl (g : Graph α) : g.Grows g := fun _ q h => ⟨q, h, rfl⟩

theorem Grows.trans (first : g.Grows g') (second : g'.Grows g'') : g.Grows g'' := by
  intro w q h
  obtain ⟨p, hp, flag⟩ := first w q h
  obtain ⟨r, hr, flag'⟩ := second w p hp
  exact ⟨r, hr, flag'.trans flag⟩

theorem Grows.accepts_eq (grows : g.Grows g') (h : g.run w = some q) :
    g'.accepts w = g.accepts w := by
  rw [Bool.eq_iff_iff, accepts, accepts, acceptsFrom_iff, acceptsFrom_iff]
  refine forall_congr' fun v => forall_congr' fun u => forall_congr' fun split => ?_
  obtain ⟨r, hr, _⟩ := exists_runFrom_of_append (split ▸ h)
  obtain ⟨p, hp, flag⟩ := grows v r hr
  constructor
  · rintro ⟨p', hp', accepting⟩
    have same : p' = p := Option.some.inj (hp'.symm.trans hp)
    exact ⟨r, hr, by rw [← flag, ← same]; exact accepting⟩
  · rintro ⟨r', hr', accepting⟩
    have same : r' = r := Option.some.inj (hr'.symm.trans hr)
    exact ⟨p, hp, by rw [flag, ← same]; exact accepting⟩

theorem Grows.accepts_of_accepts (grows : g.Grows g') (h : g.accepts w = true) :
    g'.accepts w = true := by
  obtain ⟨q, hq⟩ := exists_runFrom_of_acceptsFrom h
  rw [grows.accepts_eq hq, h]

theorem runFrom_eq_of_transition (transition : ∀ q a, g'.transition q a = g.transition q a)
    (q : StateId) (w : Word α) : g'.runFrom q w = g.runFrom q w := by
  induction w generalizing q with
  | nil => rfl
  | cons a w ih =>
      rw [runFrom_cons, runFrom_cons, transition]
      exact congrArg _ (funext ih)

theorem run_eq_of_transition (initial : g'.initial = g.initial)
    (transition : ∀ q a, g'.transition q a = g.transition q a) (w : Word α) :
    g'.run w = g.run w := by
  rw [run, run, initial, runFrom_eq_of_transition transition]

/-- Where every transition is kept, so is every run. -/
theorem run_of_transition_kept (initial : g'.initial = g.initial)
    (kept : ∀ q a p, g.transition q a = some p → g'.transition q a = some p)
    (h : g.run w = some q) : g'.run w = some q := by
  induction w using List.reverseRecOn generalizing q with
  | nil =>
      rw [run, initial]
      exact h
  | append_singleton w a ih =>
      obtain ⟨p, first, last⟩ := runFrom_concat_eq_some.mp h
      exact runFrom_concat_eq_some.mpr ⟨p, ih first, kept p a q last⟩

@[simp] theorem run_setAccepting {accepting : Bool} :
    (g.setAccepting q accepting).run w = g.run w := by
  have initial : (g.setAccepting q accepting).initial = g.initial := rfl
  exact run_eq_of_transition initial (fun _ _ => transition_setAccepting) w

theorem Reaches.of_transition (transition : ∀ q a, g'.transition q a = g.transition q a)
    (h : g.Reaches q p) : g'.Reaches q p := by
  obtain ⟨w, hw⟩ := h
  exact ⟨w, (runFrom_eq_of_transition transition q w).trans hw⟩

theorem Grows.of_views (initial : g'.initial = g.initial)
    (transition : ∀ q a, g'.transition q a = g.transition q a)
    (accepting : ∀ q, g'.accepting? q = g.accepting? q) : g.Grows g' := by
  intro w q h
  exact ⟨q, by rw [run_eq_of_transition initial transition, h], accepting q⟩

theorem Grows.setAccepting {accepting : Bool} (h : g.accepting? q = some accepting) :
    g.Grows (g.setAccepting q accepting) := by
  refine of_views rfl (fun _ _ => transition_setAccepting) fun p => ?_
  rw [accepting?_setAccepting]
  split
  · rename_i same
    rw [← same, h]
    obtain ⟨s, hs, _⟩ := Option.map_eq_some_iff.mp h
    rw [hs, Option.map_some]
  · rfl

/-- A merge keeps all runs. -/
theorem Merges.grows [LawfulEqOrd α] {merged : Graph α} {m : Identification}
    (merges : g.Merges m merged) (initial : g.initial ∈ merged) (present : g.initial ∈ g) :
    g.Grows merged := by
  intro w q h
  refine ⟨m.image q, merges.run_image initial h, merges.accepting?_image_merged ?_⟩
  exact merges.closed.mem_of_reaches present ⟨w, h⟩

end BlueFringe.Graph
