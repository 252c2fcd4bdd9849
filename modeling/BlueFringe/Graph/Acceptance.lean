import BlueFringe.Graph.Lemmas

/-!
# Runs and acceptance

A word is accepted if its run exists and visits only accepting states. So the language of a graph is
closed under prefixes, and a missing transition rejects.
-/

namespace BlueFringe.Graph

open Std

variable {α : Type} [Ord α] [TransOrd α]

/-- The state to which a word leads from a state. -/
def runFrom (g : Graph α) (q : StateId) : Word α → Option StateId
  | [] => some q
  | a :: w => (g.transition q a).bind fun p => g.runFrom p w

/-- The state to which a word leads from the initial state. -/
def run (g : Graph α) (w : Word α) : Option StateId := g.runFrom g.initial w

/-- Whether the run of a word from a state exists and visits only accepting states. -/
def acceptsFrom (g : Graph α) (q : StateId) : Word α → Bool
  | [] => g.accepting? q == some true
  | a :: w => g.accepting? q == some true &&
    match g.transition q a with
    | none => false
    | some p => g.acceptsFrom p w

/-- Whether a word is accepted. -/
def accepts (g : Graph α) (w : Word α) : Bool := g.acceptsFrom g.initial w

/-- The word up to its first prefix that a state does not accept. -/
def truncateFrom (g : Graph α) (q : StateId) : Word α → Word α
  | [] => []
  | a :: w =>
    if g.accepting? q == some true then
      a :: match g.transition q a with
        | none => []
        | some p => g.truncateFrom p w
    else []

variable {g : Graph α} {q p : StateId} {a : α} {v w : Word α}

@[simp] theorem runFrom_nil : g.runFrom q [] = some q := rfl

@[simp] theorem runFrom_cons :
    g.runFrom q (a :: w) = (g.transition q a).bind fun p => g.runFrom p w := rfl

theorem runFrom_append : g.runFrom q (v ++ w) = (g.runFrom q v).bind fun p => g.runFrom p w := by
  induction v generalizing q with
  | nil => rfl
  | cons a v ih => cases h : g.transition q a <;> simp [h, ih]

theorem exists_runFrom_of_acceptsFrom (h : g.acceptsFrom q w = true) :
    ∃ p, g.runFrom q w = some p := by
  induction w generalizing q with
  | nil => exact ⟨q, rfl⟩
  | cons a w ih =>
    cases ht : g.transition q a with
    | none => simp [acceptsFrom, ht] at h
    | some p =>
      simp only [acceptsFrom, ht, Bool.and_eq_true] at h
      simpa [ht] using ih h.2

/-- Languages are closed under prefixes. -/
theorem acceptsFrom_of_append (h : g.acceptsFrom q (v ++ w) = true) : g.acceptsFrom q v = true := by
  induction v generalizing q with
  | nil => cases w <;> simp_all [acceptsFrom]
  | cons a v ih =>
    cases ht : g.transition q a with
    | none => simp [acceptsFrom, ht] at h
    | some p =>
      simp only [List.cons_append, acceptsFrom, ht, Bool.and_eq_true] at h ⊢
      exact ⟨h.1, ih h.2⟩

theorem truncateFrom_prefix : g.truncateFrom q w <+: w := by
  induction w generalizing q with
  | nil => exact List.prefix_refl []
  | cons a w ih =>
    rw [truncateFrom]
    split
    · cases g.transition q a with
      | none => exact List.cons_prefix_cons.mpr ⟨rfl, List.nil_prefix⟩
      | some p => exact List.cons_prefix_cons.mpr ⟨rfl, ih⟩
    · exact List.nil_prefix

/-- Nothing can follow a rejection, so cutting there keeps the classification. -/
theorem acceptsFrom_truncateFrom : g.acceptsFrom q (g.truncateFrom q w) = g.acceptsFrom q w := by
  induction w generalizing q with
  | nil => rfl
  | cons a w ih =>
    rw [truncateFrom]
    split
    · cases ht : g.transition q a with
      | none => simp [acceptsFrom, ht]
      | some p => simp [acceptsFrom, ht, ih]
    · simp_all [acceptsFrom]

end BlueFringe.Graph
