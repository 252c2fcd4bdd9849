import BlueFringe.Graph.Difference
import BlueFringe.Proofs.Growth

/-!
# Languages of states

The language of a state holds the words whose run visits only accepting states, the state itself
among them. A rejecting state and a missing transition look alike from here: either ends the live
run of a word, which is the run up to the point where it leaves the accepting states.
-/

namespace BlueFringe

open Std

variable {α : Type}

/-- With a word its prefixes belong to the language. -/
def PrefixClosed (L : Set (Word α)) : Prop := ∀ v w, v ++ w ∈ L → v ∈ L

theorem Word.forall_proper_prefix_cons {P : Word α → Prop} {a : α} {w : Word α} :
    (∀ v, v <+: a :: w → v ≠ a :: w → P v) ↔ P [] ∧ ∀ v, v <+: w → v ≠ w → P (a :: v) := by
  constructor
  · refine fun all => ⟨all [] List.nil_prefix (by simp), fun v first ne => ?_⟩
    exact all _ (List.cons_prefix_cons.mpr ⟨rfl, first⟩) (by simpa using ne)
  · rintro ⟨here, there⟩ v first ne
    cases v with
    | nil => exact here
    | cons b v =>
        obtain ⟨rfl, first'⟩ := List.cons_prefix_cons.mp first
        exact there v first' (by simpa using ne)

namespace Graph

variable [Ord α] [TransOrd α]

/-- The words whose run from a state exists and visits only accepting states. -/
def language (g : Graph α) (q : StateId) : Set (Word α) :=
  {w | ∀ v, v <+: w → ∃ p, g.runFrom q v = some p ∧ g.accepting? p = some true}

/-- Where a word of the language of a state leads; any other word leads nowhere. -/
def liveRun (g : Graph α) (q : StateId) (w : Word α) : Option StateId :=
  if g.acceptsFrom q w then g.runFrom q w else none

variable {g : Graph α} {q p : StateId} {a : α} {v w : Word α}

theorem mem_language : w ∈ g.language q ↔ g.acceptsFrom q w = true := by
  rw [acceptsFrom_iff]
  constructor
  · exact fun all v u split => all v ⟨u, split⟩
  · rintro all v ⟨u, split⟩
    exact all v u split

theorem prefixClosed_language : PrefixClosed (g.language q) :=
  fun _ _ h => mem_language.mpr (acceptsFrom_of_append (mem_language.mp h))

theorem acceptsFrom_nil : g.acceptsFrom q [] = true ↔ g.accepting? q = some true := by
  rw [acceptsFrom, beq_iff_eq]

/-- What a word is cut to has those of its prefixes without a rejected prefix before their end. -/
theorem prefix_truncateFrom_iff :
    v <+: g.truncateFrom q w ↔
      v <+: w ∧ ∀ u, u <+: v → u ≠ v → g.acceptsFrom q u = true := by
  have nothing : ∀ P : Word α → Prop, ∀ u : Word α, u <+: [] → u ≠ [] → P u :=
    fun _ u first ne => absurd (List.prefix_nil.mp first) ne
  induction w generalizing q v with
  | nil =>
      rw [truncateFrom, List.prefix_nil]
      refine ⟨?_, And.left⟩
      rintro rfl
      exact ⟨rfl, nothing _⟩
  | cons a w ih =>
      cases v with
      | nil => exact iff_of_true List.nil_prefix ⟨List.nil_prefix, nothing _⟩
      | cons b v =>
          rw [Word.forall_proper_prefix_cons, acceptsFrom, beq_iff_eq, truncateFrom,
            List.cons_prefix_cons]
          by_cases accepting : g.accepting? q = some true
          · rw [if_pos (beq_iff_eq.mpr accepting), List.cons_prefix_cons, and_iff_right accepting,
              and_assoc]
            refine and_congr_right ?_
            rintro rfl
            cases next : g.transition q b with
            | none =>
                -- Only the label itself can be read.
                rw [List.prefix_nil]
                constructor
                · rintro rfl
                  exact ⟨List.nil_prefix, nothing _⟩
                · rintro ⟨_, there⟩
                  by_contra ne
                  simpa [acceptsFrom, next] using there [] List.nil_prefix (Ne.symm ne)
            | some p =>
                have step : ∀ u, g.acceptsFrom q (b :: u) = g.acceptsFrom p u := fun u => by
                  simp [acceptsFrom, accepting, next]
                simp only [step]
                exact ih
          · rw [if_neg (by simpa using accepting)]
            exact iff_of_false (by simp) fun h => accepting h.2.1

/-! ### Live runs -/

theorem liveRun_eq_some :
    g.liveRun q w = some p ↔ g.acceptsFrom q w = true ∧ g.runFrom q w = some p := by
  rw [liveRun]
  split <;> simp_all

theorem liveRun_isSome : (g.liveRun q w).isSome = g.acceptsFrom q w := by
  rw [Bool.eq_iff_iff, Option.isSome_iff_exists]
  constructor
  · rintro ⟨p, hp⟩
    exact (liveRun_eq_some.mp hp).1
  · intro h
    obtain ⟨p, hp⟩ := exists_runFrom_of_acceptsFrom h
    exact ⟨p, liveRun_eq_some.mpr ⟨h, hp⟩⟩

theorem accepting?_of_liveRun (h : g.liveRun q w = some p) : g.accepting? p = some true := by
  obtain ⟨accepted, hp⟩ := liveRun_eq_some.mp h
  obtain ⟨r, hr, accepting⟩ := acceptsFrom_iff.mp accepted w [] (List.append_nil w)
  rwa [← Option.some.inj (hr.symm.trans hp)]

theorem liveRun_nil : g.liveRun q [] = g.live (some q) := by
  ext p
  rw [liveRun_eq_some, live_eq_some, acceptsFrom_nil, runFrom_nil, Option.some.injEq]
  constructor
  · rintro ⟨accepting, rfl⟩
    exact ⟨rfl, accepting⟩
  · rintro ⟨rfl, accepting⟩
    exact ⟨accepting, rfl⟩

/-- What a word accepts beyond a prefix is what the end of the prefix accepts. -/
theorem acceptsFrom_append_of_liveRun (h : g.liveRun q v = some p) :
    g.acceptsFrom q (v ++ w) = g.acceptsFrom p w := by
  obtain ⟨accepted, hv⟩ := liveRun_eq_some.mp h
  induction v generalizing q with
  | nil => rw [← Option.some.inj hv, List.nil_append]
  | cons a v ih =>
      rw [runFrom_cons, Option.bind_eq_some_iff] at hv
      obtain ⟨r, ha, hv⟩ := hv
      rw [acceptsFrom, Bool.and_eq_true, ha] at accepted
      rw [List.cons_append, acceptsFrom, accepted.1, ha, Bool.true_and]
      exact ih (liveRun_eq_some.mpr ⟨accepted.2, hv⟩) accepted.2 hv

theorem liveRun_append :
    g.liveRun q (v ++ w) = (g.liveRun q v).bind fun p => g.liveRun p w := by
  cases h : g.liveRun q v with
  | none =>
      rw [← Option.isNone_iff_eq_none, ← Option.isSome_eq_false_iff, liveRun_isSome] at h
      rw [liveRun, if_neg, Option.bind_none]
      intro accepted
      rw [acceptsFrom_of_append accepted] at h
      cases h
  | some p =>
      rw [liveRun, acceptsFrom_append_of_liveRun h, runFrom_append, (liveRun_eq_some.mp h).2]
      rfl

theorem liveRun_concat :
    g.liveRun q (w ++ [a]) = (g.liveRun q w).bind fun p => g.live (g.transition p a) := by
  rw [liveRun_append]
  cases h : g.liveRun q w with
  | none => rfl
  | some p =>
      rw [Option.bind_some, Option.bind_some, liveRun, acceptsFrom, accepting?_of_liveRun h]
      cases ht : g.transition p a with
      | none => rfl
      | some r => simp [acceptsFrom, ht, live, Option.filter_some]

/-- The labels of an accepted word are labels of the graph. -/
theorem mem_alphabet_of_acceptsFrom [LawfulEqOrd α] (h : g.acceptsFrom q w = true) (ha : a ∈ w) :
    a ∈ g.alphabet := by
  induction w generalizing q with
  | nil => cases ha
  | cons b w ih =>
      rw [acceptsFrom, Bool.and_eq_true] at h
      cases hb : g.transition q b with
      | none => simp [hb] at h
      | some r =>
          rw [hb] at h
          rcases List.mem_cons.mp ha with rfl | later
          · exact mem_alphabet.mpr ⟨q, r, hb⟩
          · exact ih h.2 later

end Graph

end BlueFringe
