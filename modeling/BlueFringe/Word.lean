import BlueFringe.Sorting

/-!
# Words

Words are lists of labels. Their order is the shortlex order: a shorter word comes first, words of
one length are compared label by label.
-/

namespace BlueFringe

open Std

variable {α : Type}

/-- A sequence of labels. -/
abbrev Word (α : Type) := List α

namespace Word

/-- The shortlex order of words. -/
def shortlex [Ord α] : Word α → Word α → Ordering :=
  compareLex (compareOn List.length) compare

instance [Ord α] [TransOrd α] : TransCmp (@shortlex α _) :=
  inferInstanceAs (TransCmp (compareLex (compareOn List.length) compare))

theorem shortlex_eq_lt [Ord α] {v w : Word α} :
    shortlex v w = .lt ↔ v.length < w.length ∨ (v.length = w.length ∧ compare v w = .lt) := by
  simp only [shortlex, compareLex, compareOn, Ordering.then_eq_lt, Nat.compare_eq_lt,
    Nat.compare_eq_eq]

theorem shortlex_eq_eq [Ord α] [LawfulEqOrd α] {v w : Word α} : shortlex v w = .eq ↔ v = w := by
  simp only [shortlex, compareLex_eq_eq, compareOn]
  constructor
  · exact fun h => LawfulEqOrd.eq_of_compare h.2
  · rintro rfl
    exact ⟨ReflCmp.compare_self, ReflCmp.compare_self⟩

instance [Ord α] [TransOrd α] [LawfulEqOrd α] : LawfulEqCmp (@shortlex α _) where
  eq_of_compare h := shortlex_eq_eq.mp h

theorem shortlex_of_length_lt [Ord α] {v w : Word α} (h : v.length < w.length) :
    shortlex v w = .lt :=
  shortlex_eq_lt.mpr (.inl h)

/-- A prefix comes first. -/
theorem shortlex_isLE_of_prefix [Ord α] [TransOrd α] {v w : Word α} (h : v <+: w) :
    (shortlex v w).isLE := by
  rcases Nat.lt_or_eq_of_le h.length_le with shorter | same
  · rw [shortlex_of_length_lt shorter]
    rfl
  · rw [h.eq_of_length same]
    exact ReflCmp.isLE_rfl

theorem compare_append [Ord α] {v w v' w' : Word α} (same : v.length = w.length) :
    compare (v ++ v') (w ++ w') = (compare v w).then (compare v' w') := by
  induction v generalizing w with
  | nil =>
    obtain rfl := List.length_eq_zero_iff.mp same.symm
    rfl
  | cons a v ih =>
    cases w with
    | nil => cases same
    | cons b w =>
      rw [List.cons_append, List.cons_append, List.compare_cons_cons, List.compare_cons_cons,
        ih (Nat.succ.inj same), Ordering.then_assoc]

/-- One more label on each side decides only between equal words. -/
theorem shortlex_concat [Ord α] {v w : Word α} {a b : α} :
    shortlex (v ++ [a]) (w ++ [b]) = (shortlex v w).then (compare a b) := by
  simp only [shortlex, compareLex, compareOn, List.length_append, List.length_singleton]
  by_cases same : v.length = w.length
  · rw [compare_append same, same, Nat.compare_eq_eq.mpr rfl, Nat.compare_eq_eq.mpr rfl]
    simp [List.compare_cons_cons]
  · rcases Nat.lt_or_gt_of_ne same with shorter | longer
    · rw [Nat.compare_eq_lt.mpr shorter, Nat.compare_eq_lt.mpr (Nat.succ_lt_succ shorter)]
      rfl
    · rw [Nat.compare_eq_gt.mpr longer, Nat.compare_eq_gt.mpr (Nat.succ_lt_succ longer)]
      rfl

/-- The word has the property, and no word with it comes first in shortlex order. -/
def Least [Ord α] (P : Word α → Prop) (w : Word α) : Prop :=
  P w ∧ ∀ v, P v → (shortlex w v).isLE

theorem Least.unique [Ord α] [TransOrd α] [LawfulEqOrd α] {P : Word α → Prop} {v w : Word α}
    (hv : Least P v) (hw : Least P w) : v = w := by
  have both : shortlex v w = .eq := OrientedCmp.isLE_antisymm (hv.2 w hw.1) (hw.2 v hv.1)
  exact shortlex_eq_eq.mp both

/-- The words in shortlex order, each once. -/
def arrange [Ord α] [TransOrd α] (words : List (Word α)) : List (Word α) :=
  distinctBy shortlex words

@[simp] theorem mem_arrange [Ord α] [TransOrd α] [LawfulEqOrd α] {w : Word α}
    {words : List (Word α)} : w ∈ arrange words ↔ w ∈ words :=
  mem_distinctBy

/-- Every word of the first list followed by every word of the second. -/
def products (stems endings : List (Word α)) : List (Word α) :=
  stems.flatMap fun stem => endings.map (stem ++ ·)

theorem mem_products {stems endings : List (Word α)} {w : Word α} :
    w ∈ products stems endings ↔ ∃ stem ∈ stems, ∃ ending ∈ endings, stem ++ ending = w := by
  simp [products]

end Word

end BlueFringe
