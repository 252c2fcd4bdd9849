import Mathlib.Data.List.Basic

/-!
# Lists that are searched and traversed

What is found first in an ordered list, and what comes of steps that may fail if none of them does.
-/

namespace BlueFringe

/-- What is found first in an ordered list precedes all else that could have been found. -/
theorem rel_of_find?_eq_some {β : Type} {R : β → β → Prop} {xs : List β} {test : β → Bool} {x : β}
    (ordered : xs.Pairwise R) (found : xs.find? test = some x) :
    ∀ y ∈ xs, test y = true → y ≠ x → R x y := by
  obtain ⟨_, before, after, rfl, failing⟩ := List.find?_eq_some_iff_append.mp found
  have tail := (List.pairwise_cons.mp (List.pairwise_append.mp ordered).2.1).1
  intro y hy passes ne
  rcases List.mem_append.mp hy with early | late
  · have fails := failing y early
    rw [passes] at fails
    cases fails
  · rcases List.mem_cons.mp late with rfl | later
    · exact absurd rfl ne
    · exact tail y later

/-- What comes first in a list, behind elements that are passed over, is in front of it or else
comes first in the rest. -/
theorem exists_first_cons {β : Type} {passed sought : β → Prop} {x : β} {xs : List β} :
    (∃ before y after, x :: xs = before ++ y :: after ∧ (∀ z ∈ before, passed z) ∧ sought y) ↔
      sought x ∨ passed x ∧
        ∃ before y after, xs = before ++ y :: after ∧ (∀ z ∈ before, passed z) ∧ sought y := by
  constructor
  · rintro ⟨before, y, after, split, skipped, found⟩
    cases before with
    | nil =>
        obtain ⟨rfl, rfl⟩ := List.cons.inj split
        exact .inl found
    | cons z before =>
        obtain ⟨rfl, rfl⟩ := List.cons.inj split
        obtain ⟨first, skipped⟩ := List.forall_mem_cons.mp skipped
        exact .inr ⟨first, before, y, after, rfl, skipped, found⟩
  · rintro (found | ⟨first, before, y, after, rfl, skipped, found⟩)
    · exact ⟨[], x, xs, rfl, by simp, found⟩
    · exact ⟨x :: before, y, after, rfl, List.forall_mem_cons.mpr ⟨first, skipped⟩, found⟩

section Mapping

variable {β γ ε : Type} {f : β → Except ε γ} {xs : List β} {ys : List γ} {x : β} {y : γ}

theorem bind_eq_ok {e : Except ε β} : e >>= f = .ok y ↔ ∃ x, e = .ok x ∧ f x = .ok y := by
  cases e with
  | error e => exact iff_of_false nofun nofun
  | ok x =>
      refine ⟨fun made => ⟨x, rfl, made⟩, ?_⟩
      rintro ⟨_, same, made⟩
      rwa [same]

theorem forall₂_of_mapM_eq_ok (made : xs.mapM f = .ok ys) :
    List.Forall₂ (fun x y => f x = .ok y) xs ys := by
  induction xs generalizing ys with
  | nil =>
      cases made
      exact .nil
  | cons x xs ih =>
      rw [List.mapM_cons, bind_eq_ok] at made
      obtain ⟨y, first, made⟩ := made
      obtain ⟨ys, rest, made⟩ := bind_eq_ok.mp made
      cases made
      exact .cons first (ih rest)

theorem mem_of_mapM_eq_ok (made : xs.mapM f = .ok ys) : y ∈ ys ↔ ∃ x ∈ xs, f x = .ok y := by
  have steps := forall₂_of_mapM_eq_ok made
  clear made
  induction steps with
  | nil => simp
  | cons first _ ih =>
      rw [List.mem_cons, List.exists_mem_cons_iff, first, Except.ok.injEq, eq_comm]
      exact or_congr_right ih

theorem exists_mem_of_mapM_eq_ok (made : xs.mapM f = .ok ys) (hx : x ∈ xs) :
    ∃ y ∈ ys, f x = .ok y := by
  have steps := forall₂_of_mapM_eq_ok made
  clear made
  induction steps with
  | nil => cases hx
  | cons first _ ih =>
      rcases List.mem_cons.mp hx with rfl | later
      · exact ⟨_, List.mem_cons_self, first⟩
      · obtain ⟨y, mem, step⟩ := ih later
        exact ⟨y, List.mem_cons_of_mem _ mem, step⟩

end Mapping

end BlueFringe
