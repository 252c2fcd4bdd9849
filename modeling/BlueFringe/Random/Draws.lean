/-!
# Draws

What the random constructions of this library need from a generator: a coin with a given bias, a
fair coin, and an index. They depend on nothing else, so all that holds of them for every result
of the draws holds for every generator.
-/

namespace BlueFringe

/-- Generators with states `γ`. -/
class Draws (γ : Type) where
  /-- True with the given probability. -/
  chance : Float → γ → Bool × γ
  /-- True or false with equal probability. -/
  flip : γ → Bool × γ
  /-- A number from zero up to and including the bound, each with equal probability. -/
  index (bound : Nat) : γ → Fin (bound + 1) × γ

namespace Draws

variable {β γ : Type} [Draws γ]

/-- A member of a list, each with equal probability. An empty list has none, and nothing is drawn.
-/
def pick : List β → γ → Option β × γ
  | [], draws => (none, draws)
  | x :: xs, draws =>
    let (i, draws) := index xs.length draws
    (some ((x :: xs)[i]), draws)

theorem mem_of_pick {xs : List β} {x : β} {draws draws' : γ}
    (h : pick xs draws = (some x, draws')) : x ∈ xs := by
  cases xs with
  | nil => cases h
  | cons y ys =>
    simp only [pick, Prod.mk.injEq, Option.some.injEq] at h
    exact h.1 ▸ List.getElem_mem _

end Draws

end BlueFringe
