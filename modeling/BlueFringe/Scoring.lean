import BlueFringe.Folding
import BlueFringe.Text.Grid

/-!
# Scoring

A strategy turns the folding of a pair into a score. All strategies refuse the pairs whose folding
identifies an accepting with a rejecting state; they differ in what they count as evidence.
-/

namespace BlueFringe

open Std

/-- How the evidence for a pair is weighed. -/
inductive Strategy where
  /-- The identified states count, and of those the rejecting ones decide between equals. -/
  | edsm
  /-- All pairs that can be merged count the same. -/
  | rpni
  /-- Like `edsm`, but pairs with fewer identified states than `min` are refused. -/
  | threshold (min : Int)
deriving DecidableEq

namespace Strategy

/-- The name of the strategy in reports. -/
def name : Strategy → String
  | edsm => "Edsm"
  | rpni => "Rpni"
  | threshold min => "Threshold \x7b min: " ++ toString min ++ " \x7d"

variable {α : Type} [Ord α]

/-- The score of a folding. -/
def weigh (strategy : Strategy) (g : Graph α) (f : Folding α) : Score :=
  if f.clash.isSome then .incompatible
  else match strategy with
    | edsm => .compatible f.matched (f.rejecting g)
    | rpni => .compatible 0 0
    | threshold min =>
      if (f.matched : Int) < min then .incompatible else .compatible f.matched (f.rejecting g)

variable [TransOrd α]

/-- The score of a pair and the identification that a merge of the pair uses. -/
def score (strategy : Strategy) (g : Graph α) (pair : StatePair) :
    Except Violation (Score × Identification) := do
  let f ← Folding.ofPair g pair
  let score := strategy.weigh g f
  return (score, ⟨pair, f.entries, !score.isCompatible⟩)

end Strategy

/-- How a pair came by its score. -/
structure Explanation where
  strategy : Strategy
  pair : StatePair
  score : Score
  matched : Nat
  rejecting : Nat
  entries : List (StateId × StateId)
  /-- The first two identified states that differ in acceptance. -/
  clash : Option (StateId × StateId)
deriving DecidableEq

/-- The score of a pair with all that led to it. -/
def Strategy.explain {α : Type} [Ord α] [TransOrd α] (strategy : Strategy) (g : Graph α)
    (pair : StatePair) : Except Violation Explanation := do
  let f ← Folding.ofPair g pair
  return ⟨strategy, pair, strategy.weigh g f, f.matched, f.rejecting g, f.entries, f.clash⟩

namespace Explanation

/-- The identified states as a grid. -/
def grid (e : Explanation) : String :=
  Text.Grid.draw (["state", "merged into"] ::
    e.entries.map fun entry => [render entry.1, render entry.2])

/-- One sentence, the grid, and the clash if there is one. -/
instance : Render Explanation where
  render e :=
    s!"{e.strategy.name} scores {render e.pair} as {render e.score} " ++
      s!"({e.matched} matched, {e.rejecting} rejecting)\n" ++ e.grid ++
      match e.clash with
      | none => ""
      | some (q, r) => s!"\n{render q} and {render r} disagree on acceptance"

end Explanation

end BlueFringe
