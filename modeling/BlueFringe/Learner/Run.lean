import BlueFringe.Learner.Step

/-!
# Runs of the search

A run makes steps until the search is over or something stops it: an error, the limit on merges
and promotions, or a signal that is looked at before every step. After a run that stopped the
search stands between two steps.
-/

namespace BlueFringe

open Std

namespace Learner

variable {α ω : Type} [Ord α] [TransOrd α] [Oracle ω α]

/-- What stops a run before its next step, if anything. -/
def stopBefore (stop : Learner α ω → Bool) (l : Learner α ω) : Option (LearnError α) :=
  if stop l then some (.cancelled l.iterations)
  else if l.settings.maxIterations ≤ l.iterations then some (.iterationLimit l.iterations)
  else none

/-- Makes at most so many steps. -/
def advance (stop : Learner α ω → Bool) :
    Nat → Learner α ω → Except (LearnError α) Unit × Learner α ω
  | 0, l => (.ok (), l)
  | steps + 1, l =>
    if l.phase.isDone then (.ok (), l)
    else match l.stopBefore stop with
      | some error => (.error error, l)
      | none =>
        match l.step with
        | (.error error, l) => (.error error, l)
        | (.ok _, l) => advance stop steps l

/-- No run needs more steps. Every merge and every promotion leaves one state less that is not red
and takes three steps at most; every exclusion uses up a pair of states and takes two; the first
step and the last exploration are two more. -/
def stepBound (l : Learner α ω) : Nat :=
  2 * l.graph.size * l.graph.size + 3 * l.graph.size + 2

/-- Runs the search until it is over, unless the signal or an error stops it. -/
def runUnless (stop : Learner α ω → Bool) (l : Learner α ω) :
    Except (LearnError α) Unit × Learner α ω :=
  l.advance stop l.stepBound

/-- Runs the search until it is over, unless an error stops it. -/
def run (l : Learner α ω) : Except (LearnError α) Unit × Learner α ω :=
  l.runUnless fun _ => false

end Learner

variable {α : Type} [Ord α] [TransOrd α]

/-- The hypothesis for a sample that a search without an oracle comes to. -/
def learn (sample : Sample α) (settings : Settings α) : Except (LearnError α) (Graph α) := do
  let l ← Learner.ofSample sample settings (Informant.silent (α := α))
  match l.run with
  | (.error error, _) => .error error
  | (.ok _, l) => .ok l.graph

end BlueFringe
