import BlueFringe.Learner.Frontier

/-!
# Steps of the search

One step moves a search from one phase to the next. A step that fails leaves the hypothesis and
the decisions as they are; if the oracle did not answer, the same step can be tried again and the
answers that were given before are remembered.
-/

namespace BlueFringe

open Std

namespace Learner

variable {α ω : Type} [Ord α] [TransOrd α]

/-- Colours the root red and nothing else. -/
def begin (l : Learner α ω) : Learner α ω :=
  { l with
    graph := l.graph.clearColours.setColour l.graph.initial .red
    phase := .explore }

/-- Promotes a state to red. -/
def promote (l : Learner α ω) (blue : StateId) : Step × Learner α ω :=
  (.recorded (.promoted blue),
    { l with
      graph := l.graph.setColour blue .red
      phase := .explore
      iterations := l.iterations + 1
      history := l.history ++ [.promoted blue] })

/-- What follows from the scores of all open pairs. -/
def explored (l : Learner α ω) (scored : List Candidate) : Step × Learner α ω :=
  let stuck := match l.settings.promotion with
    | .whenStuck => none
    | .eager => l.graph.stuckState? scored
  match stuck with
  | some blue => l.promote blue
  | none =>
    match l.graph.candidates scored with
    | [] => (.explored 0, { l with phase := .promote })
    | best :: others => (.explored (others.length + 1), { l with phase := .select best others })

/-- Finds the blue states and scores them with all red ones. -/
def explore (l : Learner α ω) : Except (LearnError α) Step × Learner α ω :=
  let l := { l with graph := l.graph.recolour }
  if l.graph.frontier.isEmpty then (.ok .done, { l with phase := .done })
  else match l.graph.scoredPairs l.settings.strategy l.excluded with
    | .error violation => (.error (.violation violation), l)
    | .ok scored =>
      let (step, l) := l.explored scored
      (.ok step, l)

/-- Excludes a pair for good. -/
def exclude (l : Learner α ω) (pair : StatePair) : Step × Learner α ω :=
  (.recorded (.excluded pair),
    { l with
      phase := .explore
      history := l.history ++ [.excluded pair]
      excluded := l.excluded.insert pair })

/-- The questions about the merge of a candidate. -/
def questionsFor (l : Learner α ω) (c : Candidate) (merged : Graph α) : List (Question α) :=
  match l.settings.questions with
  | none => []
  | some plan => plan.questions l.graph merged c.identification

/-- Makes the merge that was chosen. -/
def commit (l : Learner α ω) (chosen : Candidate) (merged : Graph α) : Step × Learner α ω :=
  let record := Record.merged chosen.pair chosen.score merged.size
  (.recorded record,
    { l with
      graph := merged
      phase := .explore
      iterations := l.iterations + 1
      history := l.history ++ [record] })

variable [Oracle ω α]

/-- Asks about the merge of the best candidate and chooses it, or excludes its pair. -/
def select (l : Learner α ω) (best : Candidate) : Except (LearnError α) Step × Learner α ω :=
  match l.graph.merge best.pair best.identification with
  | .error violation => (.error (.violation violation), l)
  | .ok merged =>
    match l.inquiry.passes l.settings.constraints (l.questionsFor best merged) with
    | (.error unanswered, inquiry) => (.error (.suspended unanswered), { l with inquiry })
    | (.ok true, inquiry) =>
      (.ok (.selected best.pair), { l with inquiry, phase := .merge best merged })
    | (.ok false, inquiry) =>
      let (step, l) := { l with inquiry }.exclude best.pair
      (.ok step, l)

/-- One step of the search. -/
def step (l : Learner α ω) : Except (LearnError α) Step × Learner α ω :=
  match l.phase with
  | .initial => (.ok (.explored 0), l.begin)
  | .explore => l.explore
  | .select best _ => l.select best
  | .merge chosen merged =>
    let (step, l) := l.commit chosen merged
    (.ok step, l)
  | .promote =>
    match l.graph.frontier with
    | [] => l.explore
    | blue :: _ =>
      let (step, l) := { l with graph := l.graph.recolour }.promote blue
      (.ok step, l)
  | .done => (.ok .done, l)

end Learner

end BlueFringe
