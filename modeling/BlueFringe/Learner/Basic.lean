import BlueFringe.Inquiry
import BlueFringe.PrefixTree
import BlueFringe.Quotient
import BlueFringe.Sample
import BlueFringe.Scoring

/-!
# The search

The state of a blue-fringe search. Red states are confirmed to differ from one another, blue
states are the targets of red ones that are not red themselves. The search starts from a prefix
tree of which only the root is red; it merges blue states into red ones or promotes them to red
until all states are red. Data that only one phase needs is held by that phase.
-/

namespace BlueFringe

open Std

/-- When a blue state is promoted to red. -/
inductive Promotion where
  /-- When no pair can be merged. -/
  | whenStuck
  /-- As soon as it can be merged with no red state. -/
  | eager
deriving DecidableEq

/-- How a search goes about it. -/
structure Settings (α : Type) [Ord α] where
  strategy : Strategy := .edsm
  promotion : Promotion := .whenStuck
  conflicts : ConflictPolicy := .abort
  /-- The questions that are asked before a merge, if any. -/
  questions : Option QuestionPlan := none
  /-- Graphs that must accept a word, or else it is rejected without asking. -/
  constraints : List (Graph α) := []
  /-- The number of merges and promotions after which a run is given up. -/
  maxIterations : Nat := 1000000

/-- A pair that can be merged. -/
structure Candidate where
  pair : StatePair
  score : Score
  identification : Identification
deriving DecidableEq

/-- What a search does next. -/
inductive Phase (α : Type) [Ord α] where
  /-- The prefix tree was not looked at. -/
  | initial
  /-- The blue states have to be found and scored. -/
  | explore
  /-- The best candidate has to be checked; the others follow in order. -/
  | select (best : Candidate) (others : List Candidate)
  /-- A candidate was chosen, and the graph after its merge is known. -/
  | merge (chosen : Candidate) (merged : Graph α)
  /-- Nothing can be merged, so a blue state has to be promoted. -/
  | promote
  /-- All states are red. -/
  | done

/-- The name of a phase in reports. -/
def Phase.name {α : Type} [Ord α] : Phase α → String
  | initial => "initial"
  | explore => "explore"
  | select _ _ => "select"
  | merge _ _ => "merge"
  | promote => "promote"
  | done => "done"

/-- Whether the search is over. -/
def Phase.isDone {α : Type} [Ord α] : Phase α → Bool
  | done => true
  | _ => false

/-- What a search has decided. -/
inductive Record where
  /-- The pair was merged, and `states` states are left. -/
  | merged (pair : StatePair) (score : Score) (states : Nat)
  /-- The state was promoted to red. -/
  | promoted (state : StateId)
  /-- An answer spoke against the pair, so it is not considered again. -/
  | excluded (pair : StatePair)
deriving DecidableEq

/-- What one step of a search came to. -/
inductive Step where
  /-- The blue states were scored, with this many candidates. -/
  | explored (candidates : Nat)
  /-- A decision was made. -/
  | recorded (record : Record)
  /-- The best candidate passed all questions. -/
  | selected (pair : StatePair)
  /-- The search is over. -/
  | done
deriving DecidableEq

/-- What can stop a search. -/
inductive LearnError (α : Type) where
  /-- The traces contradict one another. -/
  | conflict (conflict : Conflict α)
  /-- A pair could not be scored or merged. -/
  | violation (violation : Violation)
  /-- The oracle did not answer. -/
  | suspended (unanswered : Unanswered α)
  /-- The run was called off after this many iterations. -/
  | cancelled (iterations : Nat)
  /-- The run was given up after this many iterations. -/
  | iterationLimit (iterations : Nat)
deriving DecidableEq

namespace LearnError

variable {α : Type}

/-- Whether the search can go on later from where it stopped. -/
def isResumable : LearnError α → Bool
  | suspended _ | cancelled _ => true
  | conflict _ | violation _ | iterationLimit _ => false

/-- The text of the error. -/
def message [Render α] : LearnError α → String
  | conflict c => c.message
  | violation v => v.message
  | suspended u => u.message
  | cancelled iterations => s!"learning was cancelled after {iterations} iterations"
  | iterationLimit iterations => s!"no hypothesis after {iterations} iterations"

end LearnError

/-- The state of a search that asks an oracle with states `ω`. -/
structure Learner (α ω : Type) [Ord α] where
  settings : Settings α
  /-- The hypothesis. -/
  graph : Graph α
  phase : Phase α := .initial
  /-- The number of merges and promotions. -/
  iterations : Nat := 0
  /-- All decisions in order. -/
  history : List Record := []
  /-- The pairs that an answer spoke against. -/
  excluded : ExtTreeSet StatePair compare := ∅
  inquiry : Inquiry α ω
  /-- The conflicts of the traces that are not in the prefix tree. -/
  skipped : List (Conflict α) := []

namespace Learner

variable {α ω : Type} [Ord α] [TransOrd α]

/-- The search that starts from a prefix tree. -/
def ofGraph (graph : Graph α) (settings : Settings α) (oracle : ω) : Learner α ω :=
  { settings, graph, inquiry := { oracle } }

/-- The search that starts from the prefix tree of a sample. -/
def ofSample (sample : Sample α) (settings : Settings α) (oracle : ω) :
    Except (LearnError α) (Learner α ω) :=
  match PrefixTree.ofTraces settings.conflicts sample.traces with
  | .error conflict => .error (.conflict conflict)
  | .ok tree => .ok { ofGraph tree.graph settings oracle with skipped := tree.skipped }

/-- Goes on with another oracle. Answers that are known stay known. -/
def withOracle {ω' : Type} (l : Learner α ω) (oracle : ω') : Learner α ω' :=
  { l with inquiry := { l.inquiry with oracle } }

end Learner

end BlueFringe
