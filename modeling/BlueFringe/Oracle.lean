import BlueFringe.Graph.Acceptance

/-!
# Oracles

An oracle answers whether words belong to a language. It is a machine with a state of its own:
asking gives an answer, or none if the oracle cannot be reached, and the state that it is in
afterwards.
-/

namespace BlueFringe

open Std

/-- What an oracle says about a word. -/
inductive Answer where
  /-- The word belongs to the language. -/
  | accept
  /-- The word does not belong to the language. -/
  | reject
  /-- The oracle does not know. -/
  | unknown
deriving DecidableEq

namespace Answer

/-- The answer of an oracle that knows. -/
def ofBool (accepted : Bool) : Answer :=
  if accepted then accept else reject

/-- Whether the answer rules out what is expected of the word. -/
def contradicts : Answer → Bool → Bool
  | accept, expected => !expected
  | reject, expected => expected
  | unknown, _ => false

end Answer

/-- A question that got no answer. -/
structure Unanswered (α : Type) where
  question : Word α
deriving DecidableEq

/-- The text of the report that a question got no answer. -/
def Unanswered.message {α : Type} [Render α] (u : Unanswered α) : String :=
  s!"the oracle did not answer {render u.question}"

/-- States `ω` of an oracle for words over `α`. -/
class Oracle (ω α : Type) where
  /-- The answer to a word, if there is one, and the next state. -/
  ask : ω → Word α → Option Answer × ω

/-- An oracle along with the words that it was asked, also those that it did not answer. -/
structure Recorded (ω α : Type) where
  oracle : ω
  /-- The words in the order in which they were asked. -/
  asked : List (Word α) := []

instance {ω α : Type} [Oracle ω α] : Oracle (Recorded ω α) α where
  ask s w :=
    let (answer, oracle) := Oracle.ask s.oracle w
    (answer, ⟨oracle, s.asked ++ [w]⟩)

/-- What a scripted oracle does when it is asked. -/
inductive Reply where
  /-- It answers. -/
  | answer (answer : Answer)
  /-- It cannot be reached. -/
  | unavailable
  /-- It hands the question on. -/
  | handOn
deriving DecidableEq

/-- One entry of a script. -/
structure Cue where
  reply : Reply
  /-- Whether the search is called off at the same time. -/
  cancels : Bool := false
deriving DecidableEq

/-- The oracles of this library. -/
inductive Informant (α : Type) [Ord α] where
  /-- Knows nothing. -/
  | silent
  /-- Answers by a graph and counts the questions. -/
  | reference (graph : Graph α) (asked : Nat)
  /-- Goes through a script, an entry for each question, and then hands all questions on. It keeps
  whether an entry called the search off. -/
  | scripted (cues : List Cue) (cancelled : Bool) (rest : Informant α)

namespace Informant

variable {α : Type} [Ord α] [TransOrd α]

/-- The answer to a word and the next state. -/
def ask : Informant α → Word α → Option Answer × Informant α
  | silent, _ => (some .unknown, silent)
  | reference graph asked, w => (some (.ofBool (graph.accepts w)), reference graph (asked + 1))
  | scripted [] cancelled rest, w =>
    let (answer, rest) := rest.ask w
    (answer, scripted [] cancelled rest)
  | scripted (cue :: cues) cancelled rest, w =>
    let cancelled := cancelled || cue.cancels
    match cue.reply with
    | .answer answer => (some answer, scripted cues cancelled rest)
    | .unavailable => (none, scripted cues cancelled rest)
    | .handOn =>
      let (answer, rest) := rest.ask w
      (answer, scripted cues cancelled rest)

instance : Oracle (Informant α) α := ⟨ask⟩

/-- Whether a script called the search off. -/
def isCancelled : Informant α → Bool
  | silent | reference _ _ => false
  | scripted _ cancelled rest => cancelled || rest.isCancelled

/-- Forgets that the search was called off. -/
def resume : Informant α → Informant α
  | scripted cues _ rest => scripted cues false rest.resume
  | informant => informant

/-- The reference graph that questions end up at, with the number of questions that it was asked. -/
def lastResort : Informant α → Option (Graph α × Nat)
  | silent => none
  | reference graph asked => some (graph, asked)
  | scripted _ _ rest => rest.lastResort

end Informant

end BlueFringe
