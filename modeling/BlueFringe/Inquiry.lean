import BlueFringe.Question

/-!
# Inquiries

An inquiry puts questions to an oracle and remembers the answers, so that no word is answered twice.
Words that a domain constraint does not accept are rejected without asking.
-/

namespace BlueFringe

open Std

/-- An oracle with the answers that are known already. -/
structure Inquiry (α ω : Type) [Ord α] where
  oracle : ω
  answers : ExtTreeMap (Word α) Answer compare := ∅

namespace Inquiry

variable {α ω : Type} [Ord α] [TransOrd α]

/-- Remembers an answer. -/
def remember (i : Inquiry α ω) (w : Word α) (answer : Answer) : Inquiry α ω :=
  { i with answers := i.answers.insert w answer }

variable [Oracle ω α]

/-- The answer to a word: the one that is remembered, else rejection if a constraint demands it,
else what the oracle says. -/
def resolve (constraints : List (Graph α)) (i : Inquiry α ω) (w : Word α) :
    Except (Unanswered α) Answer × Inquiry α ω :=
  match i.answers[w]? with
  | some answer => (.ok answer, i)
  | none =>
    if constraints.any fun c => !c.accepts w then (.ok .reject, i.remember w .reject)
    else match Oracle.ask i.oracle w with
      | (some answer, oracle) => (.ok answer, { i with oracle }.remember w answer)
      | (none, oracle) => (.error ⟨w⟩, { i with oracle })

/-- Whether no question is answered against expectation. Questions are asked in order and only until
the first such answer. -/
def passes (constraints : List (Graph α)) (i : Inquiry α ω) :
    List (Question α) → Except (Unanswered α) Bool × Inquiry α ω
  | [] => (.ok true, i)
  | question :: rest =>
    match i.resolve constraints question.word with
    | (.error unanswered, i) => (.error unanswered, i)
    | (.ok answer, i) =>
      if answer.contradicts question.expected then (.ok false, i) else i.passes constraints rest

end Inquiry

end BlueFringe
