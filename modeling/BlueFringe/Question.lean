import BlueFringe.Graph.Reach
import BlueFringe.Graph.Acceptance
import BlueFringe.Identification
import BlueFringe.Oracle

/-!
# Questions

Before a merge is made, an oracle can be asked about words that the merge introduces: words that
have a run in the merged graph and none in the graph before. There are three rules for which of
these words are asked.
-/

namespace BlueFringe

open Std

/-- A word for an oracle, with what the merged graph says about it. -/
structure Question (α : Type) where
  word : Word α
  /-- Whether the merged graph accepts the word. -/
  expected : Bool
deriving DecidableEq

instance {α : Type} [Render α] : Render (Question α) where
  render question := render question.expected ++ render question.word

/-- Which words are candidates for questions. -/
inductive QuestionRule where
  /-- The access word of the red state before the merge, followed by the transition cover of the
  merged graph from there. -/
  | qsm
  /-- Like `qsm`, but with the access word of the red state after the merge, also extended by each
  label that loops there. -/
  | improved
  /-- The access words before the merge of all states of a class, extended by each label that their
  representative has after the merge. -/
  | symmetric
deriving DecidableEq

/-- Which questions are asked, and how many at most for one merge. -/
structure QuestionPlan where
  rule : QuestionRule := .qsm
  limit : Nat := 16
deriving DecidableEq

namespace Graph

variable {α : Type} [Ord α] [TransOrd α]

/-- The least words that lead from an origin to each state, and these words with each label that
leaves the state. -/
def transitionCover (g : Graph α) (origin : StateId) : List (Word α) :=
  (g.representatives origin).flatMap fun entry =>
    entry.1 :: (g.edges entry.2).map fun edge => entry.1 ++ [edge.1]

/-- The labels that lead from a state back to it. -/
def loops (g : Graph α) (q : StateId) : List α :=
  ((g.edges q).filter fun edge => edge.2 = q).map (·.1)

end Graph

namespace QuestionRule

variable {α : Type} [Ord α] [TransOrd α]

/-- The words that all members of a class are asked about. -/
def symmetricWords (before merged : Graph α) (red : StateId) (members : List StateId) :
    List (Word α) :=
  let survivor := (members.find? fun q => q ∈ merged).getD red
  Word.products (members.filterMap before.accessWord)
    ((merged.edges survivor).map fun edge => [edge.1])

/-- The candidates for questions about a merge that leads from one graph to another. -/
def candidates (rule : QuestionRule) (before merged : Graph α) (m : Identification) :
    List (Word α) :=
  let red := m.pair.red
  match rule with
  | qsm => Word.products (before.accessWord red).toList (merged.transitionCover red)
  | improved =>
    let stems := (merged.accessWord red).toList.flatMap fun w =>
      w :: (merged.loops red).map fun a => w ++ [a]
    Word.products stems (merged.transitionCover red)
  | symmetric =>
    m.classes.classes.flatMap fun members => symmetricWords before merged red members.toList

end QuestionRule

variable {α : Type} [Ord α] [TransOrd α]

/-- Whether a word has a run in the second graph and none in the first. -/
def isIntroduced (before merged : Graph α) (w : Word α) : Bool :=
  (before.run w).isNone && (merged.run w).isSome

/-- The questions about a merge: the introduced words among the candidates, in shortlex order. -/
def QuestionPlan.questions (plan : QuestionPlan) (before merged : Graph α) (m : Identification) :
    List (Question α) :=
  let words := (plan.rule.candidates before merged m).filter (isIntroduced before merged)
  ((Word.arrange words).take plan.limit).map fun w => ⟨w, merged.accepts w⟩

/-- Every question is about a word that the merge introduces. -/
theorem QuestionPlan.isIntroduced_of_mem [LawfulEqOrd α] {plan : QuestionPlan}
    {before merged : Graph α} {m : Identification} {question : Question α}
    (h : question ∈ plan.questions before merged m) :
    isIntroduced before merged question.word = true ∧
      question.expected = merged.accepts question.word := by
  obtain ⟨w, hw, rfl⟩ := List.mem_map.mp h
  exact ⟨(List.mem_filter.mp (Word.mem_arrange.mp (List.mem_of_mem_take hw))).2, rfl⟩

end BlueFringe
