import BlueFringe.Proofs.Accounting
import BlueFringe.Proofs.Greedy
import BlueFringe.Proofs.Interruption

/-!
# Answers behind a merge

A merge is made only after each question about it was answered, and no answer spoke against it. A
question is about a word that has a run in the merged graph, and hypotheses keep the runs of the
ones before. So whatever was answered definitely about a merge that was made is true of all
hypotheses from then on.
-/

namespace BlueFringe

open Std

variable {α ω : Type} [Ord α] [TransOrd α]

theorem Answer.expected_of_agrees {answer : Answer} {expected : Bool}
    (agrees : answer.contradicts expected = false) :
    (answer = .accept → expected = true) ∧ (answer = .reject → expected = false) := by
  cases answer <;> cases expected <;> simp_all [contradicts]

namespace Inquiry

variable [Oracle ω α]

/-- The answers to questions in the order in which these are asked, up to one that is missing. -/
def replies (constraints : List (Graph α)) (i : Inquiry α ω) :
    List (Question α) → List (Question α × Answer)
  | [] => []
  | question :: rest =>
    match i.resolve constraints question.word with
    | (.error _, _) => []
    | (.ok answer, i) => (question, answer) :: i.replies constraints rest

theorem passes_eq_ok_true {constraints : List (Graph α)} {i : Inquiry α ω}
    {questions : List (Question α)} : (i.passes constraints questions).1 = .ok true ↔
      (i.replies constraints questions).map (·.1) = questions ∧
        ∀ reply ∈ i.replies constraints questions,
          reply.2.contradicts reply.1.expected = false := by
  induction questions generalizing i with
  | nil => simp [passes, replies]
  | cons question rest ih =>
      unfold passes replies
      cases i.resolve constraints question.word with
      | mk answered next =>
          cases answered with
          | error unanswered => simp
          | ok answer =>
              dsimp only
              cases against : answer.contradicts question.expected with
              | true => simp [against]
              | false => simp [against, ih]

end Inquiry

namespace Learner

theorem expected_of_questionsFor [LawfulEqOrd α] {l : Learner α ω} {c : Candidate}
    {merged : Graph α} {question : Question α} (listed : question ∈ l.questionsFor c merged) :
    (∃ q, merged.run question.word = some q) ∧
      question.expected = merged.accepts question.word := by
  unfold questionsFor at listed
  split at listed
  · cases listed
  · obtain ⟨introduced, expected⟩ := QuestionPlan.isIntroduced_of_mem listed
    rw [isIntroduced, Bool.and_eq_true] at introduced
    exact ⟨Option.isSome_iff_exists.mp introduced.2, expected⟩

/-- The search is about to choose a candidate, since no answer speaks against its merge. -/
structure Approves [Oracle ω α] (l : Learner α ω) (chosen : Candidate) (merged : Graph α) :
    Prop where
  selecting : ∃ others, l.phase = .select chosen others
  made : l.graph.merge chosen.pair chosen.identification = .ok merged
  passed : (l.inquiry.passes l.settings.constraints (l.questionsFor chosen merged)).1 = .ok true
  selected : l.step.1 = .ok (.selected chosen.pair)

section Moves

variable [Oracle ω α] {l l' : Learner α ω} {out : Except (LearnError α) Step}
  {chosen : Candidate} {merged : Graph α}

/-- A merge waits to be made only after a selection. -/
theorem Move.of_waiting (move : l.Move out l') (waiting : l'.phase = .merge chosen merged) :
    l'.history = l.history ∧ (∃ others, l.phase = .select chosen others) ∧
      l.graph.merge chosen.pair chosen.identification = .ok merged ∧
      (l.inquiry.passes l.settings.constraints (l.questionsFor chosen merged)).1 = .ok true ∧
      out = .ok (.selected chosen.pair) := by
  cases move with
  | choose phase made asked =>
      obtain ⟨rfl, rfl⟩ := Phase.merge.inj waiting
      exact ⟨rfl, ⟨_, phase⟩, made, by rw [asked], rfl⟩
  | @weigh scored choices phase weighs => cases choices <;> cases waiting
  | suspend phase =>
      rw [show ({ l with inquiry := _ } : Learner α ω).phase = l.phase from rfl, phase] at waiting
      cases waiting
  | rest phase =>
      rw [phase] at waiting
      cases waiting
  | begin | finish | hasten | exclude | commit | promote => cases waiting

theorem Move.of_merged {pair : StatePair} {s : Score} {states : Nat}
    (move : l.Move (.ok (.recorded (.merged pair s states))) l') :
    ∃ chosen merged, l.phase = .merge chosen merged ∧ chosen.pair = pair ∧ l'.graph = merged := by
  cases move with
  | commit phase => exact ⟨_, _, phase, rfl, rfl⟩

end Moves

variable {ω₀ : Type} {start : Learner α ω₀}

/-- The merge that waits to be made, if there is one, was approved with the same decisions made. -/
def Backed (start : Learner α ω₀) (l : Learner α ω) : Prop :=
  ∀ chosen merged, l.phase = .merge chosen merged →
    ∃ (ω' : Type) (_ : Oracle ω' α) (asking : Learner α ω'), start.Reached asking ∧
      asking.history = l.history ∧ asking.Approves chosen merged ∧ asking.step.2.Reached l

theorem Reached.backed [LawfulEqOrd α] {l : Learner α ω} (reached : start.Reached l)
    (coherent : start.Coherent) (phase : start.phase = .initial) : start.Backed l := by
  refine reached.induct (P := start.Backed) ?_ ?_ ?_
  · intro chosen merged waiting
    rw [phase] at waiting
    cases waiting
  · intro ω _ l reached _ chosen merged waiting
    obtain ⟨history, selecting, made, passed, selected⟩ :=
      (reached.coherent coherent).move.of_waiting waiting
    exact ⟨ω, inferInstance, l, reached, history.symm, ⟨selecting, made, passed, selected⟩, .start⟩
  · intro ω ω' l oracle reached backed chosen merged waiting
    obtain ⟨ω₁, asks, asking, first, history, approves, later⟩ := backed chosen merged waiting
    exact ⟨ω₁, asks, asking, first, history, approves, .withOracle oracle later⟩

end Learner

variable [LawfulEqOrd α] {ω₀ : Type}

/-- Before each merge of a search all questions about it were answered, and every hypothesis from
that merge on accepts the words that were accepted then and does not accept those that were
rejected. -/
theorem answers_never_contradicted (sample : Sample α) (settings : Settings α) (oracle : ω₀)
    (start : Learner α ω₀) (created : Learner.ofSample sample settings oracle = .ok start)
    (l : Learner α ω) (reached : start.Reached l) (i : Nat) (pair : StatePair) (s : Score)
    (states : Nat) (written : l.history[i]? = some (.merged pair s states)) :
    ∃ (ω₁ : Type) (_ : Oracle ω₁ α) (asking : Learner α ω₁) (ω₂ : Type) (_ : Oracle ω₂ α)
      (deciding : Learner α ω₂) (chosen : Candidate) (merged : Graph α),
      start.Reached asking ∧ asking.history = l.history.take i ∧ chosen.pair = pair ∧
        asking.Approves chosen merged ∧ asking.step.2.Reached deciding ∧
        deciding.step.1 = .ok (.recorded (.merged pair s states)) ∧
        deciding.step.2.graph = merged ∧ deciding.step.2.Reached l ∧
        let questions := asking.questionsFor chosen merged
        let replies := asking.inquiry.replies settings.constraints questions
        replies.map (·.1) = questions ∧
          ∀ reply ∈ replies, ∀ (ω' : Type) (later : Learner α ω'), deciding.step.2.Reached later →
            (reply.2 = .accept → later.graph.accepts reply.1.word = true) ∧
              (reply.2 = .reject → later.graph.accepts reply.1.word = false) := by
  obtain ⟨coherent, same, phase, fresh⟩ := Learner.coherent_of_ofSample created
  obtain ⟨ω₂, decides, deciding, before, _, history, recorded, after, _⟩ :=
    (reached.traced coherent fresh).2 i _ written
  have here := before.coherent coherent
  have move := here.move
  rw [recorded] at move
  obtain ⟨chosen, merged, waiting, paired, becomes⟩ := move.of_merged
  obtain ⟨ω₁, asks, asking, first, earlier, approves, goes_on⟩ :=
    before.backed coherent phase chosen merged waiting
  have own : asking.settings = settings := (first.traced coherent fresh).1.trans same
  refine ⟨ω₁, asks, asking, ω₂, decides, deciding, chosen, merged, first, earlier.trans history,
    paired, approves, goes_on, recorded, becomes, after, ?_⟩
  -- The answers agree with the merged graph, and later hypotheses classify its runs alike.
  obtain ⟨answered, agree⟩ := Inquiry.passes_eq_ok_true.mp approves.passed
  rw [own] at answered agree
  refine ⟨answered, fun reply listed ω' later continues => ?_⟩
  have asked : reply.1 ∈ asking.questionsFor chosen merged :=
    answered ▸ List.mem_map.mpr ⟨reply, listed, rfl⟩
  obtain ⟨⟨q, run⟩, expected⟩ := Learner.expected_of_questionsFor asked
  have grows := (continues.continues here.step.sound).advances.grows
  rw [becomes] at grows
  rw [grows.accepts_eq run, ← expected]
  exact Answer.expected_of_agrees (agree reply listed)

theorem contested_merge_approved : ∃ start : Learner Nat (Informant Nat),
    Learner.ofSample contested inquisitive (.reference ones 0) = .ok start ∧
      start.run.2.history[6]? = some (.merged ⟨⟨2⟩, ⟨3⟩⟩ (.compatible 0 0) 7) ∧
      ∃ (ω₁ : Type) (_ : Oracle ω₁ Nat) (asking : Learner Nat ω₁) (chosen : Candidate)
        (merged : Graph Nat), asking.history.length = 6 ∧ asking.Approves chosen merged ∧
        ∀ reply ∈ asking.inquiry.replies [] (asking.questionsFor chosen merged),
          (reply.2 = .accept → start.run.2.graph.accepts reply.1.word = true) ∧
            (reply.2 = .reject → start.run.2.graph.accepts reply.1.word = false) := by
  have facts : (Learner.ofSample contested inquisitive (.reference ones 0 : Informant Nat)).map
      (fun l => l.run.2.history[6]?) =
        .ok (some (.merged ⟨⟨2⟩, ⟨3⟩⟩ (.compatible 0 0) 7)) := by
    decide +kernel
  obtain ⟨start, created, written⟩ := Learner.exists_of_map_eq_ok facts
  obtain ⟨ω₁, asks, asking, _, _, _, chosen, merged, _, history, _, approves, _, _, _, goes_on, _,
    agree⟩ := answers_never_contradicted contested inquisitive (.reference ones 0 : Informant Nat)
      start created start.run.2 (.run _ .start) 6 _ _ _ written
  have length : asking.history.length = 6 := by
    obtain ⟨long, _⟩ := List.getElem?_eq_some_iff.mp written
    rw [history, List.length_take]
    omega
  exact ⟨start, created, written, ω₁, asks, asking, chosen, merged, length, approves,
    fun reply listed => agree reply listed _ _ goes_on⟩

end BlueFringe
