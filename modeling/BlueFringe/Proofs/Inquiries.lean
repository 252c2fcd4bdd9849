import BlueFringe.Inquiry
import Mathlib.Data.List.Nodup

/-!
# Oracles and what is remembered of them

An oracle may be out of reach now and then, but what it says of a word may still be settled. Then
the answers that an inquiry remembers are settled too, and whether it passes its questions does not
depend on when the oracle could be reached. A transcript of the oracle shows that no word was
answered twice.
-/

namespace BlueFringe

open Std

variable {α ω : Type}

namespace Oracle

/-- The state of an oracle after it was asked some words. -/
def after [Oracle ω α] (s : ω) (asked : List (Word α)) : ω :=
  asked.foldl (fun s w => (ask s w).2) s

/-- The oracle answers every word, whatever it was asked before. -/
def Answers (α : Type) [Oracle ω α] (s : ω) : Prop :=
  ∀ (asked : List (Word α)) (w : Word α), (ask (after s asked) w).1.isSome = true

/-- Whatever the oracle was asked before, it answers by `f` if it answers at all. -/
def Follows [Oracle ω α] (f : Word α → Answer) (s : ω) : Prop :=
  ∀ (asked : List (Word α)) (w : Word α) (answer : Answer),
    (ask (after s asked) w).1 = some answer → answer = f w

variable [Oracle ω α] {s : ω} {f : Word α → Answer}

theorem Answers.ask (answers : Answers α s) (w : Word α) :
    (∃ answer, (ask s w).1 = some answer) ∧ Answers α (ask s w).2 :=
  ⟨Option.isSome_iff_exists.mp (answers [] w), fun asked => answers (w :: asked)⟩

theorem Follows.ask (follows : Follows f s) (w : Word α) :
    (∀ answer, (ask s w).1 = some answer → answer = f w) ∧ Follows f (ask s w).2 :=
  ⟨follows [] w, fun asked => follows (w :: asked)⟩

end Oracle

/-- An oracle along with the words that it was asked and its answers. -/
structure Transcript (ω α : Type) where
  oracle : ω
  log : List (Word α × Option Answer)

namespace Transcript

/-- The words that the oracle answered, as often as it did. -/
def answered (t : Transcript ω α) : List (Word α) :=
  t.log.filterMap fun entry => entry.2.map fun _ => entry.1

variable [Oracle ω α]

instance : Oracle (Transcript ω α) α where
  ask t w := ((Oracle.ask t.oracle w).1, ⟨(Oracle.ask t.oracle w).2,
    t.log ++ [(w, (Oracle.ask t.oracle w).1)]⟩)

theorem answered_ask {t : Transcript ω α} {w : Word α} : (Oracle.ask t w).2.answered =
    t.answered ++ ((Oracle.ask t w).1.map fun _ => w).toList := by
  have logged : (Oracle.ask t w).2.log = t.log ++ [(w, (Oracle.ask t w).1)] := rfl
  rw [answered, logged, List.filterMap_append, ← answered]
  cases (Oracle.ask t w).1 <;> rfl

theorem follows {f : Word α → Answer} {oracle : ω} (follows : Oracle.Follows f oracle)
    (log : List (Word α × Option Answer)) :
    Oracle.Follows f (⟨oracle, log⟩ : Transcript ω α) := by
  intro asked w answer given
  induction asked generalizing oracle log with
  | nil => exact follows [] w answer given
  | cons v asked ih => exact ih (follows.ask v).2 _ given

end Transcript

variable [Ord α] [TransOrd α]

namespace Informant

/-- Whether no entry of a script leaves a question without an answer. -/
def isReliable : Informant α → Bool
  | silent | reference _ _ => true
  | scripted cues _ rest => (cues.all fun cue => cue.reply ≠ .unavailable) && rest.isReliable

theorem isReliable_ask {i : Informant α} (reliable : i.isReliable = true) (w : Word α) :
    (i.ask w).1.isSome = true ∧ (i.ask w).2.isReliable = true := by
  induction i with
  | silent | reference => exact ⟨rfl, rfl⟩
  | scripted cues cancelled rest ih =>
      rw [isReliable, Bool.and_eq_true] at reliable
      have later := ih reliable.2
      cases cues with
      | nil => exact ⟨later.1, later.2⟩
      | cons cue cues =>
          rw [List.all_cons, Bool.and_eq_true, decide_eq_true_eq] at reliable
          obtain ⟨⟨here, cued⟩, handed⟩ := reliable
          cases reply : cue.reply with
          | unavailable => exact absurd reply here
          | answer =>
              simp only [ask, reply, isReliable, cued, handed]
              exact ⟨rfl, rfl⟩
          | handOn =>
              simp only [ask, reply, isReliable, cued, later.2]
              exact ⟨later.1, rfl⟩

theorem answers_of_isReliable {i : Informant α} (reliable : i.isReliable = true) :
    Oracle.Answers α i := by
  intro asked w
  induction asked generalizing i with
  | nil => exact (isReliable_ask reliable w).1
  | cons v asked ih => exact ih (isReliable_ask reliable v).2

/-- Whether a graph is all that answers: the entries of a script fail or hand the question on. -/
def DefersTo (g : Graph α) : Informant α → Prop
  | silent => False
  | reference graph _ => graph = g
  | scripted cues _ rest =>
    (∀ cue ∈ cues, cue.reply = .unavailable ∨ cue.reply = .handOn) ∧ rest.DefersTo g

theorem DefersTo.ask {g : Graph α} {i : Informant α} (defers : i.DefersTo g) (w : Word α) :
    (∀ answer, (i.ask w).1 = some answer → answer = .ofBool (g.accepts w)) ∧
      (i.ask w).2.DefersTo g := by
  induction i with
  | silent => exact defers.elim
  | reference graph asked =>
      subst defers
      exact ⟨fun answer given => (Option.some.inj given).symm, rfl⟩
  | scripted cues cancelled rest ih =>
      obtain ⟨passive, handed⟩ := defers
      obtain ⟨settled, later⟩ := ih handed
      cases cues with
      | nil => exact ⟨settled, passive, later⟩
      | cons cue cues =>
          obtain ⟨here, cued⟩ := List.forall_mem_cons.mp passive
          rcases here with reply | reply
          · simp only [Informant.ask, reply]
            exact ⟨by simp, cued, handed⟩
          · simp only [Informant.ask, reply]
            exact ⟨settled, cued, later⟩

theorem DefersTo.follows {g : Graph α} {i : Informant α} (defers : i.DefersTo g) :
    Oracle.Follows (fun w => .ofBool (g.accepts w)) i := by
  intro asked w answer given
  induction asked generalizing i with
  | nil => exact (defers.ask w).1 answer given
  | cons v asked ih => exact ih (defers.ask v).2 given

end Informant

namespace Inquiry

variable [Oracle ω α]

/-! ### One word -/

/-- The ways in which an inquiry may deal with a word, with the answer and the next inquiry. -/
inductive Resolution (constraints : List (Graph α)) (i : Inquiry α ω) (w : Word α) :
    Except (Unanswered α) Answer → Inquiry α ω → Prop where
  | known {answer : Answer} : i.answers[w]? = some answer →
    Resolution constraints i w (.ok answer) i
  | barred : i.answers[w]? = none → (constraints.any fun c => !c.accepts w) = true →
    Resolution constraints i w (.ok .reject) (i.remember w .reject)
  | answered {answer : Answer} : i.answers[w]? = none →
    (constraints.any fun c => !c.accepts w) = false →
    (Oracle.ask i.oracle w).1 = some answer →
    Resolution constraints i w (.ok answer)
      (Inquiry.remember { i with oracle := (Oracle.ask i.oracle w).2 } w answer)
  | missed : i.answers[w]? = none → (constraints.any fun c => !c.accepts w) = false →
    (Oracle.ask i.oracle w).1 = none →
    Resolution constraints i w (.error ⟨w⟩) { i with oracle := (Oracle.ask i.oracle w).2 }

variable {constraints : List (Graph α)} {i i' : Inquiry α ω} {w : Word α}
  {r : Except (Unanswered α) Answer}

theorem resolution (constraints : List (Graph α)) (i : Inquiry α ω) (w : Word α) :
    Resolution constraints i w (i.resolve constraints w).1 (i.resolve constraints w).2 := by
  unfold resolve
  split
  · exact .known ‹_›
  · split
    · exact .barred ‹_› ‹_›
    · rename_i unknown free
      have allowed := Bool.eq_false_iff.mpr free
      split
      · rename_i answer oracle asked
        have answered := Resolution.answered (i := i) unknown allowed (congrArg Prod.fst asked)
        rwa [asked] at answered
      · rename_i oracle asked
        have missed := Resolution.missed (i := i) unknown allowed (congrArg Prod.fst asked)
        rwa [asked] at missed

/-- What every word keeps is true after all questions. -/
theorem passes_induct {P : Inquiry α ω → Prop}
    (keep : ∀ i w, P i → P (i.resolve constraints w).2) (holds : P i)
    (questions : List (Question α)) : P (i.passes constraints questions).2 := by
  induction questions generalizing i with
  | nil => exact holds
  | cons question rest ih =>
      have next := keep i question.word holds
      unfold passes
      split
      · rename_i resolved
        rwa [resolved] at next
      · rename_i resolved
        rw [resolved] at next
        split
        · exact next
        · exact ih next

/-! ### Oracles that always answer -/

theorem Resolution.answers (resolution : Resolution constraints i w r i')
    (answers : Oracle.Answers α i.oracle) :
    (∃ answer, r = .ok answer) ∧ Oracle.Answers α i'.oracle := by
  obtain ⟨⟨answer, given⟩, later⟩ := answers.ask w
  cases resolution with
  | known | barred => exact ⟨⟨_, rfl⟩, answers⟩
  | answered => exact ⟨⟨_, rfl⟩, later⟩
  | missed _ _ failed =>
      rw [given] at failed
      cases failed

theorem exists_passes (constraints : List (Graph α)) (answers : Oracle.Answers α i.oracle)
    (questions : List (Question α)) :
    (∃ passed, (i.passes constraints questions).1 = .ok passed) ∧
      Oracle.Answers α (i.passes constraints questions).2.oracle := by
  induction questions generalizing i with
  | nil => exact ⟨⟨true, rfl⟩, answers⟩
  | cons question rest ih =>
      obtain ⟨⟨answer, fine⟩, later⟩ := (resolution constraints i question.word).answers answers
      unfold passes
      split
      · rename_i resolved
        rw [resolved] at fine
        cases fine
      · rename_i resolved
        rw [resolved] at later
        split
        · exact ⟨⟨false, rfl⟩, later⟩
        · exact ih later

/-! ### Settled answers -/

/-- What is to be said of a word: a word that a constraint bars is rejected, all others are up to
`f`. -/
def verdict (f : Word α → Answer) (constraints : List (Graph α)) (w : Word α) : Answer :=
  if constraints.any fun c => !c.accepts w then .reject else f w

/-- Whether no question is answered against expectation when all answers are known. -/
def unopposed (f : Word α → Answer) (constraints : List (Graph α))
    (questions : List (Question α)) : Bool :=
  questions.all fun question =>
    !(verdict f constraints question.word).contradicts question.expected

/-- The oracle answers by `f` if at all, and what is remembered is what is to be said. -/
structure Faithful (f : Word α → Answer) (constraints : List (Graph α)) (i : Inquiry α ω) :
    Prop where
  follows : Oracle.Follows f i.oracle
  recalls : ∀ w answer, i.answers[w]? = some answer → answer = verdict f constraints w

variable {f : Word α → Answer} [LawfulEqOrd α]

omit [LawfulEqOrd α] in
theorem Faithful.start {oracle : ω} (follows : Oracle.Follows f oracle) :
    ({ oracle } : Inquiry α ω).Faithful f constraints :=
  ⟨follows, fun w answer found => by simp at found⟩

theorem Faithful.remember {oracle : ω} {answer : Answer} (faithful : i.Faithful f constraints)
    (follows : Oracle.Follows f oracle) (settled : answer = verdict f constraints w) :
    (Inquiry.remember { i with oracle } w answer).Faithful f constraints := by
  refine ⟨follows, fun v answer' found => ?_⟩
  simp only [Inquiry.remember, ExtTreeMap.getElem?_insert] at found
  split at found
  · rename_i same
    rw [← LawfulEqCmp.eq_of_compare same, ← settled]
    exact (Option.some.inj found).symm
  · exact faithful.recalls v answer' found

theorem Resolution.faithful (resolution : Resolution constraints i w r i')
    (faithful : i.Faithful f constraints) :
    i'.Faithful f constraints ∧ (r = .error ⟨w⟩ ∨ r = .ok (verdict f constraints w)) := by
  obtain ⟨settled, later⟩ := faithful.follows.ask w
  cases resolution with
  | known found => exact ⟨faithful, .inr (congrArg _ (faithful.recalls w _ found))⟩
  | barred _ bars =>
      have rejected : Answer.reject = verdict f constraints w := by rw [verdict, if_pos bars]
      exact ⟨faithful.remember faithful.follows rejected, .inr (congrArg _ rejected)⟩
  | @answered answer _ allowed given =>
      have agreed : answer = verdict f constraints w := by
        rw [verdict, allowed]
        exact settled answer given
      exact ⟨faithful.remember later agreed, .inr (congrArg _ agreed)⟩
  | missed => exact ⟨⟨later, faithful.recalls⟩, .inl rfl⟩

/-- Whether the questions are passed is settled, if the oracle can be reached. -/
theorem Faithful.passes (faithful : i.Faithful f constraints) (questions : List (Question α)) :
    (i.passes constraints questions).2.Faithful f constraints ∧
      ((∃ unanswered, (i.passes constraints questions).1 = .error unanswered) ∨
        (i.passes constraints questions).1 = .ok (unopposed f constraints questions)) := by
  induction questions generalizing i with
  | nil => exact ⟨faithful, .inr rfl⟩
  | cons question rest ih =>
      obtain ⟨later, settled⟩ := (resolution constraints i question.word).faithful faithful
      unfold Inquiry.passes
      split
      · rename_i resolved
        rw [resolved] at later
        exact ⟨later, .inl ⟨_, rfl⟩⟩
      · rename_i answer i' resolved
        rw [resolved] at later settled
        have same : answer = verdict f constraints question.word := by
          simpa using settled
        rw [unopposed, List.all_cons, ← same, ← unopposed]
        split
        · rename_i against
          exact ⟨later, .inr (by rw [against]; rfl)⟩
        · rename_i for_it
          rw [Bool.eq_false_iff.mpr for_it]
          exact ih later

/-! ### What the oracle was asked -/

/-- No word was answered twice, and none was asked that a constraint bars. -/
structure Logged (constraints : List (Graph α)) (i : Inquiry α (Transcript ω α)) : Prop where
  once : i.oracle.answered.Nodup
  known : ∀ w ∈ i.oracle.answered, w ∈ i.answers
  allowed : ∀ entry ∈ i.oracle.log, ∀ c ∈ constraints, c.accepts entry.1 = true

omit [LawfulEqOrd α] [Oracle ω α] in
theorem Logged.start {oracle : ω} :
    ({ oracle := ⟨oracle, []⟩ } : Inquiry α (Transcript ω α)).Logged constraints := by
  constructor <;> simp [Transcript.answered]

omit [LawfulEqOrd α] in
theorem Resolution.logged {i i' : Inquiry α (Transcript ω α)}
    (resolution : Resolution constraints i w r i') (logged : i.Logged constraints) :
    i'.Logged constraints := by
  have keep : ∀ answer, ∀ v ∈ i.answers, v ∈ (i.answers.insert w answer) :=
    fun answer v h => ExtTreeMap.mem_insert.mpr (.inr h)
  have asked : (constraints.any fun c => !c.accepts w) = false →
      ∀ entry ∈ (Oracle.ask i.oracle w).2.log, ∀ c ∈ constraints, c.accepts entry.1 = true := by
    intro free entry h c hc
    rcases List.mem_append.mp h with old | new
    · exact logged.allowed entry old c hc
    · rw [List.mem_singleton.mp new]
      simpa using List.any_eq_false.mp free c hc
  cases resolution with
  | known => exact logged
  | barred => exact ⟨logged.once, fun v h => keep _ v (logged.known v h), logged.allowed⟩
  | answered unknown free given =>
      have listed : (Oracle.ask i.oracle w).2.answered = i.oracle.answered ++ [w] := by
        rw [Transcript.answered_ask, given]
        rfl
      -- Each answer is remembered, and a word with a remembered answer is not asked.
      have fresh : w ∉ i.oracle.answered := by
        intro h
        have known := logged.known w h
        rw [ExtTreeMap.mem_iff_isSome_getElem?, unknown] at known
        cases known
      refine ⟨?_, fun v h => ?_, asked free⟩
      · show (Oracle.ask i.oracle w).2.answered.Nodup
        rw [listed, ← List.concat_eq_append, List.nodup_concat]
        exact ⟨fresh, logged.once⟩
      · have h : v ∈ (Oracle.ask i.oracle w).2.answered := h
        rw [listed, List.mem_append, List.mem_singleton] at h
        rcases h with old | rfl
        · exact keep _ v (logged.known v old)
        · exact ExtTreeMap.mem_insert_self
  | missed _ free failed =>
      have listed : (Oracle.ask i.oracle w).2.answered = i.oracle.answered := by
        rw [Transcript.answered_ask, failed]
        exact List.append_nil _
      refine ⟨?_, fun v h => ?_, asked free⟩
      · show (Oracle.ask i.oracle w).2.answered.Nodup
        rw [listed]
        exact logged.once
      · have h : v ∈ (Oracle.ask i.oracle w).2.answered := h
        rw [listed] at h
        exact logged.known v h

end Inquiry

end BlueFringe
