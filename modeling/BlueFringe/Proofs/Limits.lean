import BlueFringe.Proofs.Accounting

/-!
# What the limit cuts off

A limit on merges and promotions does not change what a search does, only how far a run follows it.
The limit is looked at before every step, the last one included, in which a search just notices that
it is over. So a run needs a limit above the number of its merges and promotions, and with any lower
one it stops right after the decision that uses the limit up.
-/

namespace BlueFringe

open Std

variable {α ω : Type} [Ord α] [TransOrd α]

namespace Record

/-- Whether the decision is one that the limit counts. -/
def counts (r : Record) : Bool := r.isMerged || r.isPromoted

/-- Decisions up to the one with which so many are counted. -/
def cutAfter : Nat → List Record → List Record
  | 0, _ => []
  | _ + 1, [] => []
  | m + 1, r :: rest => r :: cutAfter (if r.counts then m else m + 1) rest

theorem cutAfter_append {earlier rest : List Record} {r : Record} (counted : r.counts = true) :
    cutAfter (earlier.countP counts + 1) (earlier ++ r :: rest) = earlier ++ [r] := by
  induction earlier with
  | nil => simp [cutAfter, counted]
  | cons e earlier ih => cases here : e.counts <;> simp [cutAfter, here, ih]

end Record

namespace Learner

/-- The same search with another limit. -/
def limited (l : Learner α ω) (m : Nat) : Learner α ω :=
  { l with settings := { l.settings with maxIterations := m } }

variable {l l' : Learner α ω} {m : Nat}

/-! ### Steps do not look at the limit -/

theorem explored_limited (scored : List Candidate) :
    (l.limited m).explored scored = ((l.explored scored).1, (l.explored scored).2.limited m) := by
  unfold explored
  dsimp only [limited]
  split
  · rfl
  · split <;> rfl

theorem explore_limited : (l.limited m).explore = (l.explore.1, l.explore.2.limited m) := by
  unfold explore
  dsimp only [limited]
  split
  · rfl
  · split
    · rfl
    · rename_i scored _
      have same := explored_limited (l := { l with graph := l.graph.recolour }) (m := m) scored
      exact congrArg (fun made => (Except.ok made.1, made.2)) same

variable [Oracle ω α]

theorem select_limited (best : Candidate) :
    (l.limited m).select best = ((l.select best).1, (l.select best).2.limited m) := by
  have merge : (l.limited m).graph.merge = l.graph.merge := rfl
  have asked : ∀ merged, (l.limited m).inquiry.passes (l.limited m).settings.constraints
      ((l.limited m).questionsFor best merged) =
        l.inquiry.passes l.settings.constraints (l.questionsFor best merged) := fun _ => rfl
  unfold select
  rw [merge]
  cases l.graph.merge best.pair best.identification with
  | error violation => rfl
  | ok merged =>
      dsimp only
      rw [asked]
      cases l.inquiry.passes l.settings.constraints (l.questionsFor best merged) with
      | mk passed inquiry =>
          cases passed with
          | error unanswered => rfl
          | ok accepted => cases accepted <;> rfl

theorem step_limited : (l.limited m).step = (l.step.1, l.step.2.limited m) := by
  have phase : (l.limited m).phase = l.phase := rfl
  unfold step
  rw [phase]
  cases l.phase with
  | explore => exact explore_limited
  | select best others => exact select_limited best
  | promote =>
      have front : (l.limited m).graph.frontier = l.graph.frontier := rfl
      dsimp only
      rw [front]
      split
      · exact explore_limited
      · rfl
  | initial | merge | done => rfl

theorem after_limited (k : Nat) : (l.limited m).after k = (l.after k).limited m := by
  induction k with
  | zero => rfl
  | succ k ih => rw [after_succ, after_succ, ih, step_limited]

omit [TransOrd α] [Oracle ω α] in
theorem stopBefore_limited : (l.limited m).stopBefore (fun _ => false) =
    if m ≤ l.iterations then some (.iterationLimit l.iterations) else none := rfl

omit [Oracle ω α] in
theorem ofSample_limited {sample : Sample α} {settings : Settings α} {oracle : ω}
    (created : ofSample sample settings oracle = .ok l) (m : Nat) :
    ofSample sample { settings with maxIterations := m } oracle = .ok (l.limited m) := by
  unfold ofSample at created ⊢
  dsimp only
  split at created
  · cases created
  · cases created
    rfl

/-! ### What the moves count -/

variable {out : Except (LearnError α) Step}

/-- A move writes down at most one decision and counts it if it is a merge or a promotion. -/
theorem Move.decides (move : l.Move out l') :
    (l'.history = l.history ∧ l'.iterations = l.iterations) ∨
      ∃ r, l'.history = l.history ++ [r] ∧
        l'.iterations = l.iterations + [r].countP Record.counts := by
  cases move with
  | hasten => exact .inr ⟨_, rfl, rfl⟩
  | exclude => exact .inr ⟨_, rfl, rfl⟩
  | commit => exact .inr ⟨_, rfl, rfl⟩
  | promote => exact .inr ⟨_, rfl, rfl⟩
  | begin | finish | weigh | suspend | choose | rest => exact .inl ⟨rfl, rfl⟩

/-- A decision is never the last step. -/
theorem Move.iterations_of_done (move : l.Move out l') (ended : l'.phase = .done) :
    l'.iterations = l.iterations := by
  cases move with
  | hasten | commit | promote => cases ended
  | begin | finish | weigh | suspend | choose | exclude | rest => rfl

variable [LawfulEqOrd α]

theorem Coherent.counted_after (coherent : l.Coherent)
    (counted : l.iterations = l.history.countP Record.counts) (k : Nat) :
    (l.after k).iterations = (l.after k).history.countP Record.counts := by
  induction k with
  | zero => exact counted
  | succ k ih =>
      rw [after_succ]
      rcases (coherent.after k).move.decides with ⟨history, iterations⟩ | ⟨r, history, iterations⟩
      · rw [history, iterations, ih]
      · rw [history, iterations, ih, List.countP_append]

theorem Coherent.history_prefix_after (coherent : l.Coherent) {j k : Nat} (le : j ≤ k) :
    (l.after j).history <+: (l.after k).history := by
  induction le with
  | refl => exact List.prefix_rfl
  | @step k _ ih =>
      rw [after_succ]
      rcases (coherent.after k).move.decides with ⟨history, _⟩ | ⟨r, history, _⟩
      · rw [history]
        exact ih
      · rw [history]
        exact ih.trans (List.prefix_append _ [r])

/-! ### Where a limit is used up -/

omit [LawfulEqOrd α] in
/-- After so many steps, and not before, so many merges and promotions have been made. -/
structure Uses (l : Learner α ω) (m j : Nat) : Prop where
  early : ∀ i < j, (l.after i).iterations < m
  full : (l.after j).iterations = m

theorem Coherent.exists_uses (coherent : l.Coherent) {k : Nat} (none_yet : l.iterations = 0)
    (enough : m ≤ (l.after k).iterations) : ∃ j ≤ k, l.Uses m j := by
  have found : ∃ j, m ≤ (l.after j).iterations := ⟨k, enough⟩
  refine ⟨Nat.find found, Nat.find_le enough, ?_⟩
  have early : ∀ i < Nat.find found, (l.after i).iterations < m :=
    fun i before => Nat.lt_of_not_le (Nat.find_min found before)
  have reached := Nat.find_spec found
  generalize Nat.find found = j at early reached
  refine ⟨early, Nat.le_antisymm ?_ reached⟩
  -- No step makes more than one of them, so the limit is not skipped.
  cases j with
  | zero => exact none_yet.le.trans (Nat.zero_le m)
  | succ i =>
      have before := early i i.lt_succ_self
      rw [after_succ]
      rcases (coherent.after i).move.decides with ⟨_, iterations⟩ | ⟨r, _, iterations⟩
      · omega
      · have one : [r].countP Record.counts ≤ 1 := List.countP_le_length
        omega

/-- A limit is used up by a merge or a promotion, and the decisions are cut right after it. -/
theorem Uses.history_eq {j k : Nat} (uses : l.Uses m j) (coherent : l.Coherent)
    (counted : l.iterations = l.history.countP Record.counts) (fresh : l.history = [])
    (le : j ≤ k) : (l.after j).history = Record.cutAfter m (l.after k).history := by
  have full := uses.full
  obtain ⟨rest, whole⟩ := coherent.history_prefix_after le
  cases j with
  | zero =>
      rw [after_zero, counted, fresh] at full
      rw [after_zero, fresh, ← full, List.countP_nil, Record.cutAfter]
  | succ i =>
      have before := uses.early i i.lt_succ_self
      rw [after_succ] at full whole ⊢
      rcases (coherent.after i).move.decides with ⟨_, iterations⟩ | ⟨r, history, iterations⟩
      · omega
      · have counts : r.counts = true := by
          rw [List.countP_singleton] at iterations
          by_contra idle
          rw [if_neg idle] at iterations
          omega
        have used : m = (l.after i).history.countP Record.counts + 1 := by
          rw [List.countP_singleton, if_pos counts] at iterations
          rw [← coherent.counted_after counted i]
          omega
        rw [← whole, history, List.append_assoc, List.singleton_append, used,
          Record.cutAfter_append counts]

/-! ### Limited runs -/

variable {k : Nat}

theorem run_limited_of_lt (few : k ≤ l.stepBound) (coherent : l.Coherent)
    (ended : (l.after k).phase.isDone = true)
    (way : ∀ j < k, (l.after j).phase.isDone = false ∧ ∃ s, (l.after j).step.1 = .ok s)
    (unbound : (l.after k).iterations < m) :
    (l.limited m).run = (.ok (), (l.after k).limited m) := by
  rw [← after_limited]
  refine advance_eq_after few (by rwa [after_limited]) fun j hj => ?_
  have before := coherent.iterations_le_after hj.le
  rw [after_limited, stopBefore_limited, if_neg (by omega), step_limited]
  exact ⟨(way j hj).1, rfl, (way j hj).2⟩

omit [LawfulEqOrd α] in
/-- A limit that is used up stops a run there, even if all that is left is to notice the end. -/
theorem Uses.run_limited {j : Nat} (uses : l.Uses m j) (enough : j < l.stepBound)
    (way : ∀ i ≤ j, (l.after i).phase.isDone = false ∧ ∃ s, (l.after i).step.1 = .ok s) :
    (l.limited m).run = (.error (.iterationLimit m), (l.after j).limited m) := by
  obtain ⟨rest, room⟩ := Nat.exists_eq_add_of_lt enough
  have bound : (l.limited m).stepBound = j + (rest + 1) := room
  have follows : (l.limited m).advance (fun _ => false) (j + (rest + 1)) =
      ((l.limited m).after j).advance (fun _ => false) (rest + 1) := by
    refine advance_add fun i hi => ?_
    have before := uses.early i hi
    rw [after_limited, stopBefore_limited, if_neg (by omega), step_limited]
    exact ⟨(way i hi.le).1, rfl, (way i hi.le).2⟩
  have going : ((l.after j).limited m).phase.isDone = false := (way j le_rfl).1
  have stopped : ((l.after j).limited m).stopBefore (fun _ => false) =
      some (.iterationLimit m) := by
    rw [stopBefore_limited, uses.full, if_pos le_rfl]
  rw [run, runUnless, bound, follows, after_limited, advance, if_neg (Bool.eq_false_iff.mp going),
    stopped]

theorem Uses.lt_of_done {j : Nat} (uses : l.Uses m j) (coherent : l.Coherent) (le : j ≤ k)
    (ended : (l.after k).phase = .done) (begun : l.phase = .initial) : j < k := by
  refine Nat.lt_of_le_of_ne le fun same => ?_
  rw [← same] at ended
  cases j with
  | zero =>
      rw [after_zero, begun] at ended
      cases ended
  | succ i =>
      have before := uses.early i i.lt_succ_self
      have full := uses.full
      -- The last step decides nothing, so the limit would have been used up before it.
      rw [after_succ] at ended full
      rw [(coherent.after i).move.iterations_of_done ended] at full
      omega

end Learner

variable [LawfulEqOrd α] [Oracle ω α]

/-- With an oracle that always answers, the search comes to an end after some number of merges and
promotions. With a limit above this number a run comes to this end. With any other limit it fails
and leaves the search as it was right after the decision that used the limit up, and that is so even
if no decision is left to be made. -/
theorem limit_cuts_off (sample : Sample α) (settings : Settings α) (oracle : ω)
    (start : Learner α ω) (created : Learner.ofSample sample settings oracle = .ok start)
    (answers : Oracle.Answers α oracle) :
    ∃ (k : Nat) (final : Learner α ω), start.after k = final ∧ final.phase = .done ∧
      (∀ j < k, ∃ s, (start.after j).step.1 = .ok s) ∧
      final.iterations = final.history.countP Record.counts ∧
      ∀ m, ∃ limited : Learner α ω,
        Learner.ofSample sample { settings with maxIterations := m } oracle = .ok limited ∧
        (final.iterations < m → limited.run.1 = .ok () ∧ limited.run.2.graph = final.graph ∧
          limited.run.2.history = final.history) ∧
        (m ≤ final.iterations → limited.run.1 = .error (.iterationLimit m) ∧
          limited.run.2.history = Record.cutAfter m final.history ∧
          ∃ j < k, start.Uses m j ∧ (start.after j).history = Record.cutAfter m final.history ∧
            limited.run.2.graph = (start.after j).graph) := by
  obtain ⟨coherent, _, phase, fresh⟩ := Learner.coherent_of_ofSample created
  obtain ⟨inquiry, none_yet⟩ := Learner.inquiry_of_ofSample created
  have answered : Oracle.Answers α start.inquiry.oracle := by
    rw [inquiry]
    exact answers
  obtain ⟨k, few, done, way⟩ := coherent.exists_done answered
  have ended : (start.after k).phase = .done := Phase.eq_done done
  have enough : k ≤ start.stepBound := few.trans coherent.sound.potential_le
  have counted : start.iterations = start.history.countP Record.counts := by
    rw [none_yet, fresh, List.countP_nil]
  refine ⟨k, start.after k, rfl, ended, fun j hj => (way j hj).2,
    coherent.counted_after counted k, fun m => ?_⟩
  refine ⟨start.limited m, Learner.ofSample_limited created m, fun unbound => ?_, fun bound => ?_⟩
  · rw [Learner.run_limited_of_lt enough coherent done way unbound]
    exact ⟨rfl, rfl, rfl⟩
  · obtain ⟨j, le, uses⟩ := coherent.exists_uses none_yet bound
    have before := uses.lt_of_done coherent le ended phase
    have cut := uses.history_eq coherent counted fresh le
    rw [uses.run_limited (before.trans_le enough) fun i hi => way i (hi.trans_lt before)]
    exact ⟨rfl, cut, j, before, uses, cut, rfl⟩

theorem contested_cut_off : ∃ start limited final : Learner Nat (Informant Nat),
    Learner.ofSample contested inquisitive (.scripted [⟨.answer .reject, false⟩] false .silent) =
        .ok start ∧
      Learner.ofSample contested { inquisitive with maxIterations := 3 }
        (.scripted [⟨.answer .reject, false⟩] false .silent) = .ok limited ∧
      (∃ k, start.after k = final) ∧ final.phase = .done ∧
      limited.run.1 = .error (.iterationLimit 3) ∧
      limited.run.2.history = Record.cutAfter 3 final.history := by
  let informant : Informant Nat := .scripted [⟨.answer .reject, false⟩] false .silent
  have facts : (Learner.ofSample contested inquisitive informant).map (·.graph.size) = .ok 8 := by
    decide +kernel
  have facts' : (Learner.ofSample contested { inquisitive with maxIterations := 3 }
      informant).map (·.run.1) = .ok (.error (.iterationLimit 3)) := by
    decide +kernel
  obtain ⟨start, created, _⟩ := Learner.exists_of_map_eq_ok facts
  have reliable : informant.isReliable = true := rfl
  obtain ⟨k, final, same, ended, _, _, cut⟩ := limit_cuts_off contested inquisitive informant start
    created (Informant.answers_of_isReliable reliable)
  obtain ⟨limited, created', enough, exceeded⟩ := cut 3
  rw [created'] at facts'
  have stopped : limited.run.1 = .error (.iterationLimit 3) := Except.ok.inj facts'
  have bound : 3 ≤ final.iterations := by
    by_contra few
    rw [(enough (Nat.lt_of_not_le few)).1] at stopped
    cases stopped
  exact ⟨start, limited, final, created, created', ⟨k, same⟩, ended, stopped, (exceeded bound).2.1⟩

/-- A search that is over after one merge fails with a limit of one, although the merge is made and
nothing is left to decide. -/
theorem exact_limit_fails : ∃ start limited : Learner Nat (Informant Nat),
    Learner.ofSample ⟨[.accepted [1]]⟩ {} .silent = .ok start ∧ start.run.1 = .ok () ∧
      start.run.2.iterations = 1 ∧
      Learner.ofSample ⟨[.accepted [1]]⟩ { maxIterations := 1 } .silent = .ok limited ∧
      limited.run.1 = .error (.iterationLimit 1) ∧
      limited.run.2.graph = start.run.2.graph := by
  let sample : Sample Nat := ⟨[.accepted [1]]⟩
  let informant : Informant Nat := .silent
  have ends : (Learner.ofSample sample {} informant).map (fun l => (l.run.1, l.run.2.iterations)) =
      .ok (.ok (), 1) := by
    decide +kernel
  have stops : (Learner.ofSample sample { maxIterations := 1 } informant).map (·.run.1) =
      .ok (.error (.iterationLimit 1)) := by
    decide +kernel
  have same : (Learner.ofSample sample { maxIterations := 1 } informant).map (·.run.2.graph) =
      (Learner.ofSample sample {} informant).map (·.run.2.graph) := by
    decide +kernel
  obtain ⟨start, created, finished⟩ := Learner.exists_of_map_eq_ok ends
  obtain ⟨limited, created', stopped⟩ := Learner.exists_of_map_eq_ok stops
  rw [created, created'] at same
  obtain ⟨fine, counted⟩ := Prod.mk.inj finished
  exact ⟨start, limited, created, fine, counted, created', stopped, Except.ok.inj same⟩

end BlueFringe
