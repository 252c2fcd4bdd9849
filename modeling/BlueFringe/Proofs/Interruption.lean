import BlueFringe.Proofs.Termination

/-!
# Interruptions leave no trace

A search that is called off or has to wait for its oracle goes on where it stopped. Its steps are
those of a search that was never interrupted, with the selection repeated for which an answer was
missing; all that differs is what is known of the oracle.
-/

namespace BlueFringe

open Std

variable {α ω ω' : Type} [Ord α] [TransOrd α]

namespace Learner

/-- The same search with another knowledge of another oracle. -/
def carrying (l : Learner α ω) (i : Inquiry α ω') : Learner α ω' := { l with inquiry := i }

variable {l : Learner α ω} {i : Inquiry α ω'}

/-! ### Steps that ask nothing -/

theorem explored_carrying (scored : List Candidate) : (l.carrying i).explored scored =
    ((l.explored scored).1, (l.explored scored).2.carrying i) := by
  unfold explored
  dsimp only [carrying]
  split
  · rfl
  · split <;> rfl

theorem explore_carrying :
    (l.carrying i).explore = (l.explore.1, l.explore.2.carrying i) := by
  unfold explore
  dsimp only [carrying]
  split
  · rfl
  · split
    · rfl
    · rename_i scored _
      have same := explored_carrying (l := l.recoloured) (i := i) scored
      exact congrArg (fun made => (Except.ok made.1, made.2)) same

variable [Oracle ω α] [Oracle ω' α]

/-- Two inquiries come to the same answer to all questions, unless the first one misses answers. -/
def Agree (constraints : List (Graph α)) (i : Inquiry α ω') (i₀ : Inquiry α ω) : Prop :=
  ∀ questions, (∃ unanswered, (i.passes constraints questions).1 = .error unanswered) ∨
    (i.passes constraints questions).1 = (i₀.passes constraints questions).1

theorem select_carrying (agree : Agree l.settings.constraints i l.inquiry) (best : Candidate) :
    (∃ unanswered i', (l.carrying i).select best =
        (.error (.suspended unanswered), l.carrying i')) ∨
      ∃ i', (l.carrying i).select best = ((l.select best).1, (l.select best).2.carrying i') := by
  have merge : (l.carrying i).graph.merge = l.graph.merge := rfl
  unfold select
  rw [merge]
  cases made : l.graph.merge best.pair best.identification with
  | error violation => exact .inr ⟨i, rfl⟩
  | ok merged =>
      have asked : (l.carrying i).inquiry.passes (l.carrying i).settings.constraints
          ((l.carrying i).questionsFor best merged) =
            i.passes l.settings.constraints (l.questionsFor best merged) := rfl
      have agreed := agree (l.questionsFor best merged)
      dsimp only
      rw [asked]
      cases passed : i.passes l.settings.constraints (l.questionsFor best merged) with
      | mk r i' =>
          cases passed₀ : l.inquiry.passes l.settings.constraints (l.questionsFor best merged) with
          | mk r₀ i₀ =>
              rw [passed, passed₀] at agreed
              rcases agreed with ⟨unanswered, rfl⟩ | rfl
              · exact .inl ⟨unanswered, i', rfl⟩
              · right
                refine ⟨i', ?_⟩
                rcases r with unanswered | accepted
                · rfl
                · cases accepted <;> rfl

theorem step_carrying (agree : Agree l.settings.constraints i l.inquiry) :
    (∃ unanswered i', (l.carrying i).step = (.error (.suspended unanswered), l.carrying i')) ∨
      ∃ i', (l.carrying i).step = (l.step.1, l.step.2.carrying i') := by
  have phase : (l.carrying i).phase = l.phase := rfl
  unfold step
  rw [phase]
  cases l.phase with
  | select best others => exact select_carrying agree best
  | explore => exact .inr ⟨i, explore_carrying⟩
  | promote =>
      have front : (l.carrying i).graph.frontier = l.graph.frontier := rfl
      dsimp only
      rw [front]
      split
      · exact .inr ⟨i, explore_carrying⟩
      · exact .inr ⟨i, rfl⟩
  | initial | merge | done => exact .inr ⟨i, rfl⟩

/-! ### Waiting -/

/-- A step that has to wait for an answer changes nothing but what is known of the oracle. -/
theorem step_suspended {unanswered : Unanswered α}
    (waits : l.step.1 = .error (.suspended unanswered)) :
    (∃ best others, l.phase = .select best others) ∧
      l.step.2 = l.carrying l.step.2.inquiry := by
  have explores : l.explore.1 ≠ .error (.suspended unanswered) := by
    unfold explore
    dsimp only
    split
    · simp
    · split <;> simp
  unfold step at waits ⊢
  cases phase : l.phase with
  | select best others =>
      rw [phase] at waits
      dsimp only at waits ⊢
      refine ⟨⟨best, others, rfl⟩, ?_⟩
      unfold select at waits ⊢
      split at waits
      · cases waits
      · split at waits
        · rfl
        · cases waits
        · cases waits
  | explore =>
      rw [phase] at waits
      exact absurd waits explores
  | promote =>
      rw [phase] at waits
      dsimp only at waits
      split at waits
      · exact absurd waits explores
      · cases waits
  | initial | merge | done =>
      rw [phase] at waits
      cases waits

/-! ### Searches that are interrupted -/

theorem Move.inquiry_induct {l' : Learner α ω} {out : Except (LearnError α) Step}
    {P : Inquiry α ω → Prop}
    (keep : ∀ i w, P i → P (i.resolve l.settings.constraints w).2) (holds : P l.inquiry)
    (move : l.Move out l') : P l'.inquiry := by
  rcases move.inquiry_cases with ⟨_, same⟩ | ⟨questions, passed, asked, _⟩
  · exact same ▸ holds
  · have later := Inquiry.passes_induct keep holds questions
    rwa [asked] at later

variable [LawfulEqOrd α] {f : Word α → Answer}

/-- With settled answers all inquiries agree, as far as they get them. -/
theorem agree_of_faithful {constraints : List (Graph α)} {i₀ : Inquiry α ω}
    (faithful : i.Faithful f constraints) (faithful₀ : i₀.Faithful f constraints)
    (answers : Oracle.Answers α i₀.oracle) : Agree constraints i i₀ := by
  intro questions
  obtain ⟨⟨passed, fine⟩, _⟩ := Inquiry.exists_passes constraints answers questions
  have settled : (i₀.passes constraints questions).1 =
      .ok (Inquiry.unopposed f constraints questions) := by
    refine (faithful₀.passes questions).2.resolve_left ?_
    rintro ⟨unanswered, failed⟩
    rw [fine] at failed
    cases failed
  rw [settled]
  exact (faithful.passes questions).2

/-- What a search turns into by runs that are called off at will or have to wait, where in between
the oracle may turn into any other that answers by `f`. -/
inductive Resumed (f : Word α → Answer) (start : Learner α (Transcript ω α)) :
    Learner α (Transcript ω α) → Prop where
  | start : Resumed f start start
  | run {l : Learner α (Transcript ω α)} (stop : Learner α (Transcript ω α) → Bool) :
    Resumed f start l → Resumed f start (l.runUnless stop).2
  | restore {l : Learner α (Transcript ω α)} {oracle : ω} : Oracle.Follows f oracle →
    Resumed f start l → Resumed f start (l.withOracle ⟨oracle, l.inquiry.oracle.log⟩)

/-- The search has an oracle that always answers by `f`, and what it remembers is settled. -/
structure Steady (f : Word α → Answer) (l : Learner α ω) : Prop where
  coherent : l.Coherent
  answers : Oracle.Answers α l.inquiry.oracle
  faithful : l.inquiry.Faithful f l.settings.constraints

theorem Steady.step (steady : l.Steady f) : (∃ s, l.step.1 = .ok s) ∧ l.step.2.Steady f := by
  have move := steady.coherent.move
  obtain ⟨fine, later⟩ := move.exists_ok steady.answers
  refine ⟨fine, steady.coherent.step, later, ?_⟩
  rw [move.settings_eq]
  exact move.inquiry_induct (fun i w known => ((i.resolution _ w).faithful known).1) steady.faithful

theorem Steady.after (steady : l.Steady f) (k : Nat) : (l.after k).Steady f := by
  induction k with
  | zero => exact steady
  | succ k ih =>
      rw [after_succ]
      exact ih.step.2

/-- The search has made some of the steps of another one, and its oracle answered and was asked as
it should be. -/
structure Trails (f : Word α → Answer) (l : Learner α (Transcript ω α)) (leader : Learner α ω') :
    Prop where
  behind : ∃ k, l = (leader.after k).carrying l.inquiry ∧ ∀ j < k,
    (leader.after j).phase.isDone = false ∧
      (leader.after j).iterations < leader.settings.maxIterations
  faithful : l.inquiry.Faithful f leader.settings.constraints
  logged : l.inquiry.Logged leader.settings.constraints

variable {leader : Learner α ω'} {l : Learner α (Transcript ω α)}

theorem Trails.step (trails : l.Trails f leader) (steady : leader.Steady f)
    (going : l.phase.isDone = false) (limit : l.iterations < l.settings.maxIterations) :
    l.step.2.Trails f leader := by
  obtain ⟨k, same, way⟩ := trails.behind
  have ahead := steady.after k
  have settings := steady.coherent.settings_after k
  have here : l.Coherent := by
    rw [same]
    exact ⟨ahead.coherent.sound, ahead.coherent.weighed, ahead.coherent.remembers⟩
  have own : l.settings = leader.settings := by
    rw [same]
    exact settings
  have faithful : l.step.2.inquiry.Faithful f leader.settings.constraints := by
    rw [← own]
    exact here.move.inquiry_induct (fun i w known => ((i.resolution _ w).faithful known).1)
      (own ▸ trails.faithful)
  have logged : l.step.2.inquiry.Logged leader.settings.constraints := by
    rw [← own]
    exact here.move.inquiry_induct (fun i w known => (i.resolution _ w).logged known)
      (own ▸ trails.logged)
  refine ⟨?_, faithful, logged⟩
  have agree : Agree (leader.after k).settings.constraints l.inquiry (leader.after k).inquiry := by
    rw [settings]
    exact agree_of_faithful trails.faithful (settings ▸ ahead.faithful) ahead.answers
  -- Either an answer is missing and the search stays where it is, or it catches up by one step.
  have next := step_carrying (l := leader.after k) (i := l.inquiry) agree
  rw [← same] at next
  rcases next with ⟨unanswered, i', waits⟩ | ⟨i', goes_on⟩
  · exact ⟨k, by rw [waits]; rfl, way⟩
  · refine ⟨k + 1, by rw [goes_on, after_succ]; rfl, fun j hj => ?_⟩
    rcases Nat.lt_succ_iff_lt_or_eq.mp hj with earlier | rfl
    · exact way j earlier
    · rw [same] at going limit
      rw [← settings]
      exact ⟨going, limit⟩

/-- However a search is interrupted, it trails one that is not. -/
theorem Resumed.trails {start : Learner α (Transcript ω α)} (resumed : Resumed f start l)
    (trails : start.Trails f leader) (steady : leader.Steady f) : l.Trails f leader := by
  induction resumed with
  | start => exact trails
  | @run l stop resumed ih =>
      refine advance_induct (P := fun l => l.Trails f leader) stop _ ih fun l here going free => ?_
      have limit : l.iterations < l.settings.maxIterations := by
        unfold stopBefore at free
        split at free
        · cases free
        · split at free
          · cases free
          · omega
      exact here.step steady going limit
  | @restore l oracle follows _ ih =>
      obtain ⟨k, same, way⟩ := ih.behind
      let restored : Transcript ω α := ⟨oracle, l.inquiry.oracle.log⟩
      let known := (l.withOracle restored).inquiry
      have still : l.withOracle restored = (leader.after k).carrying known :=
        congrArg (fun s => s.carrying known) same
      exact ⟨⟨k, still, way⟩, ⟨Transcript.follows follows _, ih.faithful.recalls⟩,
        ih.logged.once, ih.logged.known, ih.logged.allowed⟩

omit [LawfulEqOrd α] [Oracle ω α] [Oracle ω' α] in
theorem eq_carrying_of_ofSample {sample : Sample α} {settings : Settings α} {oracle : ω}
    {oracle' : ω'} {l : Learner α ω} {l' : Learner α ω'}
    (created : ofSample sample settings oracle = .ok l)
    (created' : ofSample sample settings oracle' = .ok l') : l = l'.carrying l.inquiry := by
  unfold ofSample at created created'
  cases made : PrefixTree.ofTraces settings.conflicts sample.traces with
  | error conflict =>
      rw [made] at created
      cases created
  | ok tree =>
      rw [made] at created created'
      cases created
      cases created'
      rfl

end Learner

variable [LawfulEqOrd α] [Oracle ω α] [Oracle ω' α]

/-- However often a search is called off or has to wait, and whatever its oracle is in between: if
it is over at last, it has come to what a search comes to that is never interrupted. Waiting changes
nothing but what is known of the oracle, which answers no word twice and is asked no word that a
constraint bars. -/
theorem interruptions_leave_no_trace (sample : Sample α) (settings : Settings α)
    (f : Word α → Answer) (oracle : ω) (follows : Oracle.Follows f oracle)
    (start : Learner α (Transcript ω α))
    (created : Learner.ofSample sample settings (⟨oracle, []⟩ : Transcript ω α) = .ok start)
    (l : Learner α (Transcript ω α)) (resumed : start.Resumed f l)
    (oracle' : ω') (follows' : Oracle.Follows f oracle') (answers : Oracle.Answers α oracle')
    (steady : Learner α ω') (created' : Learner.ofSample sample settings oracle' = .ok steady) :
    (l.phase = .done → ∃ final, steady.run = (.ok (), final) ∧ l.graph = final.graph ∧
      l.history = final.history ∧ l.iterations = final.iterations) ∧
    (∀ (waiting : Learner α (Transcript ω α)) (unanswered : Unanswered α),
      waiting.step.1 = .error (.suspended unanswered) →
        (∃ best others, waiting.phase = .select best others) ∧
          waiting.step.2 = { waiting with inquiry := waiting.step.2.inquiry }) ∧
    l.inquiry.oracle.answered.Nodup ∧
    ∀ entry ∈ l.inquiry.oracle.log, ∀ c ∈ settings.constraints, c.accepts entry.1 = true := by
  obtain ⟨coherent, rfl, _, _⟩ := Learner.coherent_of_ofSample created'
  obtain ⟨known', _⟩ := Learner.inquiry_of_ofSample created'
  obtain ⟨known, _⟩ := Learner.inquiry_of_ofSample created
  have leads : steady.Steady f := by
    refine ⟨coherent, ?_, ?_⟩ <;> rw [known']
    · exact answers
    · exact .start follows'
  have trails : l.Trails f steady := by
    have alike := Learner.eq_carrying_of_ofSample created created'
    refine resumed.trails ⟨⟨0, alike, by simp⟩, ?_, ?_⟩ leads
    · rw [known]
      exact .start (Transcript.follows follows [])
    · rw [known]
      exact .start
  refine ⟨fun ended => ?_, fun waiting _ waits => Learner.step_suspended waits, trails.logged.once,
    trails.logged.allowed⟩
  obtain ⟨k, same, way⟩ := trails.behind
  have made : ∀ j < k, (steady.after j).phase.isDone = false ∧
      ∃ s, (steady.after j).step.1 = .ok s :=
    fun j hj => ⟨(way j hj).1, (leads.after j).step.1⟩
  have few := coherent.potential_after made
  have bound := coherent.sound.potential_le
  have done : (steady.after k).phase.isDone = true := by
    have phase : (steady.after k).phase = l.phase := by rw [same]; rfl
    rw [phase, ended]
    rfl
  refine ⟨steady.after k, ?_, by rw [same]; rfl, by rw [same]; rfl, by rw [same]; rfl⟩
  refine Learner.advance_eq_after (by omega) done fun j hj => ⟨(way j hj).1, ?_, (made j hj).2⟩
  have limit := (way j hj).2
  rw [Learner.stopBefore, if_neg Bool.false_ne_true, coherent.settings_after, if_neg (by omega)]

/-- A graph that accepts the words without labels other than 1. -/
def ones : Graph Nat := (Graph.single true).setTarget ⟨0⟩ 1 ⟨0⟩

/-- Settings by which only words without labels other than 1 are asked. -/
def guarded : Settings Nat :=
  { conflicts := .keepFirst, questions := some { rule := .symmetric }, constraints := [ones] }

/-- An oracle that cannot be reached at first, and once more after an answer. -/
def hesitant : Informant Nat :=
  .scripted [⟨.unavailable, false⟩, ⟨.handOn, false⟩, ⟨.unavailable, true⟩] false
    (.reference ones 0)

theorem contested_resumed : ∃ (start : Learner Nat (Transcript (Informant Nat) Nat))
    (steady : Learner Nat (Informant Nat)),
    Learner.ofSample contested guarded ⟨hesitant, []⟩ = .ok start ∧
      Learner.ofSample contested guarded (.reference ones 0) = .ok steady ∧
      start.run.2.phase.isDone = false ∧ start.run.2.run.2.phase = .done ∧
      start.run.2.run.2.history = steady.run.2.history ∧
      start.run.2.run.2.inquiry.oracle.answered.Nodup := by
  have facts : (Learner.ofSample contested guarded
      (⟨hesitant, []⟩ : Transcript (Informant Nat) Nat)).map
        (fun l => (l.run.2.phase.isDone, l.run.2.run.2.phase.isDone)) = .ok (false, true) := by
    decide +kernel
  have facts' : (Learner.ofSample contested guarded (.reference ones 0 : Informant Nat)).map
      (fun l => l.iterations) = .ok 0 := by
    decide +kernel
  obtain ⟨start, created, phases⟩ := Learner.exists_of_map_eq_ok facts
  obtain ⟨steady, created', _⟩ := Learner.exists_of_map_eq_ok facts'
  obtain ⟨waiting, last⟩ := Prod.mk.inj phases
  have ended := Phase.eq_done last
  have defers : hesitant.DefersTo ones := ⟨by decide, rfl⟩
  have steadily : (.reference ones 0 : Informant Nat).DefersTo ones := rfl
  obtain ⟨same, _, once, _⟩ := interruptions_leave_no_trace contested guarded
    (fun w => .ofBool (ones.accepts w)) hesitant defers.follows start created
    start.run.2.run.2 (.run _ (.run _ .start)) (.reference ones 0) steadily.follows
    (Informant.answers_of_isReliable rfl) steady created'
  obtain ⟨final, run, _, history, _⟩ := same ended
  refine ⟨start, steady, created, created', waiting, ended, ?_, once⟩
  rw [run]
  exact history

end BlueFringe
