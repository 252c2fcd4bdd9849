import BlueFringe.Proofs.Hypotheses

/-!
# Moves of a search

A step of a search is one of ten moves, each with its own condition and its own effect. What is true
of every step is shown by cases on the move, and what is true of every search by induction over the
steps that lead to it.
-/

namespace BlueFringe

open Std

variable {α ω : Type} [Ord α] [TransOrd α]

/-- What a search does once the candidates are known. -/
def Phase.ofChoices : List Candidate → Phase α
  | [] => .promote
  | best :: others => .select best others

/-- The state of the frontier that an exploration promotes, if any. -/
def Settings.waiting? (settings : Settings α) (g : Graph α) (scored : List Candidate) :
    Option StateId :=
  match settings.promotion with
  | .whenStuck => none
  | .eager => g.stuckState? scored

theorem Settings.mem_frontier_of_waiting? {settings : Settings α} {g : Graph α}
    {scored : List Candidate} {blue : StateId} (h : settings.waiting? g scored = some blue) :
    blue ∈ g.frontier := by
  unfold waiting? at h
  split at h
  · cases h
  · exact List.mem_of_find?_eq_some h

/-- The candidates of a hypothesis in order of preference, none of its states having to be promoted
first. -/
structure Settings.Weighs (settings : Settings α) (g : Graph α)
    (excluded : ExtTreeSet StatePair compare) (scored choices : List Candidate) : Prop where
  made : g.scoredPairs settings.strategy excluded = .ok scored
  settled : settings.waiting? g scored = none
  left : g.candidates scored = choices

namespace Learner

/-- The search with its hypothesis painted anew. -/
def recoloured (l : Learner α ω) : Learner α ω := { l with graph := l.graph.recolour }

/-- The moves of a search, with what the step comes to and the search afterwards. -/
inductive Move [Oracle ω α] (l : Learner α ω) :
    Except (LearnError α) Step → Learner α ω → Prop where
  | begin : l.phase = .initial → Move l (.ok (.explored 0)) l.begin
  | finish : l.phase = .explore ∨ l.phase = .promote → l.graph.recolour.frontier = [] →
    Move l (.ok .done) { l.recoloured with phase := .done }
  | hasten {scored : List Candidate} {blue : StateId} : l.phase = .explore →
    l.graph.recolour.scoredPairs l.settings.strategy l.excluded = .ok scored →
    l.settings.waiting? l.graph.recolour scored = some blue →
    Move l (.ok (.recorded (.promoted blue))) (l.recoloured.promote blue).2
  | weigh {scored choices : List Candidate} : l.phase = .explore →
    l.settings.Weighs l.graph.recolour l.excluded scored choices →
    Move l (.ok (.explored choices.length)) { l.recoloured with phase := .ofChoices choices }
  | suspend {best : Candidate} {others : List Candidate} {merged : Graph α}
    {unanswered : Unanswered α} {inquiry : Inquiry α ω} : l.phase = .select best others →
    l.graph.merge best.pair best.identification = .ok merged →
    l.inquiry.passes l.settings.constraints (l.questionsFor best merged) =
      (.error unanswered, inquiry) →
    Move l (.error (.suspended unanswered)) { l with inquiry }
  | choose {best : Candidate} {others : List Candidate} {merged : Graph α}
    {inquiry : Inquiry α ω} : l.phase = .select best others →
    l.graph.merge best.pair best.identification = .ok merged →
    l.inquiry.passes l.settings.constraints (l.questionsFor best merged) = (.ok true, inquiry) →
    Move l (.ok (.selected best.pair)) { l with inquiry, phase := .merge best merged }
  | exclude {best : Candidate} {others : List Candidate} {merged : Graph α}
    {inquiry : Inquiry α ω} : l.phase = .select best others →
    l.graph.merge best.pair best.identification = .ok merged →
    l.inquiry.passes l.settings.constraints (l.questionsFor best merged) = (.ok false, inquiry) →
    Move l (.ok (.recorded (.excluded best.pair))) ({ l with inquiry }.exclude best.pair).2
  | commit {chosen : Candidate} {merged : Graph α} : l.phase = .merge chosen merged →
    Move l (.ok (.recorded (.merged chosen.pair chosen.score merged.size)))
      (l.commit chosen merged).2
  | promote {blue : StateId} {rest : List StateId} : l.phase = .promote →
    l.graph.frontier = blue :: rest →
    Move l (.ok (.recorded (.promoted blue))) (l.recoloured.promote blue).2
  | rest : l.phase = .done → Move l (.ok .done) l

variable [Oracle ω α] {l l' : Learner α ω} {out : Except (LearnError α) Step}

/-! ### Every step is a move -/

variable [LawfulEqOrd α]

theorem explore_move (phase : l.phase = .explore) (fringed : l.graph.Fringed) :
    l.Move l.explore.1 l.explore.2 := by
  have recoloured := fringed.recolour.1
  obtain ⟨scored, made, _⟩ := exists_scoredPairs recoloured l.settings.strategy l.excluded
  unfold explore
  dsimp only
  split
  · rename_i none_left
    exact .finish (.inl phase) (List.isEmpty_iff.mp none_left)
  · rw [made]
    dsimp only
    unfold explored
    dsimp only
    have waiting : l.settings.waiting? l.graph.recolour scored = (match l.settings.promotion with
      | .whenStuck => none
      | .eager => l.graph.recolour.stuckState? scored) := rfl
    split
    · rename_i blue stuck
      exact .hasten phase made (waiting.trans stuck)
    · rename_i settled
      split
      · rename_i empty
        have weighed := Move.weigh phase ⟨made, waiting.trans settled, empty⟩
        exact weighed
      · rename_i best others found
        have weighed := Move.weigh phase ⟨made, waiting.trans settled, found⟩
        exact weighed

theorem select_move {best : Candidate} {others : List Candidate}
    (phase : l.phase = .select best others) (fringed : l.graph.Fringed) (fits : best.Fits l.graph) :
    l.Move (l.select best).1 (l.select best).2 := by
  obtain ⟨merged, made, _⟩ := exists_merge fringed fits
  unfold select
  rw [made]
  dsimp only
  split
  · rename_i asked
    exact .suspend phase made asked
  · rename_i asked
    exact .choose phase made asked
  · rename_i asked
    exact .exclude phase made asked

theorem step_move (sound : l.Sound) : l.Move l.step.1 l.step.2 := by
  unfold step
  cases phase : l.phase with
  | initial => exact .begin phase
  | explore =>
      rw [Sound, phase] at sound
      exact explore_move phase sound
  | select best others =>
      rw [Sound, phase] at sound
      exact select_move phase sound.1 (sound.2.2 best List.mem_cons_self)
  | merge chosen merged => exact .commit phase
  | promote =>
      rw [Sound, phase] at sound
      dsimp only
      split
      · rename_i empty
        have none_left : l.graph.recolour.frontier = [] :=
          List.eq_nil_iff_forall_not_mem.mpr fun q hq => by
            rw [Graph.mem_frontier_recolour, empty] at hq
            cases hq
        have last : l.explore = (.ok .done, { l.recoloured with phase := .done }) := by
          simp [explore, none_left, recoloured]
        rw [last]
        exact .finish (.inr phase) none_left
      · rename_i blue rest front
        exact .promote phase front
  | done => exact .rest phase

omit [LawfulEqOrd α] in
theorem Move.settings_eq (move : l.Move out l') : l'.settings = l.settings := by
  cases move <;> rfl

omit [LawfulEqOrd α] in
/-- A move writes down at most one decision, the one that the step comes to. -/
theorem Move.history_cases (move : l.Move out l') :
    l'.history = l.history ∨
      ∃ r, out = .ok (.recorded r) ∧ l'.history = l.history ++ [r] := by
  cases move with
  | hasten => exact .inr ⟨_, rfl, rfl⟩
  | exclude => exact .inr ⟨_, rfl, rfl⟩
  | commit => exact .inr ⟨_, rfl, rfl⟩
  | promote => exact .inr ⟨_, rfl, rfl⟩
  | begin | finish | weigh | suspend | choose | rest => exact .inl rfl

omit [LawfulEqOrd α] in
/-- A move leaves what is known of the oracle alone, or it asks some questions and fails only if an
answer is missing. -/
theorem Move.inquiry_cases (move : l.Move out l') :
    ((∃ s, out = .ok s) ∧ l'.inquiry = l.inquiry) ∨
      ∃ questions passed,
        l.inquiry.passes l.settings.constraints questions = (passed, l'.inquiry) ∧
          ((∃ b, passed = .ok b) → ∃ s, out = .ok s) := by
  cases move with
  | suspend _ _ failed =>
      refine .inr ⟨_, _, failed, fun answered => ?_⟩
      obtain ⟨b, impossible⟩ := answered
      cases impossible
  | choose _ _ passed => exact .inr ⟨_, _, passed, fun _ => ⟨_, rfl⟩⟩
  | exclude _ _ refused => exact .inr ⟨_, _, refused, fun _ => ⟨_, rfl⟩⟩
  | begin | finish | hasten | weigh | commit | promote | rest => exact .inl ⟨⟨_, rfl⟩, rfl⟩

/-! ### What the phases hold -/

/-- The candidates that a phase holds are those of the hypothesis, which has not changed since. -/
def Weighed (l : Learner α ω) : Prop :=
  match l.phase with
  | .select best others => ∃ scored, l.settings.Weighs l.graph l.excluded scored (best :: others)
  | .merge chosen _ =>
    ∃ scored others, l.settings.Weighs l.graph l.excluded scored (chosen :: others)
  | .promote => ∃ scored, l.settings.Weighs l.graph l.excluded scored []
  | .initial | .explore | .done => True

omit [LawfulEqOrd α] in
theorem Move.weighed (weighed : l.Weighed) (move : l.Move out l') : l'.Weighed := by
  cases move with
  | @weigh scored choices phase weighs =>
      cases choices with
      | nil => exact ⟨scored, weighs⟩
      | cons best others => exact ⟨scored, weighs⟩
  | suspend phase => exact weighed
  | choose phase =>
      rw [Weighed, phase] at weighed
      obtain ⟨scored, weighs⟩ := weighed
      exact ⟨scored, _, weighs⟩
  | rest phase => exact weighed
  | begin | finish | hasten | exclude | commit | promote => trivial

/-- The pairs that are not considered are those that some decision excluded. -/
def Remembers (l : Learner α ω) : Prop :=
  ∀ pair, pair ∈ l.excluded ↔ Record.excluded pair ∈ l.history

omit [LawfulEqOrd α] in
theorem Move.remembers (remembers : l.Remembers) (move : l.Move out l') : l'.Remembers := by
  have other : ∀ {l' : Learner α ω} {r : Record}, (∀ pair, r ≠ .excluded pair) →
      l'.excluded = l.excluded → l'.history = l.history ++ [r] → l'.Remembers := by
    intro l' r plain same noted pair
    rw [same, noted, List.mem_append, List.mem_singleton, remembers pair]
    exact ⟨Or.inl, fun h => h.resolve_right (plain pair).symm⟩
  cases move with
  | begin | finish | weigh | suspend | choose | rest => exact remembers
  | hasten => exact other (fun _ => by simp) rfl rfl
  | commit => exact other (fun _ => by simp) rfl rfl
  | promote => exact other (fun _ => by simp) rfl rfl
  | exclude =>
      intro pair
      show pair ∈ l.excluded.insert _ ↔ _ ∈ l.history ++ [_]
      rw [ExtTreeSet.mem_insert, LawfulEqCmp.compare_eq_iff_eq, remembers pair, List.mem_append,
        List.mem_singleton, Record.excluded.injEq, or_comm, eq_comm]

/-- The invariants of a search taken together. -/
structure Coherent (l : Learner α ω) : Prop where
  sound : l.Sound
  weighed : l.Weighed
  remembers : l.Remembers

theorem Coherent.move (coherent : l.Coherent) : l.Move l.step.1 l.step.2 :=
  step_move coherent.sound

theorem Coherent.step (coherent : l.Coherent) : l.step.2.Coherent :=
  ⟨(step_spec coherent.sound).2.sound, coherent.move.weighed coherent.weighed,
    coherent.move.remembers coherent.remembers⟩

/-! ### Runs and histories -/

omit [LawfulEqOrd α] in
/-- What every step of a run keeps is true at its end. -/
theorem advance_induct {P : Learner α ω → Prop} (stop : Learner α ω → Bool) (steps : Nat)
    (start : P l)
    (step : ∀ l, P l → l.phase.isDone = false → l.stopBefore stop = none → P l.step.2) :
    P (l.advance stop steps).2 := by
  induction steps generalizing l with
  | zero => exact start
  | succ steps ih =>
      unfold advance
      split
      · exact start
      · rename_i going
        split
        · exact start
        · rename_i free
          have next : P l.step.2 := step l start (Bool.not_eq_true _ ▸ going) free
          split
          · rename_i made
            rwa [made] at next
          · rename_i made
            rw [made] at next
            exact ih next

omit [Oracle ω α] [LawfulEqOrd α] in
/-- What steps and changes of the oracle keep is true of all that a search turns into. -/
theorem Reached.induct {ω₀ : Type} {start : Learner α ω₀}
    {P : {ω : Type} → Learner α ω → Prop} (holds : P start)
    (step : ∀ {ω : Type} [Oracle ω α] (l : Learner α ω), start.Reached l → P l → P l.step.2)
    (withOracle : ∀ {ω ω' : Type} (l : Learner α ω) (oracle : ω'), start.Reached l → P l →
      P (l.withOracle oracle))
    {l : Learner α ω} (reached : start.Reached l) : P l := by
  induction reached with
  | start => exact holds
  | step reached ih => exact step _ reached ih
  | @run ω _ l stop reached ih =>
      have both : start.Reached (l.runUnless stop).2 ∧ P (l.runUnless stop).2 :=
        advance_induct (P := fun l => start.Reached l ∧ P l) stop l.stepBound ⟨reached, ih⟩
          fun l h _ _ => ⟨.step h.1, step l h.1 h.2⟩
      exact both.2
  | withOracle oracle reached ih => exact withOracle _ oracle reached ih

omit [Oracle ω α] in
theorem Reached.coherent {ω₀ : Type} {start : Learner α ω₀} {l : Learner α ω}
    (reached : start.Reached l) (coherent : start.Coherent) : l.Coherent := by
  refine reached.induct (P := Coherent) coherent (fun l _ h => h.step) ?_
  intro ω ω' l oracle _ h
  exact ⟨h.sound, h.weighed, h.remembers⟩

omit [Oracle ω α] in
/-- A search for a sample starts with nothing decided. -/
theorem coherent_of_ofSample {sample : Sample α} {settings : Settings α} {oracle : ω}
    (created : ofSample sample settings oracle = .ok l) :
    l.Coherent ∧ l.settings = settings ∧ l.phase = .initial ∧ l.history = [] := by
  have sound := (sound_of_ofSample created).1
  unfold ofSample at created
  split at created
  · cases created
  · cases created
    refine ⟨⟨sound, trivial, fun pair => ?_⟩, rfl, rfl, rfl⟩
    simp [ofGraph]

theorem exists_of_map_eq_ok {ε β γ : Type} {x : Except ε β} {f : β → γ} {c : γ}
    (h : x.map f = .ok c) : ∃ b, x = .ok b ∧ f b = c := by
  cases x with
  | error e => cases h
  | ok b => exact ⟨b, rfl, Except.ok.inj h⟩

omit [Oracle ω α] [LawfulEqOrd α] in
theorem inquiry_of_ofSample {sample : Sample α} {settings : Settings α} {oracle : ω}
    (created : ofSample sample settings oracle = .ok l) :
    l.inquiry = { oracle } ∧ l.iterations = 0 := by
  unfold ofSample at created
  split at created
  · cases created
  · cases created
    exact ⟨rfl, rfl⟩

end Learner

end BlueFringe
