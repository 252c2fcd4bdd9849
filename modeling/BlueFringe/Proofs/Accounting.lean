import BlueFringe.Proofs.Hypotheses
import BlueFringe.Proofs.Termination

/-!
# What a search comes to

The decisions of a search account for the states of its hypothesis: every promotion confirms one,
every merge takes some away, and an exclusion leaves all as they are but is never made twice. With
an oracle that always answers the search is over after a number of steps that is known beforehand,
and then only confirmed states are left.
-/

namespace BlueFringe

open Std

variable {α ω : Type} [Ord α] [TransOrd α]

namespace Record

/-- Whether the decision is a merge. -/
def isMerged : Record → Bool
  | merged _ _ _ => true
  | promoted _ | excluded _ => false

/-- Whether the decision is a promotion. -/
def isPromoted : Record → Bool
  | promoted _ => true
  | merged _ _ _ | excluded _ => false

/-- The number of states after a merge. -/
def states? : Record → Option Nat
  | merged _ _ states => some states
  | promoted _ | excluded _ => none

/-- Once a pair is excluded, it is neither excluded again nor merged. -/
def Allows (r later : Record) : Prop :=
  ∀ pair, r = excluded pair → later ≠ excluded pair ∧ ∀ s states, later ≠ merged pair s states

end Record

namespace Learner

/-- The decisions so far account for what has become of a tree with `n` states. -/
structure Accounts (n : Nat) (l : Learner α ω) : Prop where
  counted : l.iterations = l.history.countP Record.isMerged + l.history.countP Record.isPromoted
  fresh : l.phase = .initial → l.history = [] ∧ l.graph.size = n
  confirmed : l.phase ≠ .initial →
    l.graph.size = 1 + l.history.countP Record.isPromoted + l.graph.undecided.card
  budget : l.phase ≠ .initial → l.iterations + l.graph.undecided.card < n
  shrinking : (l.history.filterMap Record.states?).Pairwise (· > ·)
  above : ∀ states ∈ l.history.filterMap Record.states?, l.graph.size ≤ states
  once : l.history.Pairwise Record.Allows

variable {l l' : Learner α ω} {n : Nat}

omit [TransOrd α] in
/-- What decides nothing changes no account. -/
theorem Accounts.keep (accounts : l.Accounts n) (begun : l.phase ≠ .initial)
    (begun' : l'.phase ≠ .initial) (history : l'.history = l.history)
    (iterations : l'.iterations = l.iterations) (size : l'.graph.size = l.graph.size)
    (undecided : l'.graph.undecided.card = l.graph.undecided.card) : l'.Accounts n := by
  constructor
  · rw [history, iterations]
    exact accounts.counted
  · exact fun initial => absurd initial begun'
  · rw [history, size, undecided]
    exact fun _ => accounts.confirmed begun
  · rw [iterations, undecided]
    exact fun _ => accounts.budget begun
  · rw [history]
    exact accounts.shrinking
  · rw [history, size]
    exact accounts.above
  · rw [history]
    exact accounts.once

omit [TransOrd α] in
/-- A decision is accounted for by what it does to the states. -/
theorem Accounts.write {r : Record} (accounts : l.Accounts n) (begun : l.phase ≠ .initial)
    (begun' : l'.phase ≠ .initial) (history : l'.history = l.history ++ [r])
    (counted : l'.iterations =
      l.iterations + [r].countP Record.isMerged + [r].countP Record.isPromoted)
    (confirmed : l'.graph.size + l.graph.undecided.card =
      l.graph.size + [r].countP Record.isPromoted + l'.graph.undecided.card)
    (budget : l'.iterations + l'.graph.undecided.card ≤ l.iterations + l.graph.undecided.card)
    (size : l'.graph.size ≤ l.graph.size)
    (merged : ∀ states, r.states? = some states →
      l'.graph.size = states ∧ states < l.graph.size)
    (allowed : ∀ earlier ∈ l.history, earlier.Allows r) : l'.Accounts n := by
  have countedBefore := accounts.counted
  have confirmedBefore := accounts.confirmed begun
  have budgetBefore := accounts.budget begun
  constructor
  · rw [history, List.countP_append, List.countP_append]
    omega
  · exact fun initial => absurd initial begun'
  · rw [history, List.countP_append]
    omega
  · omega
  · rw [history, List.filterMap_append, List.pairwise_append]
    refine ⟨accounts.shrinking, ?_, fun earlier listed last h => ?_⟩
    · cases found : r.states? <;> simp [found]
    · have made : r.states? = some last := by simpa using h
      have above := accounts.above earlier listed
      have less := (merged last made).2
      omega
  · intro states h
    rw [history, List.filterMap_append, List.mem_append] at h
    rcases h with old | new
    · exact size.trans (accounts.above states old)
    · have made : r.states? = some states := by simpa using new
      exact (merged states made).1.le
  · rw [history, List.pairwise_append]
    refine ⟨accounts.once, List.pairwise_singleton _ _, fun earlier listed last h => ?_⟩
    rw [List.mem_singleton] at h
    exact h ▸ allowed earlier listed

theorem Accounts.begin (accounts : l.Accounts n) (phase : l.phase = .initial)
    (tree : l.graph.RootedTree) : l.begin.Accounts n := by
  obtain ⟨history, size⟩ := accounts.fresh phase
  have same : l.begin.graph.size = l.graph.size := by
    simp [Learner.begin, Graph.setColour, Graph.clearColours]
  have fewer : l.begin.graph.undecided.card + 1 = l.graph.size := tree.card_undecided_begin
  have counted : l.iterations = 0 := by
    have counted := accounts.counted
    rwa [history] at counted
  have nothing : l.begin.history = [] := history
  constructor
  · exact accounts.counted
  · simp [Learner.begin]
  · intro _
    rw [nothing, List.countP_nil]
    omega
  · intro _
    have still : l.begin.iterations = l.iterations := rfl
    omega
  all_goals simp [nothing]

variable [LawfulEqOrd α]

theorem Accounts.recoloured (accounts : l.Accounts n) (begun : l.phase ≠ .initial) :
    l.recoloured.Accounts n :=
  accounts.keep begun begun rfl rfl Graph.size_mapStates left_recoloured.1

theorem Accounts.promote (accounts : l.Accounts n) (begun : l.phase ≠ .initial)
    {blue : StateId} (fringed : l.graph.Fringed) (front : blue ∈ l.graph.recolour.frontier) :
    (l.recoloured.promote blue).2.Accounts n := by
  obtain ⟨fewer, _⟩ := left_promote fringed front
  have size : (l.recoloured.promote blue).2.graph.size = l.graph.size :=
    Graph.size_update.trans Graph.size_mapStates
  have iterations : (l.recoloured.promote blue).2.iterations = l.iterations + 1 := rfl
  have merges : [Record.promoted blue].countP Record.isMerged = 0 := rfl
  have promotions : [Record.promoted blue].countP Record.isPromoted = 1 := rfl
  apply accounts.write begun (r := .promoted blue)
  case begun' => simp [Learner.promote]
  case history => rfl
  case merged => simp [Record.states?]
  case allowed =>
    intro earlier _ pair _
    simp
  all_goals omega

omit [TransOrd α] [LawfulEqOrd α] in
theorem Accounts.exclude (accounts : l.Accounts n) (begun : l.phase ≠ .initial)
    (remembers : l.Remembers) {pair : StatePair} (free : pair ∉ l.excluded) :
    (l.exclude pair).2.Accounts n := by
  apply accounts.write begun (r := .excluded pair)
  case begun' => simp [Learner.exclude]
  case merged => simp [Record.states?]
  case allowed =>
    rintro earlier listed pair' rfl
    have known : pair' ∈ l.excluded := (remembers pair').mpr listed
    refine ⟨fun same => ?_, by simp⟩
    rw [Record.excluded.injEq] at same
    exact free (same ▸ known)
  case budget => exact le_rfl
  case size => exact le_rfl
  all_goals rfl

theorem Accounts.commit (accounts : l.Accounts n) (begun : l.phase ≠ .initial)
    (remembers : l.Remembers) {chosen : Candidate} {merged : Graph α} (fringed : l.graph.Fringed)
    (fits : chosen.Fits l.graph) (merges : l.graph.Merges chosen.identification merged)
    (free : chosen.pair ∉ l.excluded) : (l.commit chosen merged).2.Accounts n := by
  obtain ⟨fewer, _⟩ := left_commit fringed fits merges
  have taken := merges.size_pos
  have size : (l.commit chosen merged).2.graph.size + chosen.identification.size = l.graph.size :=
    merges.size_add_size
  have iterations : (l.commit chosen merged).2.iterations = l.iterations + 1 := rfl
  let r : Record := .merged chosen.pair chosen.score merged.size
  have merges : [r].countP Record.isMerged = 1 := rfl
  have promotions : [r].countP Record.isPromoted = 0 := rfl
  apply accounts.write begun (r := r)
  case begun' => simp [Learner.commit]
  case history => rfl
  case merged =>
    intro states made
    have given : merged.size = states := Option.some.inj made
    have same : (l.commit chosen merged).2.graph.size = merged.size := rfl
    omega
  case allowed =>
    rintro earlier listed pair' rfl
    have known : pair' ∈ l.excluded := (remembers pair').mpr listed
    refine ⟨by simp [r], fun s states same => ?_⟩
    rw [Record.merged.injEq] at same
    exact free (same.1 ▸ known)
  all_goals omega

variable [Oracle ω α] {out : Except (LearnError α) Step}

theorem Move.accounts (coherent : l.Coherent) (accounts : l.Accounts n) (move : l.Move out l') :
    l'.Accounts n := by
  have sound := coherent.sound
  have weighed := coherent.weighed
  rw [Sound] at sound
  rw [Weighed] at weighed
  cases move with
  | begin phase =>
      rw [phase] at sound
      exact accounts.begin phase sound
  | finish phase none_left =>
      have begun : l.phase ≠ .initial := by
        rcases phase with phase | phase <;> simp [phase]
      exact (accounts.recoloured begun).keep begun (by simp) rfl rfl rfl rfl
  | hasten phase made stuck =>
      rw [phase] at sound
      exact accounts.promote (by simp [phase]) sound (Settings.mem_frontier_of_waiting? stuck)
  | @weigh scored choices phase weighs =>
      have begun : l.phase ≠ .initial := by simp [phase]
      have begun' : (Phase.ofChoices choices : Phase α) ≠ .initial := by
        cases choices <;> simp [Phase.ofChoices]
      exact (accounts.recoloured begun).keep begun begun' rfl rfl rfl rfl
  | suspend phase =>
      have begun : l.phase ≠ .initial := by simp [phase]
      exact accounts.keep begun begun rfl rfl rfl rfl
  | choose phase =>
      have begun : l.phase ≠ .initial := by simp [phase]
      exact accounts.keep begun (by simp) rfl rfl rfl rfl
  | @exclude best others merged inquiry phase made asked =>
      have begun : l.phase ≠ .initial := by simp [phase]
      rw [phase] at weighed
      obtain ⟨scored, weighs⟩ := weighed
      have free := (Graph.mem_openPairs.mp weighs.opened).2.2
      have asked : ({ l with inquiry } : Learner α ω).Accounts n :=
        accounts.keep begun begun rfl rfl rfl rfl
      exact asked.exclude begun coherent.remembers free
  | commit phase =>
      have begun : l.phase ≠ .initial := by simp [phase]
      rw [phase] at sound weighed
      obtain ⟨fringed, _, fits, merges⟩ := sound
      obtain ⟨scored, others, weighs⟩ := weighed
      have free := (Graph.mem_openPairs.mp weighs.opened).2.2
      exact accounts.commit begun coherent.remembers fringed fits merges free
  | promote phase front =>
      have begun : l.phase ≠ .initial := by simp [phase]
      rw [phase] at sound
      exact accounts.promote begun sound.1
        (Graph.mem_frontier_recolour.mpr (front ▸ List.mem_cons_self))
  | rest phase => exact accounts

theorem Accounts.after (accounts : l.Accounts n) (coherent : l.Coherent) (k : Nat) :
    (l.after k).Accounts n := by
  induction k with
  | zero => exact accounts
  | succ k ih =>
      rw [after_succ]
      exact (coherent.after k).move.accounts (coherent.after k) ih

omit [LawfulEqOrd α] in
theorem Move.iterations_le (move : l.Move out l') : l.iterations ≤ l'.iterations := by
  cases move with
  | hasten | commit | promote => exact Nat.le_succ _
  | begin | finish | weigh | suspend | choose | exclude | rest => exact Nat.le_refl _

theorem Coherent.iterations_le_after (coherent : l.Coherent) {j k : Nat} (h : j ≤ k) :
    (l.after j).iterations ≤ (l.after k).iterations := by
  induction h with
  | refl => exact Nat.le_refl _
  | step _ ih =>
      rw [after_succ]
      exact ih.trans (coherent.after _).move.iterations_le

omit [Oracle ω α] in
/-- Once a search is over, all its states are confirmed. -/
theorem Accounts.of_done (accounts : l.Accounts n) (coherent : l.Coherent)
    (ended : l.phase = .done) :
    (∀ q ∈ l.graph, l.graph.colour? q = some .red ∧ l.graph.Reaches l.graph.initial q) ∧
      l.graph.size = 1 + l.history.countP Record.isPromoted := by
  have sound := coherent.sound
  rw [Sound, ended] at sound
  have red := sound.1.red_of_frontier_empty sound.2
  have none_left : l.graph.undecided = ∅ := by
    refine Finset.filter_false_of_mem fun q hq other => other (red q ?_)
    simpa using hq
  have confirmed := accounts.confirmed (by simp [ended])
  rw [none_left, Finset.card_empty] at confirmed
  exact ⟨fun q hq => ⟨red q hq, sound.1.reached q hq⟩, confirmed⟩

end Learner

variable [LawfulEqOrd α] [Oracle ω α]

/-- With an oracle that always answers, steps lead to the end of a search, within the bound of a
run, and the decisions account exactly for the hypothesis there. -/
theorem every_search_ends (sample : Sample α) (settings : Settings α) (oracle : ω)
    (start : Learner α ω) (created : Learner.ofSample sample settings oracle = .ok start)
    (answers : Oracle.Answers α oracle) :
    ∃ (k : Nat) (l : Learner α ω), k ≤ start.stepBound ∧ start.after k = l ∧
      (∀ j < k, ∃ s, (start.after j).step.1 = .ok s) ∧ l.phase = .done ∧
      (l.iterations < settings.maxIterations → start.run = (.ok (), l)) ∧
      l.iterations = l.history.countP Record.isMerged + l.history.countP Record.isPromoted ∧
      l.iterations < start.graph.size ∧
      l.graph.size = 1 + l.history.countP Record.isPromoted ∧
      (∀ q ∈ l.graph, l.graph.colour? q = some .red ∧ l.graph.Reaches l.graph.initial q) ∧
      (l.history.filterMap Record.states?).Pairwise (· > ·) ∧
      l.history.Pairwise Record.Allows := by
  obtain ⟨coherent, same, phase, fresh⟩ := Learner.coherent_of_ofSample created
  obtain ⟨inquiry, none_yet⟩ := Learner.inquiry_of_ofSample created
  have answered : Oracle.Answers α start.inquiry.oracle := by
    rw [inquiry]
    exact answers
  obtain ⟨k, few, done, way⟩ := coherent.exists_done answered
  have ended : (start.after k).phase = .done := Phase.eq_done done
  have enough : k ≤ start.stepBound := few.trans coherent.sound.potential_le
  have accounts : start.Accounts start.graph.size := by
    constructor <;> simp [phase, fresh, none_yet]
  have final := accounts.after coherent k
  have begun : (start.after k).phase ≠ .initial := by simp [ended]
  obtain ⟨red, size⟩ := final.of_done (coherent.after k) ended
  have budget := final.budget begun
  refine ⟨k, start.after k, enough, rfl, fun j hj => (way j hj).2, ended, fun unbound => ?_,
    final.counted, by omega, size, red, final.shrinking, final.once⟩
  refine Learner.advance_eq_after enough done fun j hj => ⟨(way j hj).1, ?_, (way j hj).2⟩
  have before := coherent.iterations_le_after hj.le
  have limit : (start.after j).settings.maxIterations = settings.maxIterations := by
    rw [coherent.settings_after, same]
  rw [Learner.stopBefore, if_neg Bool.false_ne_true, limit, if_neg (by omega)]

/-- Settings for the contested traces by which a first answer of rejection excludes a pair. -/
def inquisitive : Settings Nat :=
  { conflicts := .keepFirst, questions := some { rule := .symmetric } }

theorem contested_ends : ∃ start : Learner Nat (Informant Nat),
    Learner.ofSample contested inquisitive (.scripted [⟨.answer .reject, false⟩] false .silent) =
        .ok start ∧
      start.run.1 = .ok () ∧ start.run.2.phase = .done ∧ start.run.2.iterations < 8 ∧
      start.run.2.history.Pairwise Record.Allows := by
  let informant : Informant Nat := .scripted [⟨.answer .reject, false⟩] false .silent
  have facts : (Learner.ofSample contested inquisitive informant).map (·.graph.size) = .ok 8 := by
    decide +kernel
  obtain ⟨start, created, size⟩ := Learner.exists_of_map_eq_ok facts
  have reliable : informant.isReliable = true := rfl
  obtain ⟨k, l, _, _, _, ended, run, _, few, _, _, _, once⟩ := every_search_ends contested
    inquisitive informant start created (Informant.answers_of_isReliable reliable)
  rw [size] at few
  have unbound : l.iterations < inquisitive.maxIterations := few.trans (by decide)
  refine ⟨start, created, ?_⟩
  rw [run unbound]
  exact ⟨rfl, ended, few, once⟩

end BlueFringe
