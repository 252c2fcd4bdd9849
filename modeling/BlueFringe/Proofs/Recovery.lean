import BlueFringe.Proofs.Accounting
import BlueFringe.Proofs.Guidance

/-!
# Characteristic samples are learned

A search without questions that is shown a characteristic sample merges only states that stand for
the same state of the reference. Twins of provisional states come before whatever lies behind the
provisional ones, as more states speak for them and they are nearer. So the search ends with a
hypothesis that accepts exactly what the reference accepts, unless it is given up before.
-/

namespace BlueFringe

open Std

variable {α ω : Type} [Ord α] [TransOrd α]

namespace Graph

variable {g : Graph α} {b q : StateId}

omit [TransOrd α] in
theorem colour?_setColour_eq_red (mem : b ∈ g) :
    (g.setColour b .red).colour? q = some .red ↔ q = b ∨ g.colour? q = some .red := by
  obtain ⟨s, hs⟩ := mem_iff_exists.mp mem
  rw [colour?_setColour]
  by_cases here : b = q
  · subst here
    simp [hs]
  · simp [here, Ne.symm here]

end Graph

variable [LawfulEqOrd α] {ref : Graph α} {cover seen : Set (Word α)}
  {meaning : StateId → Option StateId} {b q : StateId} {a : α} {pair pair' : StatePair}
  {s s' : Score} {v : Word α}

/-- Of two pairs that may be merged, the one comes first that more states speak for and whose blue
state is nearer. -/
theorem Strategy.pairRank_lt {strategy : Strategy} {g : Graph α} {m m' : Identification}
    (lenient : strategy = .edsm ∨ strategy = .rpni) (foldable : g.Foldable pair)
    (foldable' : g.Foldable pair') (scored : strategy.score g pair = .ok (s, m))
    (scored' : strategy.score g pair' = .ok (s', m')) (compatible : s.isCompatible = true)
    (compatible' : s'.isCompatible = true) (more : m.size < m'.size)
    (nearer : g.rank pair'.blue < g.rank pair.blue) : g.pairRank pair' s' < g.pairRank pair s := by
  rcases score_cases foldable scored with ⟨folds, -, -, f, rfl, fine, matched, -⟩ | ⟨rfl, -⟩
  · rcases score_cases foldable' scored' with ⟨-, -, -, f', rfl, fine', matched', -⟩ | ⟨rfl, -⟩
    · have pos := folds.size_pos
      simp only [Graph.pairRank, Prod.Lex.toLex_lt_toLex]
      rcases lenient with rfl | rfl
      · refine .inl ?_
        simp only [weigh, fine, fine', Option.isSome_none, Bool.false_eq_true, if_false,
          Score.primary]
        omega
      · refine .inr ⟨?_, .inr ⟨?_, .inl nearer⟩⟩ <;> simp only [weigh, fine, fine']
    · cases compatible'
  · cases compatible

namespace Learner

variable {l l' : Learner α ω}

section

variable (ref cover seen meaning)

/-- The hypothesis keeps to the evidence, and so does the one after a merge that was chosen. No pair
was excluded. -/
structure Guided (l : Learner α ω) : Prop where
  free : ∀ pair, pair ∉ l.excluded
  guided : Graph.Guided ref cover seen meaning l.graph
  measured : ∀ chosen merged, l.phase = .merge chosen merged → merged.Measured

end

theorem exists_eligible (fringed : l.graph.Fringed) (labelled : ref.Labelled l.graph meaning)
    (free : ∀ pair, Record.excluded pair ∉ l.history)
    (lenient : l.settings.strategy = .edsm ∨ l.settings.strategy = .rpni)
    (front : b ∈ l.graph.frontier) (red : l.graph.colour? q = some .red)
    (same : meaning b = meaning q) :
    ∃ s m, l.settings.strategy.score l.graph ⟨b, q⟩ = .ok (s, m) ∧ l.Eligible ⟨b, q⟩ s := by
  have foldable : l.graph.Foldable ⟨b, q⟩ := fringed.foldable front red
  obtain ⟨s, m, scored⟩ := Strategy.exists_score foldable l.settings.strategy
  refine ⟨s, m, scored, Graph.mem_frontier.mp front, red, free _, ⟨m, scored⟩, ?_⟩
  rw [← Bool.not_eq_false, Strategy.isCompatible_eq_false_iff foldable lenient scored]
  exact labelled.not_clashes same

/-- The best pair does not lie behind a provisional state, as its twin would be better. -/
theorem Best.not_provisional (best : l.Best pair s) (fringed : l.graph.Fringed)
    (guided : Graph.Guided ref cover seen meaning l.graph)
    (char : ref.Characteristic cover seen) (free : ∀ pair, Record.excluded pair ∉ l.history)
    (lenient : l.settings.strategy = .edsm ∨ l.settings.strategy = .rpni)
    (red : l.graph.colour? q = some .red) (child : l.graph.transition q a = some pair.blue) :
    ¬ Graph.Provisional ref cover meaning l.graph v q := by
  intro waits
  obtain ⟨b, twin, front, same⟩ := guided.exists_twin char red waits
  obtain ⟨s', m', scored', eligible'⟩ :=
    exists_eligible fringed guided.labelled free lenient front red same
  obtain ⟨m, scored⟩ := best.1.scored
  have foldable := fringed.foldable (Graph.mem_frontier.mpr best.1.blue) best.1.red
  have foldable' : l.graph.Foldable ⟨b, q⟩ := fringed.foldable front red
  obtain ⟨folds, paired, -⟩ := Strategy.folds_of_compatible foldable scored best.1.compatible
  obtain ⟨folds', paired', -⟩ :=
    Strategy.folds_of_compatible foldable' scored' eligible'.compatible
  have nearer := guided.rank_lt char fringed red waits twin child
  have more := guided.size_lt char fringed red waits twin eligible'.blue.2 folds' paired' folds
    (paired ▸ child)
  have before := Strategy.pairRank_lt lenient foldable foldable' scored scored' best.1.compatible
    eligible'.compatible more nearer
  refine lt_asymm before (best.2 _ s' eligible' ?_)
  rintro rfl
  exact lt_irrefl _ nearer

theorem Best.same_meaning (best : l.Best pair s) (fringed : l.graph.Fringed)
    (guided : Graph.Guided ref cover seen meaning l.graph)
    (char : ref.Characteristic cover seen) (free : ∀ pair, Record.excluded pair ∉ l.history)
    (lenient : l.settings.strategy = .edsm ∨ l.settings.strategy = .rpni) :
    meaning pair.blue = meaning pair.red := by
  obtain ⟨⟨⟨r, a, source, child⟩, white⟩, red, -, ⟨m, scored⟩, compatible⟩ := best.1
  have foldable := fringed.foldable (Graph.mem_frontier.mpr best.1.blue) red
  have settled : ∀ v, ¬ Graph.Provisional ref cover meaning l.graph v r :=
    fun v => best.not_provisional fringed guided char free lenient source child
  by_contra ne
  have clashes := guided.clashes char fringed settled child red ne
  rw [← Strategy.isCompatible_eq_false_iff foldable lenient scored, compatible] at clashes
  cases clashes

/-- A state that is promoted stands for something new, and nothing is provisional by then. -/
theorem Guided.promote (guided : l.Guided ref cover seen meaning)
    (char : ref.Characteristic cover seen) (fringed : l.graph.Fringed)
    (free : ∀ pair, Record.excluded pair ∉ l.history)
    (lenient : l.settings.strategy = .edsm ∨ l.settings.strategy = .rpni)
    (late : l.settings.promotion = .whenStuck) (greedy : l.Greedy (.promoted q)) :
    (l.recoloured.promote q).2.Guided ref cover seen meaning := by
  rw [Greedy, late] at greedy
  obtain ⟨stuck, front⟩ := greedy
  have settled : ∀ v r, l.graph.colour? r = some .red →
      ¬ Graph.Provisional ref cover meaning l.graph v r := by
    intro v r red waits
    obtain ⟨b, -, twin, same⟩ := guided.guided.exists_twin char red waits
    obtain ⟨s, -, -, eligible⟩ :=
      exists_eligible fringed guided.guided.labelled free lenient twin red same
    exact stuck _ s eligible
  have new : ∀ r, l.graph.colour? r = some .red → meaning q ≠ meaning r := by
    intro r red same
    obtain ⟨s, -, -, eligible⟩ := exists_eligible fringed guided.guided.labelled free lenient
      (Graph.mem_frontier.mpr front.1) red same
    exact stuck _ s eligible
  have mem : q ∈ l.graph.recolour := by
    obtain ⟨⟨r, a, -, child⟩, -⟩ := front.1
    exact fringed.recolour.1.closed r a q (by rw [Graph.transition_recolour, child])
  refine ⟨guided.free, ?_, fun chosen merged phase => by cases phase⟩
  refine guided.guided.promote (by rfl) (fun q a => ?_) (fun q => ?_) (fun q => ?_) char fringed
    settled front new fun r => ?_
  · exact Graph.transition_setColour.trans Graph.transition_recolour
  · exact Graph.accepting?_setColour.trans Graph.accepting?_recolour
  · exact Graph.depth?_setColour.trans Graph.depth?_recolour
  · exact (Graph.colour?_setColour_eq_red mem).trans (or_congr_right Graph.colour?_recolour_eq_red)

theorem Guided.recolour (guided : l.Guided ref cover seen meaning) :
    Graph.Guided ref cover seen meaning l.graph.recolour :=
  guided.guided.repaint (by rfl) (fun _ _ => Graph.transition_recolour)
    (fun _ => Graph.accepting?_recolour) (fun _ => Graph.depth?_recolour)
    fun _ => Graph.colour?_recolour_eq_red

omit [LawfulEqOrd α] in
theorem Guided.begin (guided : l.Guided ref cover seen meaning)
    (char : ref.Characteristic cover seen) (initial : l.graph.initial ∈ l.graph) :
    l.begin.Guided ref cover seen meaning := by
  refine ⟨guided.free, ?_, fun chosen merged phase => by cases phase⟩
  refine guided.guided.toGrounded.begin (by rfl) (fun q a => ?_) (fun q => ?_) (fun q => ?_) char
    fun q => Graph.colour?_begin initial
  · exact Graph.transition_setColour.trans Graph.transition_clearColours
  · exact Graph.accepting?_setColour.trans
      (Graph.accepting?_mapStates_of_accepting fun _ _ => rfl)
  · exact Graph.depth?_setColour.trans Graph.depth?_clearColours

variable [Oracle ω α] {out : Except (LearnError α) Step}

theorem Move.guided (coherent : l.Coherent) (guided : l.Guided ref cover seen meaning)
    (char : ref.Characteristic cover seen)
    (lenient : l.settings.strategy = .edsm ∨ l.settings.strategy = .rpni)
    (late : l.settings.promotion = .whenStuck) (unasked : l.settings.questions = none)
    (move : l.Move out l') : l'.Guided ref cover seen meaning := by
  have sound := coherent.sound
  rw [Sound] at sound
  have free : ∀ pair, Record.excluded pair ∉ l.history :=
    fun pair h => guided.free pair ((coherent.remembers pair).mpr h)
  cases move with
  | begin phase =>
      rw [phase] at sound
      exact guided.begin char sound.initial
  | finish => exact ⟨guided.free, guided.recolour, fun chosen merged phase => by cases phase⟩
  | hasten _ _ waiting =>
      simp only [Settings.waiting?, late] at waiting
      cases waiting
  | @weigh scored choices =>
      refine ⟨guided.free, guided.recolour, fun chosen merged phase => ?_⟩
      cases choices <;> cases phase
  | suspend => exact ⟨guided.free, guided.guided, guided.measured⟩
  | choose phase made =>
      rw [phase] at sound
      obtain ⟨fringed, -, fits⟩ := sound
      refine ⟨guided.free, guided.guided, fun chosen merged chosen' => ?_⟩
      obtain ⟨rfl, rfl⟩ := Phase.merge.inj chosen'
      obtain ⟨merged', made', merges⟩ := exists_merge fringed (fits _ List.mem_cons_self)
      obtain rfl := Except.ok.inj (made.symm.trans made')
      have front := (fits _ List.mem_cons_self).paired ▸ (fits _ List.mem_cons_self).blue
      refine Graph.measured_of_merge made merges.closed_merged ?_
      rw [merges.initial]
      exact merges.mem_of_red fringed front fringed.rooted
  | exclude _ _ asked =>
      simp only [questionsFor, unasked, Inquiry.passes] at asked
      cases asked
  | commit phase =>
      have best := (Move.greedy coherent (.commit phase)).1
      rw [phase] at sound
      obtain ⟨fringed, _, fits, merges⟩ := sound
      have same := best.same_meaning fringed guided.guided char free lenient
      refine ⟨guided.free, ?_, fun chosen merged phase => by cases phase⟩
      refine guided.guided.merge merges fringed (fits.paired ▸ fits.blue) (fits.paired ▸ same) ?_
        (guided.measured _ _ phase)
      intro v q a red waits child
      rw [fits.paired] at child
      exact best.not_provisional fringed guided.guided char free lenient red child waits
  | promote phase front =>
      have greedy := Move.greedy coherent (.promote phase front)
      rw [phase] at sound
      exact guided.promote char sound.1 free lenient late greedy
  | rest => exact guided

/-! ### Whole runs -/

omit [TransOrd α] [LawfulEqOrd α] [Oracle ω α] in
theorem Accounts.iterations_lt {n : Nat} (accounts : l.Accounts n)
    (initial : l.graph.initial ∈ l.graph) : l.iterations < n := by
  by_cases begun : l.phase = .initial
  · obtain ⟨fresh, size⟩ := accounts.fresh begun
    have counted := accounts.counted
    have pos := List.length_pos_of_mem (Graph.mem_stateIds.mpr initial)
    rw [Graph.length_stateIds] at pos
    rw [fresh, List.countP_nil, List.countP_nil] at counted
    omega
  · have budget := accounts.budget begun
    omega

/-- A run whose oracle answers is given up at the limit of its settings, or not at all. -/
theorem advance_outcome (coherent : l.Coherent) (answers : Oracle.Answers α l.inquiry.oracle)
    (steps : Nat) :
    let ended := l.advance (fun _ => false) steps
    ended.1 = .ok () ∨ ended.1 = .error (.iterationLimit ended.2.iterations) ∧
      l.settings.maxIterations ≤ ended.2.iterations := by
  induction steps generalizing l with
  | zero => exact .inl rfl
  | succ steps ih =>
      rw [advance]
      by_cases done : l.phase.isDone = true
      · rw [if_pos done]
        exact .inl rfl
      · rw [if_neg done, stopBefore, if_neg Bool.false_ne_true]
        by_cases limit : l.settings.maxIterations ≤ l.iterations
        · rw [if_pos limit]
          exact .inr ⟨rfl, limit⟩
        · obtain ⟨⟨s, fine⟩, answers'⟩ := coherent.move.exists_ok answers
          have later := ih coherent.step answers'
          rw [coherent.move.settings_eq] at later
          rw [if_neg limit, ← Prod.mk.eta (p := l.step), fine]
          exact later

theorem Guided.advance {n : Nat} (guided : l.Guided ref cover seen meaning)
    (coherent : l.Coherent) (accounts : l.Accounts n) (char : ref.Characteristic cover seen)
    (lenient : l.settings.strategy = .edsm ∨ l.settings.strategy = .rpni)
    (late : l.settings.promotion = .whenStuck) (unasked : l.settings.questions = none)
    (stop : Learner α ω → Bool) (steps : Nat) :
    (l.advance stop steps).2.Coherent ∧ (l.advance stop steps).2.Accounts n ∧
      (l.advance stop steps).2.Guided ref cover seen meaning := by
  have kept := advance_induct (l := l)
    (P := fun l' => l'.settings = l.settings ∧ l'.Coherent ∧ l'.Accounts n ∧
      l'.Guided ref cover seen meaning) stop steps ⟨rfl, coherent, accounts, guided⟩
  refine (kept ?_).2
  rintro l' ⟨same, coherent', accounts', guided'⟩ - -
  have move := coherent'.move
  refine ⟨move.settings_eq.trans same, coherent'.step, move.accounts coherent' accounts', ?_⟩
  exact move.guided coherent' guided' char (same ▸ lenient) (same ▸ late) (same ▸ unasked)

omit [Oracle ω α] in
theorem Guided.difference_eq_none (guided : l.Guided ref cover seen meaning)
    (char : ref.Characteristic cover seen) (sound : l.Sound) (ended : l.phase = .done) :
    l.graph.difference ref = none := by
  rw [Sound, ended] at sound
  obtain ⟨fringed, none_left⟩ := sound
  exact Graph.difference_eq_none_iff.mpr (guided.guided.accepts_eq char fringed.closed
    fringed.initial_mem (fringed.red_of_frontier_empty none_left))

end Learner

omit [LawfulEqOrd α] in
theorem Graph.Grounded.guided {g : Graph α} (grounded : Graph.Grounded ref seen meaning g)
    (plain : ∀ q c, g.colour? q = some c → c = .uncoloured) :
    Graph.Guided ref cover seen meaning g := by
  have white : ∀ {q}, g.colour? q ≠ some .red := fun h => by cases plain _ _ h
  exact ⟨grounded, fun _ _ h => absurd h white, fun _ _ h => absurd h white,
    fun _ _ h => absurd h white, fun _ _ _ _ h => absurd h white⟩

theorem Graph.RootedTree.exists_grounded {g : Graph α} (rooted : g.RootedTree)
    (char : ref.Characteristic cover seen) (levelled : g.Levelled)
    (words : ∀ w, w ∈ seen ↔ ∃ q, g.run w = some q)
    (flags : ∀ w q, g.run w = some q → g.accepting? q = some (ref.accepts w)) :
    ∃ meaning, Graph.Grounded ref seen meaning g := by
  obtain ⟨meaning, labelled⟩ := rooted.exists_labelled flags fun w a q run =>
    char.observed w a ((words _).mpr ⟨q, run⟩)
  refine ⟨meaning, labelled, fun w => (words w).mp, fun q hq => ?_, levelled.measured⟩
  obtain ⟨w, run⟩ := rooted.reached q hq
  exact ⟨w, (words w).mpr ⟨q, run⟩, run⟩

omit [LawfulEqOrd α] in
theorem learn_eq {sample : Sample α} {settings : Settings α} {start : Learner α (Informant α)}
    (created : Learner.ofSample sample settings .silent = .ok start) :
    learn sample settings = start.run.1.map fun _ => start.run.2.graph := by
  rw [learn, created]
  simp only [bind, Except.bind]
  rcases start.run with ⟨_ | _, _⟩ <;> rfl

/-- A search that is shown a characteristic sample ends with a graph that is equivalent to the
reference, unless it is given up. -/
theorem learn_of_characteristic {sample : Sample α} {settings : Settings α} {tree : PrefixTree α}
    (char : ref.Characteristic cover seen)
    (made : PrefixTree.ofTraces settings.conflicts sample.traces = .ok tree)
    (rooted : tree.graph.RootedTree) (levelled : tree.graph.Levelled)
    (words : ∀ w, w ∈ seen ↔ ∃ q, tree.graph.run w = some q)
    (flags : ∀ w q, tree.graph.run w = some q →
      tree.graph.accepting? q = some (ref.accepts w))
    (lenient : settings.strategy = .edsm ∨ settings.strategy = .rpni)
    (late : settings.promotion = .whenStuck) (unasked : settings.questions = none) :
    (∃ g, learn sample settings = .ok g ∧ g.difference ref = none) ∨
      ∃ n, learn sample settings = .error (.iterationLimit n) ∧ settings.maxIterations ≤ n ∧
        n < tree.graph.size := by
  have created : ∃ start : Learner α (Informant α),
      Learner.ofSample sample settings .silent = .ok start ∧ start.graph = tree.graph := by
    rw [Learner.ofSample, made]
    exact ⟨_, rfl, rfl⟩
  obtain ⟨start, created, same⟩ := created
  obtain ⟨coherent, rfl, phase, fresh⟩ := Learner.coherent_of_ofSample created
  obtain ⟨inquiry, none_yet⟩ := Learner.inquiry_of_ofSample created
  have answers : Oracle.Answers α start.inquiry.oracle := by
    rw [inquiry]
    exact Informant.answers_of_isReliable rfl
  have accounts : start.Accounts tree.graph.size := by
    constructor <;> simp [phase, fresh, none_yet, same]
  obtain ⟨meaning, grounded⟩ := rooted.exists_grounded char levelled words flags
  have guided : start.Guided ref cover seen meaning := by
    refine ⟨fun pair h => ?_, same ▸ grounded.guided rooted.plain, fun chosen merged h => ?_⟩
    · have listed := (coherent.remembers pair).mp h
      rw [fresh] at listed
      cases listed
    · rw [phase] at h
      cases h
  obtain ⟨coherent', accounts', guided'⟩ := guided.advance coherent accounts char lenient late
    unasked (fun _ => false) start.stepBound
  rcases Learner.advance_outcome coherent answers start.stepBound with fine | ⟨stopped, limit⟩
  · have done := Phase.eq_done
      (Learner.isDone_of_advance coherent coherent.sound.potential_le fine)
    refine .inl ⟨start.run.2.graph, ?_, guided'.difference_eq_none char coherent'.sound done⟩
    rw [learn_eq created, Learner.run, Learner.runUnless, fine]
    rfl
  · refine .inr ⟨start.run.2.iterations, ?_, limit,
      accounts'.iterations_lt coherent'.sound.initial_mem⟩
    rw [learn_eq created, Learner.run, Learner.runUnless, stopped]
    rfl

end BlueFringe
