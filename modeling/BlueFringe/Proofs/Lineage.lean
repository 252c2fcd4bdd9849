import BlueFringe.Proofs.WellFormed

/-!
# Lineages of graphs

Graphs are made from one state or from a blueprint and then changed in place by operations, which
can be refused. Whatever is done to a graph, it stays well formed, and a new state never gets an
identity that some graph before had given to another one, whether that one still exists or not.
-/

namespace BlueFringe

open Std

variable {α : Type} [Ord α] [TransOrd α]

/-! ### Operations -/

/-- Scoring a pair of some graph has made the identification. -/
def Identification.Computed (m : Identification) : Prop :=
  ∃ (β : Type) (_ : Ord β) (_ : TransOrd β) (_ : LawfulEqOrd β) (strategy : Strategy)
    (g : Graph β) (pair : StatePair) (s : Score), strategy.score g pair = .ok (s, m)

theorem Identification.Computed.pair_mem {m : Identification} (computed : m.Computed) :
    (m.pair.blue, m.pair.red) ∈ m.entries := by
  obtain ⟨β, _, _, _, strategy, g, pair, s, scored⟩ := computed
  obtain ⟨f, folded, _, rfl⟩ := Strategy.score_eq_ok.mp scored
  obtain ⟨f₀, walk, same⟩ := Folding.exists_walk_entries folded
  exact same ▸ List.mem_of_mem_head? walk.booked.first

/-- What can be done to a graph. -/
inductive Operation (α : Type) where
  | addState (accepting : Bool)
  | addChild (parent : StateId) (label : α) (accepting : Bool)
  | addTransition (q : StateId) (label : α) (target : StateId)
  | setColour (q : StateId) (colour : Colour)
  | clearColours
  | recomputeDepths
  /-- Merges a pair. The identification may have been computed for another graph. -/
  | merge (pair : StatePair) (m : Identification) (computed : m.Computed)

/-- Why an operation is refused. -/
inductive Refusal (α : Type) where
  | graph (error : GraphError α)
  | merge (violation : Violation)

/-- A change of a graph in place. What was changed before a refusal stays changed. -/
abbrev Change (α : Type) [Ord α] := EStateM (Refusal α) (Graph α)

omit [TransOrd α] in
@[simp] theorem Change.run_throw {β : Type} {refusal : Refusal α} {g : Graph α} :
    (throw refusal : Change α β).run g = .error refusal g := rfl

namespace Operation

open BlueFringe.Graph

/-- Adds a state in place and answers with its identity. -/
def newState (accepting : Bool) : Change α StateId := do
  let q := (← get).fresh
  modify (·.addState accepting)
  return q

/-- What an operation does to the graph, step by step. It answers with the state that it adds, if
any. A merge makes a graph of its own, which takes the place of the one before. -/
def steps : Operation α → Change α (Option StateId)
  | addState accepting => do return some (← newState accepting)
  | addChild parent label accepting => do
    let some depth := (← get).depth? parent | throw (.graph (.unknownState parent))
    if let some existing := (← get).transition parent label then
      throw (.graph (.nondeterministic parent label existing (← get).fresh))
    let child ← newState accepting
    modify (·.setDepth child (depth + 1))
    modify (·.setTarget parent label child)
    return some child
  | addTransition q label target => do
    if q ∉ (← get) then
      throw (.graph (.unknownState q))
    if target ∉ (← get) then
      throw (.graph (.unknownState target))
    match (← get).transition q label with
    | none => modify (·.setTarget q label target)
    | some existing =>
      if existing ≠ target then
        throw (.graph (.nondeterministic q label existing target))
    return none
  | setColour q colour => do
    modify (·.setColour q colour)
    return none
  | clearColours => do
    modify (·.clearColours)
    return none
  | recomputeDepths => do
    modify (·.recomputeDepths)
    return none
  | merge pair m _ => do
    match (← get).merge pair m with
    | .ok merged => set merged
    | .error violation => throw (.merge violation)
    return none

/-- What an operation answers, and the graph from then on. -/
def perform (g : Graph α) (op : Operation α) : Except (Refusal α) (Option StateId) × Graph α :=
  match op.steps.run g with
  | .ok added g' => (.ok added, g')
  | .error refusal g' => (.error refusal, g')

variable {g : Graph α} {op : Operation α} {parent q target : StateId} {label : α}
  {accepting : Bool} {pair : StatePair} {m : Identification}

/-! ### Nothing is changed before a refusal -/

/-- Puts a graph in the place of another one, if it could be made. -/
def replace {ε : Type} (g : Graph α) (added : Option StateId) (refuse : ε → Refusal α) :
    Except ε (Graph α) → Except (Refusal α) (Option StateId) × Graph α
  | .ok g' => (.ok added, g')
  | .error e => (.error (refuse e), g)

omit [TransOrd α] in
theorem replace_of_error {ε : Type} {added : Option StateId} {refuse : ε → Refusal α}
    {made : Except ε (Graph α)} {refusal : Refusal α}
    (h : (replace g added refuse made).1 = .error refusal) :
    (replace g added refuse made).2 = g := by
  cases made with
  | ok g' => cases h
  | error e => rfl

theorem sprout_eq {depth : Nat} : g.sprout parent depth label accepting =
    ((g.addState accepting).setDepth g.fresh depth).setTarget parent label g.fresh := by
  have deep : g.insertState g.fresh { accepting, depth } =
      (g.addState accepting).setDepth g.fresh depth := by
    refine ext_state? (fun q => ?_) rfl rfl
    rw [setDepth, state?_update, Graph.addState, state?_insertState, state?_insertState]
    by_cases here : g.fresh = q <;> simp [here, state?_insertState]
  rw [sprout, deep]

theorem perform_addChild : (addChild parent label accepting).perform g =
    replace g (some g.fresh) .graph (g.addChild parent label accepting) := by
  rw [Graph.addChild]
  cases depth : g.depth? parent with
  | none => simp [perform, replace, steps, depth]
  | some depth' =>
      cases old : g.transition parent label with
      | none => simp [perform, replace, steps, newState, depth, old, sprout_eq, -bind_pure_comp]
      | some existing => simp [perform, replace, steps, depth, old]

theorem perform_addTransition : (addTransition q label target).perform g =
    replace g none .graph (g.addTransition q label target) := by
  rw [Graph.addTransition]
  by_cases source : q ∈ g
  · by_cases known : target ∈ g
    · cases old : g.transition q label with
      | none => simp [perform, replace, steps, source, known, old, -bind_pure_comp]
      | some existing =>
          by_cases same : existing = target <;>
            simp [perform, replace, steps, source, known, old, same, -bind_pure_comp]
    · simp [perform, replace, steps, source, known]
  · simp [perform, replace, steps, source]

theorem perform_merge {computed : m.Computed} :
    (merge pair m computed).perform g = replace g none .merge (g.merge pair m) := by
  cases made : g.merge pair m <;> simp [perform, replace, steps, made, -bind_pure_comp]

theorem perform_of_error {refusal : Refusal α} (h : (op.perform g).1 = .error refusal) :
    (op.perform g).2 = g := by
  cases op with
  | addChild parent label accepting =>
      rw [perform_addChild] at h ⊢
      exact replace_of_error h
  | addTransition q label target =>
      rw [perform_addTransition] at h ⊢
      exact replace_of_error h
  | merge pair m computed =>
      rw [perform_merge] at h ⊢
      exact replace_of_error h
  | addState | setColour | clearColours | recomputeDepths => cases h

/-! ### No operation makes a malformed graph -/

variable [LawfulEqOrd α]

theorem wellFormed_addChild {g' : Graph α} (wf : g.WellFormed)
    (h : g.addChild parent label accepting = .ok g') :
    g'.WellFormed ∧ g.nextIndex ≤ g'.nextIndex ∧ g.fresh ∈ g' := by
  rw [Graph.addChild] at h
  split at h
  · cases h
  split at h
  · cases h
  cases h
  refine ⟨?_, ?_, mem_sprout.mpr (.inl rfl)⟩
  · exact (wf.insertState rfl).setTarget (mem_insertState.mpr (.inl rfl))
  · rw [nextIndex_sprout]
    exact Nat.le_succ _

/-- No operation takes an identity back either, and the state that it adds has a new one. -/
theorem perform_spec (wf : g.WellFormed) (op : Operation α) :
    (op.perform g).2.WellFormed ∧ g.nextIndex ≤ (op.perform g).2.nextIndex ∧
      ∀ q, (op.perform g).1 = .ok (some q) → q = g.fresh ∧ q ∈ (op.perform g).2 := by
  have plain : ∀ {answer : Except (Refusal α) (Option StateId)} {g' : Graph α}, g'.WellFormed →
      g'.nextIndex = g.nextIndex → (∀ q, answer ≠ .ok (some q)) → g'.WellFormed ∧
        g.nextIndex ≤ g'.nextIndex ∧ ∀ q, answer = .ok (some q) → q = g.fresh ∧ q ∈ g' :=
    fun wf' next none_added => ⟨wf', next.ge, fun q h => absurd h (none_added q)⟩
  cases op with
  | addState accepting =>
      refine ⟨wf.insertState rfl, Nat.le_max_left .., ?_⟩
      rintro q ⟨⟩
      exact ⟨rfl, mem_insertState.mpr (.inl rfl)⟩
  | addChild parent label accepting =>
      rw [perform_addChild]
      cases made : g.addChild parent label accepting with
      | error e => exact plain wf rfl nofun
      | ok g' =>
          obtain ⟨wf', next, new⟩ := wellFormed_addChild wf made
          refine ⟨wf', next, ?_⟩
          rintro q ⟨⟩
          exact ⟨rfl, new⟩
  | addTransition q label target =>
      rw [perform_addTransition]
      cases made : g.addTransition q label target with
      | error e => exact plain wf rfl nofun
      | ok g' =>
          obtain ⟨wf', next⟩ := wf.addTransition made
          exact plain wf' next nofun
  | setColour q colour =>
      have wf' : (g.setColour q colour).WellFormed :=
        wf.of_views rfl (fun _ => mem_update) (fun _ _ => transition_setColour) rfl
      exact plain wf' rfl nofun
  | clearColours =>
      have wf' : g.clearColours.WellFormed :=
        wf.of_views rfl (fun _ => mem_mapStates) (fun _ _ => transition_clearColours) rfl
      exact plain wf' rfl nofun
  | recomputeDepths => exact plain wf.recomputeDepths nextIndex_recomputeDepths nofun
  | merge pair m computed =>
      rw [perform_merge]
      cases made : g.merge pair m with
      | error violation => exact plain wf rfl nofun
      | ok g' =>
          obtain ⟨wf', next⟩ := wf.merge computed.pair_mem made
          exact plain wf' next nofun

end Operation

/-! ### Lineages -/

/-- A graph together with those that it descends from. A graph can be copied, so it may have several
descendants. -/
inductive Lineage : Graph α → List (Graph α) → Prop where
  | single (accepting : Bool) : Lineage (.single accepting) []
  | blueprint {b : Blueprint α} {initial : Nat} {g : Graph α} :
    b.toGraph initial = .ok g → Lineage g []
  | perform {g : Graph α} {earlier : List (Graph α)} (op : Operation α) :
    Lineage g earlier → Lineage (op.perform g).2 (g :: earlier)

variable [LawfulEqOrd α] {g : Graph α} {earlier : List (Graph α)}

/-- The identities of all states that a lineage ever had lie below the next new one. -/
theorem Lineage.spec (lineage : Lineage g earlier) :
    g.WellFormed ∧ ∀ h ∈ g :: earlier, ∀ q ∈ h, q.index < g.nextIndex := by
  induction lineage with
  | single accepting =>
      have wf := (Graph.RootedTree.single (α := α) accepting).wellFormed
      exact ⟨wf, List.forall_mem_singleton.mpr wf.ascending⟩
  | blueprint made =>
      have wf := Blueprint.wellFormed_toGraph made
      exact ⟨wf, List.forall_mem_singleton.mpr wf.ascending⟩
  | perform op _ ih =>
      obtain ⟨wf, before⟩ := ih
      obtain ⟨wf', next, _⟩ := op.perform_spec wf
      refine ⟨wf', List.forall_mem_cons.mpr ⟨wf'.ascending, fun h mem q hq => ?_⟩⟩
      exact Nat.lt_of_lt_of_le (before h mem q hq) next

/-- Whatever was done to a graph, its initial state exists and its transitions lead to states. A new
state gets an identity that no graph of the lineage has ever had, and an operation that is refused
changes nothing. A merge that is not refused names only states of the graph, and it never takes the
initial state away, unless that one hangs below the blue state. -/
theorem lineage_never_malformed (lineage : Lineage g earlier) :
    (g.initial ∈ g ∧ g.Closed) ∧
      (∀ (op : Operation α) g' q, op.perform g = (.ok (some q), g') →
        q ∈ g' ∧ ∀ h ∈ g :: earlier, q ∉ h) ∧
      (∀ (op : Operation α) refusal, (op.perform g).1 = .error refusal → (op.perform g).2 = g) ∧
      ∀ pair (m : Identification), m.Computed → ¬ g.Reaches pair.blue g.initial →
        (∀ q, g.merge pair m ≠ .error (.initialRemoved q)) ∧
          (g.mergeViolation? pair m = none → (∀ entry ∈ m.entries, entry.1 ∈ g ∧ entry.2 ∈ g) ∧
            ∃ merged, g.merge pair m = .ok merged) := by
  obtain ⟨wf, before⟩ := lineage.spec
  refine ⟨⟨wf.initial, wf.closed⟩, fun op g' q h => ?_,
    fun op refusal => Operation.perform_of_error,
    fun pair m computed rooted => ⟨fun q h => ?_, fun accepted => ?_⟩⟩
  · obtain ⟨_, _, added⟩ := op.perform_spec wf
    rw [h] at added
    obtain ⟨rfl, mem⟩ := added q rfl
    exact ⟨mem, fun h' mem' known => Nat.lt_irrefl _ (before h' mem' _ known)⟩
  · cases accepted : g.mergeViolation? pair m with
    | some violation =>
        rw [Graph.merge, accepted] at h
        cases h
        exact Graph.mergeViolation?_ne_initialRemoved accepted
    | none =>
        obtain ⟨merged, made⟩ := wf.exists_merge computed.pair_mem rooted accepted
        cases h.symm.trans made
  · exact ⟨(Graph.of_mergeViolation?_eq_none accepted).2.1,
      wf.exists_merge computed.pair_mem rooted accepted⟩

/-- A path of eight transitions with different labels. -/
def ladder : Graph Nat :=
  (List.range 8).foldl (fun g n => ((Operation.addChild ⟨n⟩ n true).perform g).2) (.single true)

/-- The identification that scoring makes of a pair in another graph of as many states. -/
def foreign : Identification :=
  ⟨⟨⟨1⟩, ⟨0⟩⟩, [(⟨1⟩, ⟨0⟩), (⟨3⟩, ⟨0⟩), (⟨4⟩, ⟨2⟩), (⟨5⟩, ⟨0⟩), (⟨6⟩, ⟨2⟩), (⟨8⟩, ⟨7⟩)], false⟩

theorem foreign_computed : foreign.Computed :=
  ⟨Nat, _, inferInstance, inferInstance, .edsm, sapling, ⟨⟨1⟩, ⟨0⟩⟩, .compatible 5 2,
    by decide +kernel⟩

/-- The path is no tree after the merge, but it is not malformed, and the identity of the state that
the merge took away is not used again. -/
theorem ladder_merged : ∃ merged earlier,
    ladder.merge ⟨⟨1⟩, ⟨0⟩⟩ foreign = .ok merged ∧ Lineage merged (ladder :: earlier) ∧
      merged.isTreeFrom ⟨0⟩ = false ∧ ⟨1⟩ ∉ merged ∧ (⟨0⟩ ∈ merged ∧ merged.Closed) ∧
      ((Operation.addState true).perform merged).1 = .ok (some ⟨9⟩) ∧
      ∀ h ∈ merged :: ladder :: earlier, ⟨9⟩ ∉ h := by
  have facts : (ladder.merge ⟨⟨1⟩, ⟨0⟩⟩ foreign).map (fun merged => (merged.isTreeFrom ⟨0⟩,
      decide (⟨1⟩ ∈ merged), merged.initial, merged.fresh)) = .ok (false, false, ⟨0⟩, ⟨9⟩) := by
    decide +kernel
  have grown : ∀ ns : List Nat, ∃ earlier, Lineage (ns.foldl
      (fun g n => ((Operation.addChild ⟨n⟩ n true).perform g).2) (.single true)) earlier := by
    intro ns
    induction ns using List.reverseRecOn with
    | nil => exact ⟨[], .single true⟩
    | append_singleton ns n ih =>
        obtain ⟨earlier, lineage⟩ := ih
        rw [List.foldl_append]
        exact ⟨_, lineage.perform _⟩
  obtain ⟨earlier, lineage⟩ := grown (List.range 8)
  cases made : ladder.merge ⟨⟨1⟩, ⟨0⟩⟩ foreign with
  | error violation =>
      rw [made] at facts
      cases facts
  | ok merged =>
      rw [made] at facts
      simp only [Except.map, Except.ok.injEq, Prod.mk.injEq, decide_eq_false_iff_not] at facts
      obtain ⟨bent, gone, initial, fresh⟩ := facts
      let op : Operation Nat := .merge ⟨⟨1⟩, ⟨0⟩⟩ foreign foreign_computed
      have performed : (op.perform ladder).2 = merged := by
        rw [Operation.perform_merge, made]
        rfl
      have descends : Lineage merged (ladder :: earlier) := performed ▸ lineage.perform op
      obtain ⟨sound, new, _⟩ := lineage_never_malformed descends
      rw [initial] at sound
      have answer : ((Operation.addState true).perform merged).1 = .ok (some ⟨9⟩) := by
        rw [← fresh]
        rfl
      exact ⟨merged, earlier, rfl, descends, bent, gone, sound, answer,
        (new (.addState true) _ ⟨9⟩ (Prod.ext answer rfl)).2⟩

end BlueFringe
