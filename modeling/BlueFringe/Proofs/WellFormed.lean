import BlueFringe.Graph.Blueprint
import BlueFringe.Proofs.Merging
import BlueFringe.Proofs.RootedTree
import BlueFringe.Proofs.Traversals

/-!
# Well-formed graphs

In a well-formed graph the initial state exists, every transition leads to a state, and identities
ascend. Blueprints make such graphs and the operations keep them so. That holds for merges too, even
by an identification that was computed for another graph: the identification decides what is handed
over, but what is cut away follows from the tree below the blue state.
-/

namespace BlueFringe

open Std

variable {α : Type} [Ord α] [TransOrd α]

namespace Graph

/-- The initial state exists, transitions lead to states, and the identity that the next new state
gets lies above all others. -/
structure WellFormed (g : Graph α) : Prop where
  initial : g.initial ∈ g
  closed : g.Closed
  ascending : ∀ q ∈ g, q.index < g.nextIndex

variable {g g' : Graph α} {pair : StatePair} {m : Identification} {q p r : StateId} {a : α}

theorem RootedTree.wellFormed (tree : g.RootedTree) : g.WellFormed :=
  ⟨tree.initial, tree.closed, tree.ascending⟩

/-! ### The index of the next new state -/

omit [TransOrd α] in
theorem nextIndex_setDepths {entries : List (StateId × Nat)} :
    (setDepths entries g).nextIndex = g.nextIndex := by
  induction entries with
  | nil => rfl
  | cons entry rest ih => exact ih

@[simp] theorem nextIndex_recomputeDepths : g.recomputeDepths.nextIndex = g.nextIndex :=
  nextIndex_setDepths

theorem nextIndex_take {s : Grafted α} {edge : α × StateId} :
    (s.take r edge).graph.nextIndex = s.graph.nextIndex := by
  unfold Grafted.take
  split <;> rfl

theorem nextIndex_takeAll {s : Grafted α} {offers : List (Offer α)} :
    (s.takeAll offers).graph.nextIndex = s.graph.nextIndex := by
  induction offers generalizing s with
  | nil => rfl
  | cons o rest ih => exact ih.trans nextIndex_take

theorem nextIndex_graft {start : Graph α} :
    (g.graft m start).graph.nextIndex = start.nextIndex := by
  rw [graft_eq]
  exact nextIndex_takeAll

/-! ### Adding states and transitions -/

omit [TransOrd α] in
theorem ascending_insertState {s : State α} (ascending : ∀ q ∈ g, q.index < g.nextIndex) :
    ∀ p ∈ g.insertState q s, p.index < (g.insertState q s).nextIndex := by
  intro p mem
  rcases mem_insertState.mp mem with rfl | old
  · exact Nat.le_max_right ..
  · exact Nat.lt_of_lt_of_le (ascending p old) (Nat.le_max_left ..)

theorem Closed.insertState {s : State α} (closed : g.Closed) (bare : s.edges = ∅) :
    (g.insertState q s).Closed := by
  intro r a p h
  rw [transition_insertState, bare] at h
  split at h
  · rw [ExtTreeMap.getElem?_empty] at h
    cases h
  · exact mem_insertState.mpr (.inr (closed r a p h))

theorem Closed.recomputeDepths (closed : g.Closed) : g.recomputeDepths.Closed := by
  intro q a p h
  rw [transition_recomputeDepths] at h
  exact mem_recomputeDepths.mpr (closed q a p h)

namespace WellFormed

omit [TransOrd α] in
theorem fresh_notMem (ascending : ∀ q ∈ g, q.index < g.nextIndex) : g.fresh ∉ g :=
  fun mem => Nat.lt_irrefl g.nextIndex (ascending g.fresh mem)

theorem insertState {s : State α} (wf : g.WellFormed) (bare : s.edges = ∅) :
    (g.insertState q s).WellFormed :=
  ⟨mem_insertState.mpr (.inr wf.initial), wf.closed.insertState bare,
    ascending_insertState wf.ascending⟩

/-- A change that leaves transitions alone breaks nothing. -/
theorem of_views (wf : g.WellFormed) (initial : g'.initial = g.initial)
    (mem : ∀ q, q ∈ g' ↔ q ∈ g) (transition : ∀ q a, g'.transition q a = g.transition q a)
    (next : g'.nextIndex = g.nextIndex) : g'.WellFormed := by
  refine ⟨(mem _).mpr (initial ▸ wf.initial), fun q a p h => ?_, fun q hq => ?_⟩
  · rw [transition] at h
    exact (mem p).mpr (wf.closed q a p h)
  · rw [next]
    exact wf.ascending q ((mem q).mp hq)

theorem recomputeDepths (wf : g.WellFormed) : g.recomputeDepths.WellFormed :=
  wf.of_views initial_recomputeDepths (fun _ => mem_recomputeDepths)
    (fun _ _ => transition_recomputeDepths) nextIndex_recomputeDepths

variable [LawfulEqOrd α]

theorem setTarget (wf : g.WellFormed) (mem : p ∈ g) : (g.setTarget q a p).WellFormed := by
  refine ⟨mem_setTarget.mpr wf.initial, fun r b t h => ?_,
    fun r hr => wf.ascending r (mem_setTarget.mp hr)⟩
  rw [mem_setTarget]
  by_cases same : q = r ∧ a = b
  · obtain ⟨rfl, rfl⟩ := same
    rw [transition_setTarget_self (mem_setTarget.mp (mem_of_transition h))] at h
    exact Option.some.inj h ▸ mem
  · rw [not_and_or] at same
    rw [transition_setTarget_of_ne same] at h
    exact wf.closed r b t h

theorem addTransition (wf : g.WellFormed) (h : g.addTransition q a p = .ok g') :
    g'.WellFormed ∧ g'.nextIndex = g.nextIndex := by
  rw [Graph.addTransition] at h
  split at h
  · cases h
  split at h
  · cases h
  rename_i known
  split at h
  · cases h
    exact ⟨wf.setTarget (not_not.mp known), rfl⟩
  · split at h
    · cases h
      exact ⟨wf, rfl⟩
    · cases h

end WellFormed

/-! ### Merging by any identification -/

/-- What a merge makes of a graph, before the depths are set. -/
def contraction (g : Graph α) (pair : StatePair) (m : Identification) : Graph α :=
  let grafted := g.graft m (g.redirect pair.blue pair.red)
  grafted.graph.eraseAll (g.cut pair.blue grafted.moved)

theorem merge_eq (accepted : g.mergeViolation? pair m = none) : g.merge pair m =
    if g.initial ∈ g.contraction pair m then .ok (g.contraction pair m).recomputeDepths
    else .error (.initialRemoved g.initial) := by
  rw [merge, accepted]
  rfl

theorem mergeViolation?_ne_initialRemoved :
    g.mergeViolation? pair m ≠ some (.initialRemoved q) := by
  unfold mergeViolation?
  split
  · simp
  split
  · simp
  split
  · simp
  split
  · simp
  split <;> simp

variable [LawfulEqOrd α]

/-- What is certain of a merge that is not refused. -/
theorem of_mergeViolation?_eq_none (accepted : g.mergeViolation? pair m = none) :
    m.pair = pair ∧ (∀ entry ∈ m.entries, entry.1 ∈ g ∧ entry.2 ∈ g) ∧
      ¬ g.Reaches pair.blue pair.red ∧ g.TreeFrom pair.blue := by
  unfold mergeViolation? at accepted
  split at accepted
  · cases accepted
  rename_i same
  split at accepted
  · cases accepted
  split at accepted
  · cases accepted
  split at accepted
  · cases accepted
  rename_i known
  split at accepted
  · cases accepted
  rename_i straight
  rw [Bool.or_eq_true, decide_eq_true_iff, Bool.not_eq_true', not_or, mem_reachable,
    Bool.not_eq_false, isTreeFrom_iff] at straight
  refine ⟨not_not.mp same, fun entry mem => ?_, straight.1, straight.2⟩
  have both : ∀ q ∈ [entry.1, entry.2], q ∈ g := fun q hq => by
    simpa using List.find?_eq_none.mp known q (List.mem_flatMap.mpr ⟨entry, mem, hq⟩)
  exact ⟨both _ (by simp), both _ (by simp)⟩

/-- Only what hangs below the blue state is cut away, with all of it that leads there, and nothing
that was moved. -/
theorem of_mem_cut {moved : List StateId} (mem : q ∈ g.cut p moved) :
    g.Reaches p q ∧ q ∉ moved ∧
      (q ≠ p → ∃ r ∈ g.cut p moved, ∃ a, g.transition r a = some q) := by
  have known : ∀ s t, Search.Leads (fun q => (g.edges q).filter fun edge => edge.2 ∉ moved) s t ↔
      t ∉ moved ∧ ∃ a, g.transition s a = some t := by
    intro s t
    simp only [Search.Leads, List.mem_filter, mem_edges, decide_eq_true_eq]
    tauto
  rw [cut] at mem ⊢
  split_ifs at mem ⊢ with whole
  · cases mem
  have reached : ∀ t, t ∈ Search.reached (fun q => (g.edges q).filter fun edge => edge.2 ∉ moved)
      (g.transitionCount + 1) p ↔ _ := fun t => Search.mem_reached
    (fun s t h => mem_allTargets ((known s t).mp h).2.choose_spec) (card_allTargets_lt g)
  rw [reached] at mem
  induction mem with
  | refl => exact ⟨.refl g p, whole, fun ne => absurd rfl ne⟩
  | @tail s t steps leads ih =>
      obtain ⟨free, a, ha⟩ := (known s t).mp leads
      exact ⟨ih.1.tail ha, free, fun _ => ⟨s, (reached s).mpr steps, a, ha⟩⟩

theorem Closed.contraction (closed : g.Closed) (entry : (pair.blue, pair.red) ∈ m.entries)
    (accepted : g.mergeViolation? pair m = none) :
    (g.contraction pair m).Closed ∧
      (∀ q, q ∈ g.contraction pair m → q ∈ g) ∧
      (∀ q ∈ g, ¬ g.Reaches pair.blue q → q ∈ g.contraction pair m) ∧
      (g.contraction pair m).initial = g.initial ∧
      (g.contraction pair m).nextIndex = g.nextIndex := by
  obtain ⟨_, known, apart, tree⟩ := of_mergeViolation?_eq_none accepted
  have taken : Taken g (g.redirect pair.blue pair.red) (g.offers m.entries)
      (g.graft m (g.redirect pair.blue pair.red)) := taken_graft fun entry he => (known entry he).2
  have redirected : ∀ r a, (g.redirect pair.blue pair.red).transition r a =
      (g.transition r a).map pair.redirect := fun r a => transition_redirect
  rw [Graph.contraction]
  set grafted := g.graft m (g.redirect pair.blue pair.red)
  have mem : ∀ q, q ∈ grafted.graph.eraseAll (g.cut pair.blue grafted.moved) ↔
      q ∈ g ∧ q ∉ g.cut pair.blue grafted.moved := by
    intro q
    rw [mem_eraseAll, taken.mem, mem_redirect]
  refine ⟨fun r a t h => ?_, fun q hq => ((mem q).mp hq).1, fun q hq far => ?_, taken.initial, ?_⟩
  · obtain ⟨hr, stays⟩ := (mem r).mp (mem_of_transition h)
    rw [transition_eraseAll, if_neg stays, taken.transition r hr, redirected] at h
    rw [mem]
    cases old : g.transition r a with
    | some s =>
        rw [old, Option.map_some, Option.some_or, Option.some.injEq, StatePair.redirect] at h
        split_ifs at h with blue
        · rw [← h]
          exact ⟨(known _ entry).2, fun cut => apart (of_mem_cut cut).1⟩
        · -- The only transition into a state that is cut away starts at one that is cut away too.
          rw [← h]
          refine ⟨closed r a s old, fun cut => ?_⟩
          obtain ⟨below, _, parent⟩ := of_mem_cut cut
          obtain ⟨r', gone, b, hb⟩ := parent blue
          exact stays ((tree.parent r' b r a s below blue hb old).1 ▸ gone)
    | none =>
        rw [old, Option.map_none, Option.none_or] at h
        obtain ⟨o, ho, _, _, rfl⟩ := exists_of_firstOffer (heir_eq_some.mp h).2
        refine ⟨closed _ _ _ (mem_offers.mp ho).2, fun cut => ?_⟩
        exact (of_mem_cut cut).2.1 ((taken.moved _).mpr ⟨r, a, h⟩)
  · exact (mem q).mpr ⟨hq, fun cut => far (of_mem_cut cut).1⟩
  · exact nextIndex_graft

/-- A merge takes states away and leaves no transition without a target. -/
theorem Closed.merge (closed : g.Closed) (entry : (m.pair.blue, m.pair.red) ∈ m.entries)
    (h : g.merge pair m = .ok g') :
    g'.initial ∈ g' ∧ g'.Closed ∧ (∀ q ∈ g', q ∈ g) ∧ g'.nextIndex = g.nextIndex := by
  cases accepted : g.mergeViolation? pair m with
  | some violation =>
      rw [Graph.merge, accepted] at h
      cases h
  | none =>
      rw [(of_mergeViolation?_eq_none accepted).1] at entry
      obtain ⟨closed', old, _, initial, next⟩ := closed.contraction entry accepted
      rw [merge_eq accepted] at h
      split_ifs at h with present
      cases h
      refine ⟨mem_recomputeDepths.mpr ?_, closed'.recomputeDepths, fun q mem => ?_,
        nextIndex_recomputeDepths.trans next⟩
      · rw [initial_recomputeDepths, initial]
        exact present
      · exact old q (mem_recomputeDepths.mp mem)

theorem WellFormed.merge (wf : g.WellFormed) (entry : (m.pair.blue, m.pair.red) ∈ m.entries)
    (h : g.merge pair m = .ok g') : g'.WellFormed ∧ g'.nextIndex = g.nextIndex := by
  obtain ⟨initial, closed, old, next⟩ := wf.closed.merge entry h
  exact ⟨⟨initial, closed, fun q mem => next ▸ wf.ascending q (old q mem)⟩, next⟩

/-- A merge that is not refused succeeds, unless the initial state hangs below the blue one. -/
theorem WellFormed.exists_merge (wf : g.WellFormed)
    (entry : (m.pair.blue, m.pair.red) ∈ m.entries) (rooted : ¬ g.Reaches pair.blue g.initial)
    (accepted : g.mergeViolation? pair m = none) : ∃ merged, g.merge pair m = .ok merged := by
  rw [(of_mergeViolation?_eq_none accepted).1] at entry
  obtain ⟨_, _, stays, _⟩ := wf.closed.contraction entry accepted
  rw [merge_eq accepted, if_pos (stays _ wf.initial rooted)]
  exact ⟨_, rfl⟩

end Graph

/-! ### Blueprints -/

namespace Blueprint

open BlueFringe.Graph

variable {b : Blueprint α} {initial : Nat} {g : Graph α}

theorem wellFormed_stateTable : (b.stateTable initial).WellFormed := by
  -- From any graph on, states without transitions are added.
  have fold : ∀ (numbers : List Nat) (g : Graph α), g.Closed →
      (∀ q ∈ g, q.index < g.nextIndex) →
      let table := numbers.foldl
        (fun g q => g.insertState ⟨q⟩ { accepting := b.flagOf q }) g
      table.Closed ∧ (∀ q ∈ table, q.index < table.nextIndex) ∧ table.initial = g.initial ∧
        (∀ q ∈ g, q ∈ table) ∧ ∀ n ∈ numbers, ⟨n⟩ ∈ table := by
    intro numbers
    induction numbers with
    | nil => exact fun g closed ascending => ⟨closed, ascending, rfl, fun _ => id, by simp⟩
    | cons n rest ih =>
        intro g closed ascending
        obtain ⟨closed', ascending', initial', kept, added⟩ :=
          ih (g.insertState ⟨n⟩ { accepting := b.flagOf n }) (closed.insertState rfl)
            (ascending_insertState ascending)
        refine ⟨closed', ascending', initial', fun q mem => kept q (mem_insertState.mpr (.inr mem)),
          List.forall_mem_cons.mpr ⟨kept _ (mem_insertState.mpr (.inl rfl)), added⟩⟩
  have bare : ∀ q, q ∉ (Graph.empty ⟨initial⟩ : Graph α) := fun q => notMem_iff.mpr state?_empty
  obtain ⟨closed, ascending, same, _, added⟩ :=
    fold (distinctBy compare (initial :: b.named)) (Graph.empty ⟨initial⟩)
      (fun q a p h => absurd (mem_of_transition h) (bare q)) (fun q mem => absurd mem (bare q))
  refine ⟨?_, closed, ascending⟩
  rw [stateTable, same]
  exact added initial (mem_distinctBy.mpr List.mem_cons_self)

variable [LawfulEqOrd α]

theorem wellFormed_toGraph (made : b.toGraph initial = .ok g) : g.WellFormed := by
  have fold : ∀ (edges : List (Nat × α × Nat)) (g g' : Graph α), g.WellFormed →
      edges.foldlM (fun g edge => g.addTransition ⟨edge.1⟩ edge.2.1 ⟨edge.2.2⟩) g = .ok g' →
        g'.WellFormed := by
    intro edges
    induction edges with
    | nil =>
        intro g g' wf h
        cases h
        exact wf
    | cons edge rest ih =>
        intro g g' wf h
        rw [List.foldlM_cons, bind_eq_ok] at h
        obtain ⟨g₁, first, h⟩ := h
        exact ih g₁ g' (wf.addTransition first).1 h
  rw [toGraph, bind_eq_ok] at made
  obtain ⟨g₁, added, made⟩ := made
  obtain rfl := Except.ok.inj made
  exact (fold b.edges _ _ wellFormed_stateTable added).recomputeDepths

end Blueprint

end BlueFringe
