import BlueFringe.Graph.Basic

/-!
# What the operations on graphs do to the views

One lemma for each operation and view. Statements about graphs use these and never unfold the
tables.
-/

namespace BlueFringe.Graph

open Std

variable {α : Type} [Ord α] {g : Graph α} {q p : StateId} {a b : α}

/-! ### Views in terms of the record of a state -/

theorem mem_iff_isSome : q ∈ g ↔ (g.state? q).isSome = true :=
  ExtTreeMap.mem_iff_isSome_getElem?

theorem mem_iff_exists : q ∈ g ↔ ∃ s, g.state? q = some s := by
  rw [mem_iff_isSome, Option.isSome_iff_exists]

theorem notMem_iff : q ∉ g ↔ g.state? q = none := by
  rw [mem_iff_isSome, Bool.not_eq_true, Option.isSome_eq_false_iff, Option.isNone_iff_eq_none]

@[simp] theorem mem_stateIds : q ∈ g.stateIds ↔ q ∈ g := ExtTreeMap.mem_keys

theorem nodup_stateIds : g.stateIds.Nodup :=
  ExtTreeMap.distinct_keys.imp fun {_ _} h e => h (by rw [e]; exact ReflCmp.compare_self)

@[simp] theorem length_stateIds : g.stateIds.length = g.size := ExtTreeMap.length_keys

@[simp] theorem mem_coloured {colour : Colour} :
    q ∈ g.coloured colour ↔ g.colour? q = some colour := by
  simp only [coloured, List.mem_filter, mem_stateIds, decide_eq_true_eq, and_iff_right_iff_imp]
  intro h
  rw [mem_iff_isSome]
  cases hs : g.state? q <;> simp_all [colour?]

theorem accepting?_isSome : (g.accepting? q).isSome = true ↔ q ∈ g := by
  rw [mem_iff_isSome, accepting?, Option.isSome_map]

/-- Graphs with equal views are equal. -/
theorem ext_state? {g h : Graph α} (states : ∀ q, g.state? q = h.state? q)
    (initial : g.initial = h.initial) (nextIndex : g.nextIndex = h.nextIndex) : g = h := by
  cases g; cases h
  simp_all only [state?]
  congr
  exact ExtTreeMap.ext_getElem? states

theorem row_of_notMem (h : q ∉ g) : g.row q = ∅ := by
  rw [row, notMem_iff.mp h]; rfl

section Transitions

variable [TransOrd α]

theorem transition_of_notMem (h : q ∉ g) : g.transition q a = none := by
  rw [transition, row_of_notMem h]; exact ExtTreeMap.getElem?_empty

theorem mem_of_transition (h : g.transition q a = some p) : q ∈ g := by
  by_cases hq : q ∈ g
  · exact hq
  · rw [transition_of_notMem hq] at h; cases h

theorem mem_edges [LawfulEqOrd α] : (a, p) ∈ g.edges q ↔ g.transition q a = some p :=
  ExtTreeMap.mem_toList_iff_getElem?_eq_some

theorem mem_targets [LawfulEqOrd α] : p ∈ g.targets q ↔ ∃ a, g.transition q a = some p := by
  simp only [targets, List.mem_map, Prod.exists, mem_edges, exists_eq_right]

/-- The transitions of a state strictly ascend by label. -/
theorem edges_pairwise : (g.edges q).Pairwise fun e f => compare e.1 f.1 = .lt :=
  ExtTreeMap.ordered_keys_toList

theorem isLeaf_iff [LawfulEqOrd α] : g.isLeaf q = true ↔ ∀ a, g.transition q a = none := by
  rw [isLeaf, List.isEmpty_iff]
  constructor
  · intro h a
    cases ht : g.transition q a with
    | none => rfl
    | some p => have := mem_edges.mpr ht; rw [h] at this; cases this
  · intro h
    refine List.eq_nil_iff_forall_not_mem.mpr fun e he => ?_
    have := mem_edges.mp he
    rw [h] at this; cases this

theorem mem_alphabet [LawfulEqOrd α] : a ∈ g.alphabet ↔ ∃ q p, g.transition q a = some p := by
  simp only [alphabet, mem_distinctBy, List.mem_flatMap, mem_stateIds, List.mem_map, Prod.exists,
    mem_edges, exists_and_right, exists_eq_right]
  exact ⟨fun ⟨q, _, p, h⟩ => ⟨q, p, h⟩, fun ⟨q, p, h⟩ => ⟨q, mem_of_transition h, p, h⟩⟩

theorem foldl_size_edges {entries : List (StateId × State α)} {count : Nat}
    (h : ∀ entry ∈ entries, g.state? entry.1 = some entry.2) :
    entries.foldl (fun count entry => count + entry.2.edges.size) count =
      count + ((entries.map (·.1)).flatMap g.edges).length := by
  induction entries generalizing count with
  | nil => rfl
  | cons entry rest ih =>
    have head : (g.edges entry.1).length = entry.2.edges.size := by
      simp [edges, row, h entry List.mem_cons_self, ExtTreeMap.length_toList]
    simp [ih fun e he => h e (List.mem_cons_of_mem entry he), head, Nat.add_assoc]

/-- The number of transitions is that of the transitions of all states. -/
theorem transitionCount_eq : g.transitionCount = (g.stateIds.flatMap g.edges).length := by
  rw [transitionCount, ExtTreeMap.foldl_eq_foldl_toList, stateIds,
    ← ExtTreeMap.map_fst_toList_eq_keys, foldl_size_edges, Nat.zero_add]
  exact fun entry h => ExtTreeMap.mem_toList_iff_getElem?_eq_some.mp h

end Transitions

/-! ### Changing one record -/

variable {change : State α → State α}

theorem state?_update :
    (g.update q change).state? p = if q = p then (g.state? q).map change else g.state? p := by
  simp only [update, state?, ExtTreeMap.getElem?_modify, LawfulEqCmp.compare_eq_iff_eq]

@[simp] theorem mem_update : p ∈ g.update q change ↔ p ∈ g := by
  simp only [mem_iff_isSome, state?_update]
  split
  · rename_i h; subst h; simp
  · rfl

@[simp] theorem size_update : (g.update q change).size = g.size := ExtTreeMap.size_modify

@[simp] theorem nextIndex_update : (g.update q change).nextIndex = g.nextIndex := rfl

/-- A change that keeps the transitions keeps all transitions. -/
theorem row_update_of_edges (keep : ∀ s, (change s).edges = s.edges) :
    (g.update q change).row p = g.row p := by
  simp only [row, state?_update]
  split
  · rename_i h; subst h
    cases g.state? q <;> simp [keep]
  · rfl

/-- A change that keeps the acceptance keeps that of all states. -/
theorem accepting?_update_of_accepting (keep : ∀ s, (change s).accepting = s.accepting) :
    (g.update q change).accepting? p = g.accepting? p := by
  simp only [accepting?, state?_update]
  split
  · rename_i h; subst h
    cases g.state? q <;> simp [keep]
  · rfl

/-- A change that keeps some part of a record keeps that part of all records. -/
theorem map_state?_update {β : Type} {part : State α → β} (keep : ∀ s, part (change s) = part s) :
    ((g.update q change).state? p).map part = (g.state? p).map part := by
  rw [state?_update]
  split
  · rename_i h
    subst h
    rw [Option.map_map]
    exact congrArg (fun f => (g.state? q).map f) (funext keep)
  · rfl

/-! ### Adding states -/

theorem state?_insertState {s : State α} :
    (g.insertState q s).state? p = if q = p then some s else g.state? p := by
  simp only [insertState, state?, ExtTreeMap.getElem?_insert, LawfulEqCmp.compare_eq_iff_eq]

@[simp] theorem mem_insertState {s : State α} : p ∈ g.insertState q s ↔ q = p ∨ p ∈ g := by
  simp only [mem_iff_isSome, state?_insertState]
  split <;> simp_all

theorem state?_empty : (empty p : Graph α).state? q = none := ExtTreeMap.getElem?_empty

theorem state?_single {accepting : Bool} : (single accepting : Graph α).state? q =
    if (⟨0⟩ : StateId) = q then some { accepting } else none := by
  rw [single, addState, state?_insertState, state?_empty]
  rfl

theorem mem_single {accepting : Bool} : q ∈ (single accepting : Graph α) ↔ (⟨0⟩ : StateId) = q := by
  rw [mem_iff_isSome, state?_single]
  split <;> simp_all

theorem accepting?_single {accepting : Bool} :
    (single accepting : Graph α).accepting? ⟨0⟩ = some accepting := by
  rw [accepting?, state?_single]
  rfl

/-! ### Colours and flags -/

@[simp] theorem accepting?_setColour {colour : Colour} :
    (g.setColour q colour).accepting? p = g.accepting? p :=
  accepting?_update_of_accepting fun _ => rfl

theorem colour?_setColour {colour : Colour} : (g.setColour q colour).colour? p =
    if q = p then (g.state? q).map (fun _ => colour) else g.colour? p := by
  simp only [colour?, setColour, state?_update]
  split <;> simp [Function.comp_def]

@[simp] theorem colour?_setAccepting {accepting : Bool} :
    (g.setAccepting q accepting).colour? p = g.colour? p :=
  map_state?_update fun _ => rfl

@[simp] theorem depth?_setAccepting {accepting : Bool} :
    (g.setAccepting q accepting).depth? p = g.depth? p :=
  map_state?_update fun _ => rfl

theorem accepting?_setAccepting {accepting : Bool} : (g.setAccepting q accepting).accepting? p =
    if q = p then (g.state? q).map (fun _ => accepting) else g.accepting? p := by
  simp only [accepting?, setAccepting, state?_update]
  split <;> simp [Function.comp_def]

@[simp] theorem depth?_setColour {colour : Colour} :
    (g.setColour q colour).depth? p = g.depth? p :=
  map_state?_update fun _ => rfl

/-! ### Changing all records -/

section MapStates

variable {change : StateId → State α → State α}

theorem state?_mapStates : (g.mapStates change).state? q = (g.state? q).map (change q) := by
  simp only [mapStates, state?, ExtTreeMap.getElem?_map]

@[simp] theorem mem_mapStates : q ∈ g.mapStates change ↔ q ∈ g := by
  simp only [mem_iff_isSome, state?_mapStates, Option.isSome_map]

@[simp] theorem size_mapStates : (g.mapStates change).size = g.size := ExtTreeMap.size_map

/-- A change that keeps some part of every record keeps that part. -/
theorem map_state?_mapStates {β : Type} {part : State α → β}
    (keep : ∀ q s, part (change q s) = part s) :
    ((g.mapStates change).state? q).map part = (g.state? q).map part := by
  rw [state?_mapStates, Option.map_map]
  exact congrArg (fun f => (g.state? q).map f) (funext (keep q))

/-- A change that keeps the acceptance keeps that of all states. -/
theorem accepting?_mapStates_of_accepting (keep : ∀ q s, (change q s).accepting = s.accepting) :
    (g.mapStates change).accepting? q = g.accepting? q := by
  simp only [accepting?, state?_mapStates, Option.map_map]
  cases g.state? q <;> simp [keep]

/-- A change that keeps the transitions keeps all transitions. -/
theorem row_mapStates_of_edges (keep : ∀ q s, (change q s).edges = s.edges) :
    (g.mapStates change).row q = g.row q := by
  simp only [row, state?_mapStates, Option.map_map]
  cases g.state? q <;> simp [keep]

end MapStates

theorem state?_clearColours :
    g.clearColours.state? q = (g.state? q).map fun s => { s with colour := .uncoloured } :=
  state?_mapStates

@[simp] theorem depth?_clearColours : g.clearColours.depth? q = g.depth? q :=
  map_state?_mapStates fun _ _ => rfl

theorem state?_redirect {old new : StateId} : (g.redirect old new).state? q =
    (g.state? q).map fun s =>
      { s with edges := s.edges.map fun _ target => if target = old then new else target } :=
  state?_mapStates

@[simp] theorem accepting?_redirect {old new : StateId} :
    (g.redirect old new).accepting? q = g.accepting? q :=
  map_state?_mapStates fun _ _ => rfl

@[simp] theorem colour?_redirect {old new : StateId} :
    (g.redirect old new).colour? q = g.colour? q :=
  map_state?_mapStates fun _ _ => rfl

@[simp] theorem mem_redirect {old new : StateId} : q ∈ g.redirect old new ↔ q ∈ g := mem_mapStates

/-! ### Removing states -/

theorem state?_eraseAll {removed : List StateId} :
    (g.eraseAll removed).state? q = if q ∈ removed then none else g.state? q := by
  have fold : ∀ (removed : List StateId) (states : ExtTreeMap StateId (State α) compare),
      (removed.foldl (fun states q => states.erase q) states)[q]? =
        if q ∈ removed then none else states[q]? := by
    intro removed
    induction removed with
    | nil => simp
    | cons p rest ih =>
      intro states
      rw [List.foldl_cons, ih, ExtTreeMap.getElem?_erase]
      by_cases hq : q ∈ rest
      · simp [hq]
      · by_cases hp : p = q
        · simp [hp]
        · simp [hq, hp, Ne.symm hp]
  exact fold removed g.states

@[simp] theorem mem_eraseAll {removed : List StateId} :
    q ∈ g.eraseAll removed ↔ q ∈ g ∧ q ∉ removed := by
  simp only [mem_iff_isSome, state?_eraseAll]
  split <;> simp_all

theorem accepting?_eraseAll {removed : List StateId} (h : q ∉ removed) :
    (g.eraseAll removed).accepting? q = g.accepting? q := by
  rw [accepting?, state?_eraseAll, if_neg h, accepting?]

theorem colour?_eraseAll {removed : List StateId} (h : q ∉ removed) :
    (g.eraseAll removed).colour? q = g.colour? q := by
  rw [colour?, state?_eraseAll, if_neg h, colour?]

/-! ### Transitions after an operation -/

variable [TransOrd α]

theorem transition_update_of_edges (keep : ∀ s, (change s).edges = s.edges) :
    (g.update q change).transition p a = g.transition p a :=
  congrArg (fun row : Row α => row[a]?) (row_update_of_edges keep)

theorem transition_mapStates_of_edges {change : StateId → State α → State α}
    (keep : ∀ q s, (change q s).edges = s.edges) :
    (g.mapStates change).transition q a = g.transition q a :=
  congrArg (fun row : Row α => row[a]?) (row_mapStates_of_edges keep)

@[simp] theorem transition_clearColours : g.clearColours.transition q a = g.transition q a :=
  transition_mapStates_of_edges fun _ _ => rfl

@[simp] theorem transition_setColour {colour : Colour} :
    (g.setColour q colour).transition p a = g.transition p a :=
  transition_update_of_edges fun _ => rfl

@[simp] theorem transition_setAccepting {accepting : Bool} :
    (g.setAccepting q accepting).transition p a = g.transition p a :=
  transition_update_of_edges fun _ => rfl

theorem transition_insertState {s : State α} :
    (g.insertState q s).transition p a = if q = p then s.edges[a]? else g.transition p a := by
  simp only [transition, row, state?_insertState]
  split <;> rfl

theorem transition_single {accepting : Bool} :
    (single accepting : Graph α).transition q a = none := by
  rw [transition, row, state?_single]
  split <;> exact ExtTreeMap.getElem?_empty

@[simp] theorem mem_setTarget {r : StateId} : r ∈ g.setTarget q a p ↔ r ∈ g := mem_update

@[simp] theorem accepting?_setTarget {r : StateId} :
    (g.setTarget q a p).accepting? r = g.accepting? r :=
  accepting?_update_of_accepting fun _ => rfl

@[simp] theorem colour?_setTarget {r : StateId} :
    (g.setTarget q a p).colour? r = g.colour? r :=
  map_state?_update fun _ => rfl

@[simp] theorem depth?_setTarget {r : StateId} :
    (g.setTarget q a p).depth? r = g.depth? r :=
  map_state?_update fun _ => rfl

theorem transition_setTarget_self (h : q ∈ g) :
    (g.setTarget q a p).transition q a = some p := by
  obtain ⟨s, hs⟩ := mem_iff_exists.mp h
  simp [setTarget, transition, row, state?_update, hs]

theorem transition_setTarget_of_ne [LawfulEqOrd α] {r : StateId} (h : q ≠ r ∨ a ≠ b) :
    (g.setTarget q a p).transition r b = g.transition r b := by
  simp only [setTarget, transition, row, state?_update]
  by_cases hr : q = r
  · subst hr
    have hab : a ≠ b := h.resolve_left fun e => e rfl
    cases g.state? q <;>
      simp [ExtTreeMap.getElem?_insert, LawfulEqCmp.compare_eq_iff_eq, hab]
  · simp [hr]

theorem transition_redirect [LawfulEqOrd α] {old new : StateId} :
    (g.redirect old new).transition q a =
      (g.transition q a).map fun target => if target = old then new else target := by
  simp only [transition, row, state?_redirect]
  cases g.state? q <;> simp [ExtTreeMap.getElem?_map]

theorem transition_eraseAll {removed : List StateId} :
    (g.eraseAll removed).transition q a = if q ∈ removed then none else g.transition q a := by
  simp only [transition, row, state?_eraseAll]
  split <;> simp

/-! ### Sprouting -/

section Sprout

variable {depth : Nat} {accepting : Bool}

@[simp] theorem mem_sprout :
    p ∈ g.sprout q depth a accepting ↔ g.fresh = p ∨ p ∈ g := by
  rw [sprout, mem_setTarget, mem_insertState]

theorem size_sprout_le : (g.sprout q depth a accepting).size ≤ g.size + 1 := by
  rw [sprout, setTarget, size_update]
  exact ExtTreeMap.size_insert_le

theorem nextIndex_sprout : (g.sprout q depth a accepting).nextIndex = g.nextIndex + 1 := by
  rw [sprout, setTarget, nextIndex_update]
  exact Nat.max_eq_right (Nat.le_succ _)

theorem transition_sprout_self (h : q ∈ g) :
    (g.sprout q depth a accepting).transition q a = some g.fresh :=
  transition_setTarget_self (mem_insertState.mpr (Or.inr h))

theorem transition_sprout_of_ne [LawfulEqOrd α] (new : g.fresh ∉ g) (h : q ≠ p ∨ a ≠ b) :
    (g.sprout q depth a accepting).transition p b = g.transition p b := by
  rw [sprout, transition_setTarget_of_ne h, transition_insertState]
  split
  · rename_i same
    rw [← same, transition_of_notMem new]
    exact ExtTreeMap.getElem?_empty
  · rfl

theorem accepting?_sprout : (g.sprout q depth a accepting).accepting? p =
    if g.fresh = p then some accepting else g.accepting? p := by
  rw [sprout, accepting?_setTarget, accepting?, state?_insertState, accepting?]
  split <;> rfl

theorem colour?_sprout : (g.sprout q depth a accepting).colour? p =
    if g.fresh = p then some .uncoloured else g.colour? p := by
  rw [sprout, colour?_setTarget, colour?, state?_insertState, colour?]
  split <;> rfl

theorem depth?_sprout : (g.sprout q depth a accepting).depth? p =
    if g.fresh = p then some depth else g.depth? p := by
  rw [sprout, depth?_setTarget, depth?, state?_insertState, depth?]
  split <;> rfl

end Sprout

end BlueFringe.Graph
