import BlueFringe.Proofs.Search

/-!
# Breadth-first search goes in shortlex order

If the steps of everything ascend by label, the search meets the words that lead somewhere in
shortlex order, and the word that it keeps for a thing is the least one that leads there. The reason
is that whatever has entered the queue comes before all words that go on from the queue.
-/

namespace BlueFringe.Search

open Std

variable {α σ : Type}

/-- A word leads from the origin to something, one step for each label. -/
inductive Spells (next : σ → List (α × σ)) (origin : σ) : Word α → σ → Prop where
  | nil : Spells next origin [] origin
  | concat {w : Word α} {s t : σ} {a : α} :
      Spells next origin w s → (a, t) ∈ next s → Spells next origin (w ++ [a]) t

/-- The steps of everything have different labels, in ascending order. -/
def Ascending [Ord α] (next : σ → List (α × σ)) : Prop :=
  ∀ s, (next s).Pairwise fun e f => compare e.1 f.1 = .lt

/-- Trails are ordered like the words that they spell. -/
def trailOrder [Ord α] (u v : List α) : Ordering := Word.shortlex u.reverse v.reverse

variable {next : σ → List (α × σ)} {u v trail : List α} {a b : α} {w : Word α}
  {steps : List (α × σ)} {earlier queue : List (List α × σ)} {origin s t : σ}

/-! ### Words along the search -/

section Spells

variable [Ord σ] [TransOrd σ] {seen : ExtTreeSet σ compare} {bound : Nat}

theorem spells_of_mem_visit (waiting : ∀ e ∈ queue, Spells next origin e.1.reverse e.2)
    {e : List α × σ} (h : e ∈ visit next bound seen queue) :
    Spells next origin e.1.reverse e.2 := by
  induction bound generalizing seen queue with
  | zero => cases h
  | succ bound ih =>
      cases queue with
      | nil => cases h
      | cons entry queue =>
          obtain ⟨trail, s⟩ := entry
          obtain ⟨here, waiting⟩ := List.forall_mem_cons.mp waiting
          rcases List.mem_cons.mp h with rfl | later
          · exact here
          · refine ih (fun f hf => ?_) later
            rcases List.mem_append.mp hf with hf | hf
            · exact waiting f hf
            · obtain ⟨a, ha, step⟩ := exists_step_of_mem_discover hf
              rw [ha, List.reverse_cons]
              exact here.concat step

theorem spells_of_mem_breadthFirst (h : (w, s) ∈ breadthFirst next bound origin) :
    Spells next origin w s := by
  obtain ⟨e, he, same⟩ := List.mem_map.mp h
  obtain ⟨rfl, rfl⟩ := Prod.mk.inj same
  refine spells_of_mem_visit (fun f hf => ?_) he
  rw [List.mem_singleton.mp hf]
  exact .nil

/-- The entry that is visited moves over to what was visited. -/
theorem append_visit_succ : earlier ++ visit next (bound + 1) seen ((trail, s) :: queue) =
    (earlier ++ [(trail, s)]) ++ visit next bound (discover trail (next s) seen).2
      (queue ++ (discover trail (next s) seen).1) := by
  rw [List.append_assoc]
  rfl

end Spells

variable [Ord α]

/-! ### The order of trails -/

instance [TransOrd α] : TransCmp (@trailOrder α _) where
  eq_swap {u v} := OrientedCmp.eq_swap (a := u.reverse) (b := v.reverse)
  isLE_trans {u v _} h h' := TransCmp.isLE_trans (a := u.reverse) (b := v.reverse) h h'

theorem trailOrder_cons : trailOrder (a :: u) (b :: v) = (trailOrder u v).then (compare a b) := by
  rw [trailOrder, List.reverse_cons, List.reverse_cons, Word.shortlex_concat]
  rfl

theorem trailOrder_cons_of_lt (h : trailOrder u v = .lt) : trailOrder (a :: u) (b :: v) = .lt := by
  rw [trailOrder_cons, h]
  rfl

theorem trailOrder_lt_cons : trailOrder u (a :: u) = .lt :=
  Word.shortlex_of_length_lt (by simp)

variable [TransOrd α]

theorem trailOrder_cons_self : trailOrder (a :: u) (b :: u) = compare a b := by
  have same : trailOrder u u = .eq := ReflCmp.compare_self
  rw [trailOrder_cons, same]
  rfl

theorem isLE_cons (h : (trailOrder u v).isLE) : (trailOrder (a :: u) (a :: v)).isLE := by
  have same : compare a a = .eq := ReflCmp.compare_self
  rwa [trailOrder_cons, same, Ordering.then_eq]

variable [Ord σ] [TransOrd σ] {seen : ExtTreeSet σ compare} {bound : Nat}

/-! ### Discovering targets in order -/

theorem discover_pairwise (ascending : steps.Pairwise fun e f => compare e.1 f.1 = .lt) :
    (discover trail steps seen).1.Pairwise fun e f => trailOrder e.1 f.1 = .lt := by
  obtain ⟨kept, sub, found⟩ := exists_sublist_discover trail steps seen
  rw [found, List.pairwise_map]
  exact (ascending.sublist sub).imp fun h => trailOrder_cons_self.trans h

variable [LawfulEqOrd σ]

/-- The first step to a target that is new is the one that is kept. -/
theorem exists_mem_discover (trail : List α)
    (ascending : steps.Pairwise fun e f => compare e.1 f.1 = .lt) (step : (a, t) ∈ steps)
    (new : t ∉ seen) :
    ∃ b, (b :: trail, t) ∈ (discover trail steps seen).1 ∧ (compare b a).isLE := by
  induction steps generalizing seen with
  | nil => cases step
  | cons first rest ih =>
      obtain ⟨c, s⟩ := first
      obtain ⟨below, ascending⟩ := List.pairwise_cons.mp ascending
      by_cases same : s = t
      · subst same
        refine ⟨c, ?_, ?_⟩
        · rw [discover, if_neg new]
          exact List.mem_cons_self
        · rcases List.mem_cons.mp step with he | later
          · rw [(Prod.mk.inj he).1]
            exact ReflCmp.isLE_rfl
          · rw [below _ later]
            rfl
      · have later : (a, t) ∈ rest :=
          (List.mem_cons.mp step).resolve_left fun he => same (Prod.mk.inj he).2.symm
        by_cases hs : s ∈ seen
        · rw [discover, if_pos hs]
          exact ih ascending later new
        · have unseen : t ∉ seen.insert s := by
            rw [mem_insert_seen]
            rintro (he | ht)
            · exact same he.symm
            · exact new ht
          obtain ⟨b, hb, le⟩ := ih ascending later unseen
          refine ⟨b, ?_, le⟩
          rw [discover, if_neg hs]
          exact List.mem_cons_of_mem _ hb

/-! ### The search on its way -/

/-- What was visited and what waits in the queue, as one list of all that has entered the queue: it
ascends, it comes before whatever goes on from the queue, and it holds all that was seen. -/
structure Underway (earlier queue : List (List α × σ)) (seen : ExtTreeSet σ compare) : Prop where
  ascends : (earlier ++ queue).Pairwise fun e f => trailOrder e.1 f.1 = .lt
  ahead : ∀ e ∈ earlier ++ queue, ∀ f ∈ queue, ∀ a, trailOrder e.1 (a :: f.1) = .lt
  found : ∀ t ∈ seen, ∃ u, (u, t) ∈ earlier ++ queue

omit [TransOrd α] in
theorem Underway.start (origin : σ) :
    Underway [] [(([] : List α), origin)] ((∅ : ExtTreeSet σ compare).insert origin) := by
  refine ⟨List.pairwise_singleton _ _, fun e he f hf a => ?_, fun t ht => ⟨[], ?_⟩⟩
  · rw [List.mem_singleton.mp he, List.mem_singleton.mp hf]
    exact trailOrder_lt_cons
  · have only : origin = t := by simpa using ht
    rw [only]
    exact List.mem_singleton.mpr rfl

theorem Underway.step (underway : Underway earlier ((trail, s) :: queue) seen)
    (ascending : Ascending next) : Underway (earlier ++ [(trail, s)])
      (queue ++ (discover trail (next s) seen).1) (discover trail (next s) seen).2 := by
  have entered : (earlier ++ [(trail, s)]) ++ (queue ++ (discover trail (next s) seen).1) =
      (earlier ++ (trail, s) :: queue) ++ (discover trail (next s) seen).1 := by simp
  have first : ∀ f ∈ queue, trailOrder trail f.1 = .lt :=
    (List.pairwise_cons.mp (List.pairwise_append.mp underway.ascends).2.1).1
  have waiting : ∀ e ∈ earlier ++ (trail, s) :: queue, ∀ a, trailOrder e.1 (a :: trail) = .lt :=
    fun e he => underway.ahead e he (trail, s) List.mem_cons_self
  constructor
  · rw [entered]
    refine List.pairwise_append.mpr ⟨underway.ascends, discover_pairwise (ascending s), ?_⟩
    intro e he f hf
    obtain ⟨a, ha, _⟩ := exists_step_of_mem_discover hf
    rw [ha]
    exact waiting e he a
  · rw [entered]
    intro e he f hf b
    rcases List.mem_append.mp he with he | he <;> rcases List.mem_append.mp hf with hf | hf
    · exact underway.ahead e he f (List.mem_cons_of_mem _ hf) b
    · obtain ⟨a, ha, _⟩ := exists_step_of_mem_discover hf
      rw [ha]
      exact TransCmp.lt_trans (waiting e he a) trailOrder_lt_cons
    · obtain ⟨a, ha, _⟩ := exists_step_of_mem_discover he
      rw [ha]
      exact trailOrder_cons_of_lt (first f hf)
    · obtain ⟨a, ha, _⟩ := exists_step_of_mem_discover he
      obtain ⟨c, hc, _⟩ := exists_step_of_mem_discover hf
      rw [ha, hc]
      exact trailOrder_cons_of_lt trailOrder_lt_cons
  · rw [entered]
    intro t ht
    rcases mem_discover_seen.mp ht with old | new
    · obtain ⟨u, hu⟩ := underway.found t old
      exact ⟨u, List.mem_append_left _ hu⟩
    · obtain ⟨e, he, rfl⟩ := List.mem_map.mp new
      exact ⟨e.1, List.mem_append_right _ he⟩

theorem Underway.pairwise (underway : Underway earlier queue seen) (ascending : Ascending next) :
    (earlier ++ visit next bound seen queue).Pairwise
      fun e f => trailOrder e.1 f.1 = .lt := by
  induction bound generalizing earlier seen queue with
  | zero => exact underway.ascends.sublist ((List.nil_sublist queue).append_left earlier)
  | succ bound ih =>
      cases queue with
      | nil => exact underway.ascends
      | cons entry queue =>
          rw [append_visit_succ]
          exact ih (underway.step ascending)

/-- The target of a step from something visited is found by a trail that comes no later than the
trail over this step. -/
theorem Underway.exists_le_of_step {targets : Finset σ}
    (known : ∀ s t, Leads next s t → t ∈ targets) (ascending : Ascending next)
    (underway : Underway earlier queue seen)
    (room : (targets.filter fun t => t ∉ seen).card + queue.length ≤ bound)
    (visited : (u, s) ∈ visit next bound seen queue) (step : (a, t) ∈ next s) :
    ∃ v, (v, t) ∈ earlier ++ visit next bound seen queue ∧
      (trailOrder v (a :: u)).isLE := by
  induction bound generalizing earlier seen queue with
  | zero => cases visited
  | succ bound ih =>
      cases queue with
      | nil => cases visited
      | cons entry queue =>
          obtain ⟨trail, r⟩ := entry
          have room' := room_discover known room
          rcases List.mem_cons.mp visited with here | later
          · obtain ⟨rfl, rfl⟩ := Prod.mk.inj here
            -- What was seen has entered the queue before; a new target enters it over the first
            -- step that leads there.
            by_cases old : t ∈ seen
            · obtain ⟨v, hv⟩ := underway.found t old
              refine ⟨v, ?_, ?_⟩
              · rcases List.mem_append.mp hv with done | waiting
                · exact List.mem_append_left _ done
                · exact List.mem_append_right _ (mem_visit_of_mem_queue known room waiting)
              · rw [underway.ahead _ hv _ List.mem_cons_self a]
                rfl
            · obtain ⟨b, hb, le⟩ := exists_mem_discover u (ascending s) step old
              refine ⟨b :: u, List.mem_append_right _ (List.mem_cons_of_mem _ ?_), ?_⟩
              · exact mem_visit_of_mem_queue known room' (List.mem_append_right _ hb)
              · rwa [trailOrder_cons_self]
          · rw [append_visit_succ]
            exact ih (underway.step ascending) room' later

/-! ### The whole search -/

theorem breadthFirst_pairwise (ascending : Ascending next) :
    (breadthFirst next bound origin).Pairwise fun e f => Word.shortlex e.1 f.1 = .lt := by
  rw [breadthFirst, List.pairwise_map]
  exact (Underway.start origin).pairwise ascending

/-- Everything that a word leads to is visited, by a word that comes no later. -/
theorem exists_mem_breadthFirst [DecidableEq σ] {targets : Finset σ}
    (known : ∀ s t, Leads next s t → t ∈ targets) (ascending : Ascending next)
    (room : (targets.erase origin).card < bound) (spells : Spells next origin w s) :
    ∃ v, (v, s) ∈ breadthFirst next bound origin ∧ (Word.shortlex v w).isLE := by
  have unseen : (targets.filter fun t => t ∉ (∅ : ExtTreeSet σ compare).insert origin) =
      targets.erase origin := by
    ext t
    rw [Finset.mem_filter, Finset.mem_erase, mem_insert_seen, and_comm, not_or]
    simp
  have enough : (targets.filter fun t => t ∉ (∅ : ExtTreeSet σ compare).insert origin).card +
      [(([] : List α), origin)].length ≤ bound := by
    rw [unseen]
    exact room
  -- One more label on both sides keeps the order of trails, so label by label the trail that was
  -- found comes no later than the word.
  have least : ∃ u, (u, s) ∈ trails next bound origin ∧ (trailOrder u w.reverse).isLE := by
    induction spells with
    | nil =>
        refine ⟨[], mem_visit_of_mem_queue known enough (List.mem_singleton.mpr rfl), ?_⟩
        exact ReflCmp.isLE_rfl
    | concat _ step ih =>
        obtain ⟨u, hu, le⟩ := ih
        obtain ⟨v, hv, le'⟩ :=
          (Underway.start origin).exists_le_of_step known ascending enough hu step
        rw [List.reverse_append]
        exact ⟨v, hv, TransCmp.isLE_trans le' (isLE_cons le)⟩
  obtain ⟨u, hu, le⟩ := least
  rw [trailOrder, List.reverse_reverse] at le
  exact ⟨u.reverse, List.mem_map.mpr ⟨_, hu, rfl⟩, le⟩

end BlueFringe.Search
