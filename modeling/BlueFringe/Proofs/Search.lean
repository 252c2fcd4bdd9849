import BlueFringe.Search
import Mathlib.Data.Finset.Card
import Mathlib.Logic.Relation

/-!
# What breadth-first search finds

With a bound that leaves room for every target of a step, the search visits each thing that can be
reached exactly once and nothing else.
-/

namespace BlueFringe.Search

open Std

variable {α σ : Type} [Ord σ] [TransOrd σ] [LawfulEqOrd σ]

/-- Some step leads from one thing to the other. -/
def Leads (next : σ → List (α × σ)) (s t : σ) : Prop := ∃ a, (a, t) ∈ next s

/-! ### Discovering targets -/

theorem mem_insert_seen {seen : ExtTreeSet σ compare} {s t : σ} :
    t ∈ seen.insert s ↔ t = s ∨ t ∈ seen := by
  rw [ExtTreeSet.mem_insert, LawfulEqCmp.compare_eq_iff_eq, eq_comm]

theorem mem_discover_seen {trail : List α} {steps : List (α × σ)} {seen : ExtTreeSet σ compare}
    {t : σ} :
    t ∈ (discover trail steps seen).2 ↔ t ∈ seen ∨ t ∈ (discover trail steps seen).1.map (·.2) := by
  induction steps generalizing seen with
  | nil => simp [discover]
  | cons step rest ih =>
      obtain ⟨a, s⟩ := step
      by_cases hs : s ∈ seen
      · simp only [discover, if_pos hs]
        exact ih
      · simp only [discover, if_neg hs, List.map_cons, List.mem_cons]
        rw [ih, mem_insert_seen]
        tauto

theorem mem_discover_found {trail : List α} {steps : List (α × σ)} {seen : ExtTreeSet σ compare}
    {t : σ} :
    t ∈ (discover trail steps seen).1.map (·.2) ↔ t ∉ seen ∧ ∃ a, (a, t) ∈ steps := by
  induction steps generalizing seen with
  | nil => simp [discover]
  | cons step rest ih =>
      obtain ⟨a, s⟩ := step
      by_cases hs : s ∈ seen
      · simp only [discover, if_pos hs]
        rw [ih]
        constructor
        · rintro ⟨ht, b, hb⟩
          exact ⟨ht, b, List.mem_cons_of_mem _ hb⟩
        · rintro ⟨ht, b, hb⟩
          rcases List.mem_cons.mp hb with he | hb
          · cases he
            exact absurd hs ht
          · exact ⟨ht, b, hb⟩
      · simp only [discover, if_neg hs, List.map_cons, List.mem_cons]
        rw [ih, mem_insert_seen]
        constructor
        · rintro (rfl | ⟨ht, b, hb⟩)
          · exact ⟨hs, a, Or.inl rfl⟩
          · exact ⟨fun h => ht (Or.inr h), b, Or.inr hb⟩
        · rintro ⟨ht, b, hb⟩
          by_cases he : t = s
          · exact Or.inl he
          · rcases hb with hb | hb
            · cases hb
              exact absurd rfl he
            · exact Or.inr ⟨fun h => h.elim he ht, b, hb⟩

theorem nodup_discover_found (trail : List α) (steps : List (α × σ)) (seen : ExtTreeSet σ compare) :
    ((discover trail steps seen).1.map (·.2)).Nodup := by
  induction steps generalizing seen with
  | nil => simp [discover]
  | cons step rest ih =>
      obtain ⟨a, s⟩ := step
      by_cases hs : s ∈ seen
      · simp only [discover, if_pos hs]
        exact ih seen
      · simp only [discover, if_neg hs, List.map_cons, List.nodup_cons]
        refine ⟨fun h => ?_, ih _⟩
        exact (mem_discover_found.mp h).1 (mem_insert_seen.mpr (Or.inl rfl))

omit [LawfulEqOrd σ] in
theorem exists_sublist_discover (trail : List α) (steps : List (α × σ))
    (seen : ExtTreeSet σ compare) :
    ∃ kept : List (α × σ), kept.Sublist steps ∧
      (discover trail steps seen).1 = kept.map fun step => (step.1 :: trail, step.2) := by
  induction steps generalizing seen with
  | nil => exact ⟨[], .slnil, rfl⟩
  | cons step rest ih =>
      obtain ⟨a, s⟩ := step
      by_cases hs : s ∈ seen
      · obtain ⟨kept, sub, found⟩ := ih seen
        exact ⟨kept, sub.cons _, by rw [discover, if_pos hs, found]⟩
      · obtain ⟨kept, sub, found⟩ := ih (seen.insert s)
        refine ⟨(a, s) :: kept, sub.cons_cons _, ?_⟩
        rw [discover, if_neg hs, List.map_cons, ← found]

omit [LawfulEqOrd σ] in
theorem exists_step_of_mem_discover {trail : List α} {steps : List (α × σ)}
    {seen : ExtTreeSet σ compare} {e : List α × σ} (h : e ∈ (discover trail steps seen).1) :
    ∃ a, e.1 = a :: trail ∧ (a, e.2) ∈ steps := by
  obtain ⟨kept, sub, found⟩ := exists_sublist_discover trail steps seen
  rw [found, List.mem_map] at h
  obtain ⟨step, hk, rfl⟩ := h
  exact ⟨step.1, rfl, sub.subset hk⟩

/-! ### Working off the queue -/

theorem leads_of_mem_visit {next : σ → List (α × σ)} {bound : Nat} {seen : ExtTreeSet σ compare}
    {queue : List (List α × σ)} {t : σ} (h : t ∈ (visit next bound seen queue).map (·.2)) :
    ∃ s ∈ queue.map (·.2), Relation.ReflTransGen (Leads next) s t := by
  induction bound generalizing seen queue with
  | zero => simp [visit] at h
  | succ bound ih =>
      cases queue with
      | nil => simp [visit] at h
      | cons entry queue =>
          obtain ⟨trail, s⟩ := entry
          simp only [visit, List.map_cons, List.mem_cons] at h ⊢
          rcases h with rfl | h
          · exact ⟨t, Or.inl rfl, Relation.ReflTransGen.refl⟩
          · obtain ⟨q, hq, steps⟩ := ih h
            rw [List.map_append, List.mem_append] at hq
            rcases hq with hq | hq
            · exact ⟨q, Or.inr hq, steps⟩
            · exact ⟨s, Or.inl rfl, steps.head (mem_discover_found.mp hq).2⟩

/-- Nothing is visited twice: what was seen before comes up only if it waits in the queue. -/
theorem nodup_visit {next : σ → List (α × σ)} {bound : Nat} {seen : ExtTreeSet σ compare}
    {queue : List (List α × σ)} (waiting : ∀ s ∈ queue.map (·.2), s ∈ seen)
    (distinct : (queue.map (·.2)).Nodup) :
    ((visit next bound seen queue).map (·.2)).Nodup ∧
      ∀ t ∈ (visit next bound seen queue).map (·.2), t ∈ seen → t ∈ queue.map (·.2) := by
  induction bound generalizing seen queue with
  | zero => simp [visit]
  | succ bound ih =>
      cases queue with
      | nil => simp [visit]
      | cons entry queue =>
          obtain ⟨trail, s⟩ := entry
          simp only [List.map_cons, List.nodup_cons, List.forall_mem_cons] at waiting distinct
          obtain ⟨hs, rest⟩ := waiting
          have later : ∀ t ∈ (queue ++ (discover trail (next s) seen).1).map (·.2),
              t ∈ (discover trail (next s) seen).2 := by
            intro t ht
            rw [List.map_append, List.mem_append] at ht
            rw [mem_discover_seen]
            exact ht.imp (rest t) id
          have apart : ((queue ++ (discover trail (next s) seen).1).map (·.2)).Nodup := by
            rw [List.map_append]
            refine distinct.2.append (nodup_discover_found trail _ seen) fun t ht hf => ?_
            exact (mem_discover_found.mp hf).1 (rest t ht)
          obtain ⟨hn, hq⟩ := ih later apart
          have back : ∀ t ∈ (visit next bound (discover trail (next s) seen).2
              (queue ++ (discover trail (next s) seen).1)).map (·.2), t ∈ seen →
              t ∈ queue.map (·.2) := by
            intro t ht seen_t
            have h := hq t ht (mem_discover_seen.mpr (Or.inl seen_t))
            rw [List.map_append, List.mem_append] at h
            exact h.resolve_right fun hf => (mem_discover_found.mp hf).1 seen_t
          simp only [visit, List.map_cons, List.nodup_cons, List.mem_cons]
          refine ⟨⟨fun h => distinct.1 (back s h hs), hn⟩, ?_⟩
          rintro t (rfl | ht) seen_t
          · exact Or.inl rfl
          · exact Or.inr (back t ht seen_t)

theorem card_unseen_discover {next : σ → List (α × σ)} {targets : Finset σ}
    (known : ∀ s t, Leads next s t → t ∈ targets) (trail : List α) (s : σ)
    (seen : ExtTreeSet σ compare) :
    (targets.filter fun t => t ∉ (discover trail (next s) seen).2).card +
      (discover trail (next s) seen).1.length ≤ (targets.filter fun t => t ∉ seen).card := by
  classical
  have count : (discover trail (next s) seen).1.length =
      ((discover trail (next s) seen).1.map (·.2)).toFinset.card := by
    rw [List.toFinset_card_of_nodup (nodup_discover_found trail (next s) seen), List.length_map]
  rw [count, ← Finset.card_union_of_disjoint]
  · refine Finset.card_le_card fun t ht => ?_
    rw [Finset.mem_union, Finset.mem_filter, List.mem_toFinset, mem_discover_seen] at ht
    rw [Finset.mem_filter]
    rcases ht with ⟨ht, hn⟩ | ht
    · exact ⟨ht, fun h => hn (Or.inl h)⟩
    · obtain ⟨hn, hl⟩ := mem_discover_found.mp ht
      exact ⟨known s t hl, hn⟩
  · refine Finset.disjoint_left.mpr fun t ht hd => ?_
    exact (Finset.mem_filter.mp ht).2
      (mem_discover_seen.mpr (Or.inr (List.mem_toFinset.mp hd)))

/-- A bound that counts the queue and all targets that were not seen does so after one visit. -/
theorem room_discover {next : σ → List (α × σ)} {targets : Finset σ}
    (known : ∀ s t, Leads next s t → t ∈ targets) {bound : Nat} {seen : ExtTreeSet σ compare}
    {queue : List (List α × σ)} {trail : List α} {s : σ}
    (room : (targets.filter fun t => t ∉ seen).card + ((trail, s) :: queue).length ≤ bound + 1) :
    (targets.filter fun t => t ∉ (discover trail (next s) seen).2).card +
      (queue ++ (discover trail (next s) seen).1).length ≤ bound := by
  have split := card_unseen_discover known trail s seen
  simp only [List.length_cons, List.length_append] at room ⊢
  omega

theorem mem_visit_of_mem_queue {next : σ → List (α × σ)} {targets : Finset σ}
    (known : ∀ s t, Leads next s t → t ∈ targets) {bound : Nat} {seen : ExtTreeSet σ compare}
    {queue : List (List α × σ)}
    (room : (targets.filter fun t => t ∉ seen).card + queue.length ≤ bound) {e : List α × σ}
    (h : e ∈ queue) : e ∈ visit next bound seen queue := by
  induction bound generalizing seen queue with
  | zero =>
      have nothing : queue = [] := List.length_eq_zero_iff.mp (by omega)
      rw [nothing] at h
      cases h
  | succ bound ih =>
      cases queue with
      | nil => cases h
      | cons entry queue =>
          rcases List.mem_cons.mp h with rfl | later
          · exact List.mem_cons_self
          · exact List.mem_cons_of_mem _
              (ih (room_discover known room) (List.mem_append_left _ later))

/-- The bound suffices if it counts the queue and all targets of steps that were not seen. -/
theorem visit_closed {next : σ → List (α × σ)} {targets : Finset σ}
    (known : ∀ s t, Leads next s t → t ∈ targets) {bound : Nat} {seen : ExtTreeSet σ compare}
    {queue : List (List α × σ)}
    (room : (targets.filter fun t => t ∉ seen).card + queue.length ≤ bound) :
    (∀ t ∈ queue.map (·.2), t ∈ (visit next bound seen queue).map (·.2)) ∧
      ∀ s ∈ (visit next bound seen queue).map (·.2), ∀ t, Leads next s t →
        t ∈ seen ∨ t ∈ (visit next bound seen queue).map (·.2) := by
  classical
  induction bound generalizing seen queue with
  | zero =>
      have hq : queue = [] := List.length_eq_zero_iff.mp (by omega)
      subst hq
      simp [visit]
  | succ bound ih =>
      cases queue with
      | nil => simp [visit]
      | cons entry queue =>
          obtain ⟨trail, s⟩ := entry
          obtain ⟨hq, hc⟩ := ih (room_discover known room)
          have found : ∀ t, t ∈ (discover trail (next s) seen).2 → t ∈ seen ∨
              t ∈ (visit next bound (discover trail (next s) seen).2
                (queue ++ (discover trail (next s) seen).1)).map (·.2) := by
            intro t ht
            refine (mem_discover_seen.mp ht).imp id fun h => hq t ?_
            rw [List.map_append, List.mem_append]
            exact Or.inr h
          simp only [visit, List.map_cons, List.mem_cons]
          constructor
          · rintro t (rfl | ht)
            · exact Or.inl rfl
            · refine Or.inr (hq t ?_)
              rw [List.map_append, List.mem_append]
              exact Or.inl ht
          · rintro p (rfl | hp) t ht
            · by_cases hs : t ∈ seen
              · exact Or.inl hs
              · have hd : t ∈ (discover trail (next p) seen).1.map (·.2) :=
                  mem_discover_found.mpr ⟨hs, ht⟩
                exact (found t (mem_discover_seen.mpr (Or.inr hd))).imp id Or.inr
            · rcases hc p hp t ht with h | h
              · exact (found t h).imp id Or.inr
              · exact Or.inr (Or.inr h)

/-! ### Searches that give up -/

section Tree

variable {next : σ → List (α × σ)} {bound : Nat} {t : σ} {seen seen' : ExtTreeSet σ compare}
  {steps : List (α × σ)}

theorem mark_isSome : (mark steps seen).isSome = true ↔
    (steps.map (·.2)).Nodup ∧ ∀ t ∈ steps.map (·.2), t ∉ seen := by
  induction steps generalizing seen with
  | nil => simp [mark]
  | cons step rest ih =>
      obtain ⟨a, s⟩ := step
      simp only [List.map_cons, List.nodup_cons, List.forall_mem_cons]
      by_cases hs : s ∈ seen
      · simp [mark, hs]
      · rw [mark, if_neg hs, ih]
        simp only [mem_insert_seen, not_or]
        constructor
        · rintro ⟨distinct, apart⟩
          exact ⟨⟨fun met => (apart s met).1 rfl, distinct⟩, hs, fun t ht => (apart t ht).2⟩
        · rintro ⟨⟨lone, distinct⟩, -, apart⟩
          exact ⟨distinct, fun t ht => ⟨fun same => lone (same ▸ ht), apart t ht⟩⟩

omit [LawfulEqOrd σ] in
/-- Where nothing was seen before, all targets are discovered. -/
theorem discover_of_mark (trail : List α) (marked : mark steps seen = some seen') :
    discover trail steps seen = (steps.map fun step => (step.1 :: trail, step.2), seen') := by
  induction steps generalizing seen with
  | nil => cases marked; rfl
  | cons step rest ih =>
      obtain ⟨a, s⟩ := step
      by_cases hs : s ∈ seen
      · simp [mark, hs] at marked
      · rw [mark, if_neg hs] at marked
        rw [discover, if_neg hs, ih marked, List.map_cons]

theorem mem_of_mark (marked : mark steps seen = some seen') :
    t ∈ seen' ↔ t ∈ seen ∨ t ∈ steps.map (·.2) := by
  have same : t ∈ (discover [] steps seen).2 ↔
      t ∈ seen ∨ t ∈ (discover [] steps seen).1.map (·.2) := mem_discover_seen
  rwa [discover_of_mark [] marked, List.map_map] at same

omit [LawfulEqOrd σ] in
/-- So both searches put the same things into the queue. -/
theorem map_queue_of_mark (trail : List α) (queue : List (List α × σ))
    (marked : mark steps seen = some seen') :
    (queue ++ (discover trail steps seen).1).map (·.2) = queue.map (·.2) ++ steps.map (·.2) := by
  rw [discover_of_mark trail marked, List.map_append, List.map_map]
  rfl

/-- The targets of all steps from what is visited. -/
def entered (next : σ → List (α × σ)) (visited : List σ) : List σ :=
  visited.flatMap fun s => (next s).map (·.2)

/-- As long as nothing is met twice, the search works off the same queue as the one that skips what
was seen; so it gets through if the steps lead to pairwise different new things. -/
theorem visitTree_isSome (queue : List (List α × σ)) :
    (visitTree next bound seen (queue.map (·.2))).isSome = true ↔
      (entered next ((visit next bound seen queue).map (·.2))).Nodup ∧
        ∀ t ∈ entered next ((visit next bound seen queue).map (·.2)), t ∉ seen := by
  induction bound generalizing seen queue with
  | zero => simp [visitTree, visit, entered]
  | succ bound ih =>
      cases queue with
      | nil => simp [visitTree, visit, entered]
      | cons entry queue =>
          obtain ⟨trail, s⟩ := entry
          simp only [List.map_cons, visitTree, visit, entered, List.flatMap_cons,
            List.nodup_append', List.forall_mem_append, Option.isSome_bind]
          cases marked : mark (next s) seen with
          | none =>
              simp only [Option.any_none, Bool.false_eq_true, false_iff]
              rintro ⟨⟨distinct, -, -⟩, apart, -⟩
              have through := mark_isSome.mpr ⟨distinct, apart⟩
              rw [marked] at through
              cases through
          | some seen' =>
              have found := discover_of_mark trail marked
              have start := mark_isSome.mp (Option.isSome_of_mem marked)
              rw [Option.any_some, ← map_queue_of_mark trail queue marked, ih, found]
              simp only [entered, mem_of_mark marked, not_or]
              constructor
              · rintro ⟨distinct, apart⟩
                exact ⟨⟨start.1, distinct, fun t ht later => (apart t later).2 ht⟩, start.2,
                  fun t ht => (apart t ht).1⟩
              · rintro ⟨⟨-, distinct, disjoint⟩, -, apart⟩
                exact ⟨distinct, fun t ht => ⟨apart t ht, fun early => disjoint early ht⟩⟩

theorem mem_of_visitTree (queue : List (List α × σ))
    (whole : visitTree next bound seen (queue.map (·.2)) = some seen') :
    t ∈ seen' ↔ t ∈ seen ∨ t ∈ entered next ((visit next bound seen queue).map (·.2)) := by
  induction bound generalizing seen queue with
  | zero => cases whole; simp [visit, entered]
  | succ bound ih =>
      cases queue with
      | nil => cases whole; simp [visit, entered]
      | cons entry queue =>
          obtain ⟨trail, s⟩ := entry
          obtain ⟨seen₁, marked, whole⟩ := Option.bind_eq_some_iff.mp whole
          have found := discover_of_mark trail marked
          rw [← map_queue_of_mark trail queue marked] at whole
          simp only [ih _ whole, mem_of_mark marked, visit, found, entered, List.map_cons,
            List.flatMap_cons, List.mem_append, or_assoc]

end Tree

/-! ### The whole search -/

theorem nodup_reached (next : σ → List (α × σ)) (bound : Nat) (origin : σ) :
    (reached next bound origin).Nodup :=
  (nodup_visit (by simp) (by simp)).1

theorem mem_reached {next : σ → List (α × σ)} {targets : Finset σ}
    (known : ∀ s t, Leads next s t → t ∈ targets) {bound : Nat} (room : targets.card < bound)
    {origin t : σ} :
    t ∈ reached next bound origin ↔ Relation.ReflTransGen (Leads next) origin t := by
  have enough : (targets.filter fun t => t ∉ (∅ : ExtTreeSet σ compare).insert origin).card +
      [(([] : List α), origin)].length ≤ bound := by
    have hf := Finset.card_filter_le targets
      fun t => t ∉ (∅ : ExtTreeSet σ compare).insert origin
    rw [List.length_singleton]
    omega
  obtain ⟨hq, hc⟩ := visit_closed known enough
  constructor
  · intro h
    obtain ⟨s, hs, steps⟩ := leads_of_mem_visit h
    have : s = origin := by simpa using hs
    exact this ▸ steps
  · intro steps
    have start : origin ∈ reached next bound origin := hq origin (by simp)
    induction steps with
    | refl => exact start
    | @tail s p _ hl ih =>
        rcases hc s ih p hl with h | h
        · have : origin = p := by simpa using h
          exact this ▸ start
        · exact h

theorem mem_seen_origin {origin t : σ} :
    t ∈ (∅ : ExtTreeSet σ compare).insert origin ↔ t = origin := by
  rw [mem_insert_seen, or_iff_left ExtTreeSet.not_mem_empty]

theorem tree_isSome {next : σ → List (α × σ)} {bound : Nat} {origin : σ} :
    (tree next bound origin).isSome = true ↔
      (origin :: entered next (reached next bound origin)).Nodup := by
  refine (visitTree_isSome [([], origin)]).trans ?_
  simp only [mem_seen_origin, List.nodup_cons]
  constructor
  · rintro ⟨distinct, apart⟩
    exact ⟨fun met => apart origin met rfl, distinct⟩
  · rintro ⟨lone, distinct⟩
    exact ⟨distinct, fun t met same => lone (same ▸ met)⟩

theorem mem_tree {next : σ → List (α × σ)} {targets : Finset σ}
    (known : ∀ s t, Leads next s t → t ∈ targets) {bound : Nat} (room : targets.card < bound)
    {origin t : σ} {seen : ExtTreeSet σ compare} (whole : tree next bound origin = some seen) :
    t ∈ seen ↔ t ∈ reached next bound origin := by
  rw [mem_of_visitTree [([], origin)] whole, mem_seen_origin, mem_reached known room]
  constructor
  · rintro (rfl | met)
    · exact Relation.ReflTransGen.refl
    · obtain ⟨s, visited, target⟩ := List.mem_flatMap.mp met
      obtain ⟨⟨a, t⟩, step, rfl⟩ := List.mem_map.mp target
      exact ((mem_reached known room).mp visited).tail ⟨a, step⟩
  · intro steps
    refine steps.cases_tail.imp_right ?_
    rintro ⟨s, first, a, step⟩
    exact List.mem_flatMap.mpr
      ⟨s, (mem_reached known room).mpr first, List.mem_map.mpr ⟨(a, t), step, rfl⟩⟩

end BlueFringe.Search
