import BlueFringe.Graph.Acceptance
import BlueFringe.Graph.Reach
import BlueFringe.Proofs.Search
import Mathlib.Data.List.Nodup
import Mathlib.Data.List.Pairwise

/-!
# Reachable states, trim graphs and trees

Reachability is the existence of a run. The lists that a search makes, the test for trim graphs and
the test for trees are tied to it here; later modules speak of runs only.
-/

namespace BlueFringe.Graph

open Std

variable {α : Type} [Ord α] [TransOrd α]

/-- Every transition leads to a state of the graph. -/
def Closed (g : Graph α) : Prop := ∀ q a p, g.transition q a = some p → p ∈ g

/-- Some word leads from one state to the other. -/
def Reaches (g : Graph α) (q p : StateId) : Prop := ∃ w, g.runFrom q w = some p

variable {g : Graph α} {q p r root : StateId} {a : α} {w : Word α}

/-! ### Runs that grow at the end -/

theorem runFrom_concat :
    g.runFrom q (w ++ [a]) = (g.runFrom q w).bind fun p => g.transition p a := by
  rw [runFrom_append]
  congr 1
  funext p
  simp

theorem runFrom_concat_eq_some :
    g.runFrom q (w ++ [a]) = some p ↔ ∃ r, g.runFrom q w = some r ∧ g.transition r a = some p := by
  rw [runFrom_concat, Option.bind_eq_some_iff]

theorem run_concat (h : g.run w = some q) : g.run (w ++ [a]) = g.transition q a := by
  rw [run, runFrom_concat, ← run, h, Option.bind_some]

theorem Reaches.refl (g : Graph α) (q : StateId) : g.Reaches q q := ⟨[], rfl⟩

theorem Reaches.tail (h : g.Reaches q p) (ht : g.transition p a = some r) : g.Reaches q r := by
  obtain ⟨w, hw⟩ := h
  exact ⟨w ++ [a], runFrom_concat_eq_some.mpr ⟨p, hw, ht⟩⟩

theorem Reaches.trans (h : g.Reaches q p) (h' : g.Reaches p r) : g.Reaches q r := by
  obtain ⟨v, hv⟩ := h
  obtain ⟨w, hw⟩ := h'
  exact ⟨v ++ w, by rw [runFrom_append, hv]; exact hw⟩

/-- What is reached and is not the start was entered by a transition from something reached. -/
theorem Reaches.cases_tail (h : g.Reaches q p) :
    p = q ∨ ∃ r a, g.Reaches q r ∧ g.transition r a = some p := by
  obtain ⟨w, hw⟩ := h
  rcases List.eq_nil_or_concat w with rfl | ⟨v, a, rfl⟩
  · exact Or.inl (Option.some.inj hw).symm
  · rw [List.concat_eq_append] at hw
    obtain ⟨r, hr, ha⟩ := runFrom_concat_eq_some.mp hw
    exact Or.inr ⟨r, a, ⟨v, hr⟩, ha⟩

/-- A property that transitions hand on holds of everything that is reached. -/
theorem Reaches.induct {P : StateId → Prop} (start : P q)
    (step : ∀ r a p, g.Reaches q r → P r → g.transition r a = some p → P p)
    (h : g.Reaches q p) : P p := by
  obtain ⟨w, hw⟩ := h
  induction w using List.reverseRecOn generalizing p with
  | nil => exact Option.some.inj hw ▸ start
  | append_singleton v a ih =>
      obtain ⟨r, hr, ha⟩ := runFrom_concat_eq_some.mp hw
      exact step r a p ⟨v, hr⟩ (ih hr) ha

theorem Closed.mem_of_reaches (closed : g.Closed) (hq : q ∈ g) (h : g.Reaches q p) : p ∈ g :=
  h.induct hq fun r a p _ _ ha => closed r a p ha

/-! ### The search for reachable states -/

section Search

variable [LawfulEqOrd α]

theorem leads_edges : Search.Leads g.edges q p ↔ ∃ a, g.transition q a = some p := by
  simp only [Search.Leads, mem_edges]

theorem reflTransGen_edges : Relation.ReflTransGen (Search.Leads g.edges) q p ↔ g.Reaches q p := by
  constructor
  · intro steps
    induction steps with
    | refl => exact Reaches.refl g q
    | tail _ hl ih =>
        obtain ⟨a, ha⟩ := leads_edges.mp hl
        exact ih.tail ha
  · intro h
    refine h.induct Relation.ReflTransGen.refl fun r a p _ steps ha => ?_
    exact steps.tail (leads_edges.mpr ⟨a, ha⟩)

/-- The targets of all transitions. -/
def allTargets (g : Graph α) : Finset StateId := (g.stateIds.flatMap g.targets).toFinset

theorem mem_allTargets (h : g.transition q a = some p) : p ∈ g.allTargets := by
  rw [allTargets, List.mem_toFinset, List.mem_flatMap]
  exact ⟨q, mem_stateIds.mpr (mem_of_transition h), mem_targets.mpr ⟨a, h⟩⟩

omit [LawfulEqOrd α] in
theorem card_allTargets_lt (g : Graph α) : g.allTargets.card < g.transitionCount + 1 := by
  have hc := List.toFinset_card_le (g.stateIds.flatMap g.targets)
  have hl : (g.stateIds.flatMap g.targets).length = g.transitionCount := by
    rw [transitionCount_eq, List.length_flatMap, List.length_flatMap]
    simp [targets]
  rw [allTargets]
  omega

theorem mem_allTargets_of_leads (h : Search.Leads g.edges q p) : p ∈ g.allTargets := by
  obtain ⟨a, ha⟩ := leads_edges.mp h
  exact mem_allTargets ha

theorem mem_reachable : p ∈ g.reachable q ↔ g.Reaches q p := by
  rw [reachable, Search.mem_reached (fun _ _ => mem_allTargets_of_leads) (card_allTargets_lt g),
    reflTransGen_edges]

theorem mem_tree {below : ExtTreeSet StateId compare}
    (whole : Search.tree g.edges (g.transitionCount + 1) root = some below) :
    q ∈ below ↔ g.Reaches root q := by
  rw [Search.mem_tree (fun _ _ => mem_allTargets_of_leads) (card_allTargets_lt g) whole,
    ← reachable, mem_reachable]

omit [LawfulEqOrd α] in
theorem nodup_reachable (g : Graph α) (q : StateId) : (g.reachable q).Nodup :=
  Search.nodup_reached g.edges _ q

instance (g : Graph α) (q p : StateId) : Decidable (g.Reaches q p) :=
  decidable_of_iff (p ∈ g.reachable q) mem_reachable

theorem closed_iff : g.Closed ↔ ∀ q ∈ g.stateIds, ∀ p ∈ g.targets q, p ∈ g := by
  constructor
  · intro closed q _ p hp
    obtain ⟨a, ha⟩ := mem_targets.mp hp
    exact closed q a p ha
  · intro all q a p ha
    exact all q (mem_stateIds.mpr (mem_of_transition ha)) p (mem_targets.mpr ⟨a, ha⟩)

instance (g : Graph α) : Decidable g.Closed := decidable_of_iff _ closed_iff.symm

theorem mem_reachable_set : p ∈ collect compare (g.reachable q) ↔ g.Reaches q p := by
  rw [mem_collect, mem_reachable]

/-- Being trim means that a run leads to every state. -/
theorem isTrim_iff (closed : g.Closed) (initial : g.initial ∈ g) :
    g.isTrim = true ↔ ∀ q ∈ g, g.Reaches g.initial q := by
  have sub : g.reachable g.initial ⊆ g.stateIds := by
    intro q hq
    exact mem_stateIds.mpr (closed.mem_of_reaches initial (mem_reachable.mp hq))
  have perm := (nodup_reachable g g.initial).subperm sub
  rw [isTrim, beq_iff_eq, ← length_stateIds]
  constructor
  · intro hl q hq
    have same := perm.perm_of_length_le (Nat.le_of_eq hl.symm)
    exact mem_reachable.mp (same.mem_iff.mpr (mem_stateIds.mpr hq))
  · intro all
    have back : g.stateIds ⊆ g.reachable g.initial :=
      fun q hq => mem_reachable.mpr (all q (mem_stateIds.mp hq))
    exact (perm.antisymm (nodup_stateIds.subperm back)).length_eq

end Search

/-! ### Trees -/

/-- The states that a root reaches hang off it: nothing leads back to the root, and each other one
of them is entered by one transition only, which starts among them. -/
structure TreeFrom (g : Graph α) (root : StateId) : Prop where
  no_return : ∀ q a, g.Reaches root q → g.transition q a ≠ some root
  inside : ∀ q a p, g.Reaches root p → p ≠ root → g.transition q a = some p → g.Reaches root q
  parent : ∀ q a q' a' p, g.Reaches root p → p ≠ root → g.transition q a = some p →
    g.transition q' a' = some p → q = q' ∧ a = a'

theorem nodup_targets [LawfulEqOrd α]
    (single : ∀ a a' p, g.transition q a = some p → g.transition q a' = some p → a = a') :
    (g.targets q).Nodup := by
  have distinct : (g.edges q).Nodup :=
    edges_pairwise.imp fun {e f} h he => by simp [he] at h
  refine distinct.map_on fun e he f hf hp => ?_
  obtain ⟨a, p⟩ := e
  obtain ⟨a', p'⟩ := f
  have : p = p' := hp
  subst this
  rw [single a a' p (mem_edges.mp he) (mem_edges.mp hf)]

/-- The search from the root gets through if the transitions below the root lead to pairwise
different states. -/
theorem isTreeFrom_iff_nodup [LawfulEqOrd α] : g.isTreeFrom root = true ↔
    (root :: (g.reachable root).flatMap g.targets).Nodup ∧
      ∀ q ∈ g, g.Reaches root q ∨ ∀ p, (∃ a, g.transition q a = some p) →
        p = root ∨ ¬ g.Reaches root p := by
  have through : (Search.tree g.edges (g.transitionCount + 1) root).isSome = true ↔
      (root :: (g.reachable root).flatMap g.targets).Nodup := Search.tree_isSome
  rw [← through, isTreeFrom]
  cases whole : Search.tree g.edges (g.transitionCount + 1) root with
  | none => simp
  | some below =>
      simp [mem_tree whole, mem_targets]

theorem isTreeFrom_iff [LawfulEqOrd α] : g.isTreeFrom root = true ↔ g.TreeFrom root := by
  simp only [isTreeFrom_iff_nodup, List.nodup_cons, List.mem_flatMap, List.nodup_flatMap,
    mem_reachable, mem_targets]
  constructor
  · rintro ⟨⟨root_free, targets_nodup, apart⟩, outside⟩
    have inside : ∀ q a p, g.Reaches root p → p ≠ root → g.transition q a = some p →
        g.Reaches root q := by
      intro q a p hp ne ha
      rcases outside q (mem_of_transition ha) with hq | hq
      · exact hq
      · rcases hq p ⟨a, ha⟩ with h | h
        · exact absurd h ne
        · exact absurd hp h
    refine ⟨fun q a hq ha => root_free ⟨q, hq, a, ha⟩, inside, ?_⟩
    intro q a q' a' p hp ne ha ha'
    have hq := mem_reachable.mpr (inside q a p hp ne ha)
    have hq' := mem_reachable.mpr (inside q' a' p hp ne ha')
    have same : q = q' := by
      by_contra hne
      have symmetric : Std.Symm (Function.onFun List.Disjoint g.targets) := ⟨fun _ _ h => h.symm⟩
      exact apart.forall hq hq' hne (mem_targets.mpr ⟨a, ha⟩) (mem_targets.mpr ⟨a', ha'⟩)
    subst same
    have hn := targets_nodup q (mem_reachable.mp hq)
    have := List.inj_on_of_nodup_map hn (mem_edges.mpr ha) (mem_edges.mpr ha') rfl
    exact ⟨rfl, congrArg Prod.fst this⟩
  · intro tree
    refine ⟨⟨?_, ?_, ?_⟩, ?_⟩
    · rintro ⟨q, hq, a, ha⟩
      exact tree.no_return q a hq ha
    · intro q hq
      refine nodup_targets fun a a' p ha ha' => ?_
      have ne : p ≠ root := fun he => tree.no_return q a hq (he ▸ ha)
      exact (tree.parent q a q a' p (hq.tail ha) ne ha ha').2
    · refine (nodup_reachable g root).pairwise_of_forall_ne fun q hq q' _ hne p hp hp' => hne ?_
      obtain ⟨a, ha⟩ := mem_targets.mp hp
      obtain ⟨a', ha'⟩ := mem_targets.mp hp'
      have hq := mem_reachable.mp hq
      have ne : p ≠ root := fun he => tree.no_return q a hq (he ▸ ha)
      exact (tree.parent q a q' a' p (hq.tail ha) ne ha ha').1
    · intro q _
      by_cases hq : g.Reaches root q
      · exact Or.inl hq
      · refine Or.inr ?_
        rintro p ⟨a, ha⟩
        by_cases he : p = root
        · exact Or.inl he
        · exact Or.inr fun hp => hq (tree.inside q a p hp he ha)

/-- Only one word leads from the root to a state: the last transition is the only one that enters
the state, and the word in front of it the only one that leads to where this transition starts. -/
theorem TreeFrom.unique (tree : g.TreeFrom root) {v : Word α} (hv : g.runFrom root v = some q)
    (hw : g.runFrom root w = some q) : v = w := by
  induction v using List.reverseRecOn generalizing q w with
  | nil =>
      cases hv
      rcases List.eq_nil_or_concat' w with rfl | ⟨w, b, rfl⟩
      · rfl
      · obtain ⟨r, hr, hb⟩ := runFrom_concat_eq_some.mp hw
        exact absurd hb (tree.no_return r b ⟨w, hr⟩)
  | append_singleton v a ih =>
      obtain ⟨p, hp, ha⟩ := runFrom_concat_eq_some.mp hv
      have ne : q ≠ root := fun same => tree.no_return p a ⟨v, hp⟩ (same ▸ ha)
      rcases List.eq_nil_or_concat' w with rfl | ⟨w, b, rfl⟩
      · exact absurd (Option.some.inj hw).symm ne
      · obtain ⟨r, hr, hb⟩ := runFrom_concat_eq_some.mp hw
        obtain ⟨rfl, rfl⟩ := tree.parent p a r b q ⟨v ++ [a], hv⟩ ne ha hb
        rw [ih hp hr]

/-- If no two words lead to one state, then two transitions that enter it end the same word. -/
theorem TreeFrom.of_unique
    (unique : ∀ v w q, g.runFrom root v = some q → g.runFrom root w = some q → v = w)
    (inside : ∀ q a p, g.Reaches root p → p ≠ root → g.transition q a = some p →
      g.Reaches root q) : g.TreeFrom root := by
  refine ⟨fun q a ⟨v, hv⟩ ha => ?_, inside, fun q a q' a' p hp ne ha ha' => ?_⟩
  · have run := runFrom_concat_eq_some.mpr ⟨q, hv, ha⟩
    exact List.concat_ne_nil _ _ (unique (v ++ [a]) [] root run rfl)
  · obtain ⟨v, hv⟩ := inside q a p hp ne ha
    obtain ⟨w, hw⟩ := inside q' a' p hp ne ha'
    have same := unique _ _ p (runFrom_concat_eq_some.mpr ⟨q, hv, ha⟩)
      (runFrom_concat_eq_some.mpr ⟨q', hw, ha'⟩)
    obtain ⟨rfl, last⟩ := List.append_inj' same rfl
    exact ⟨Option.some.inj (hv.symm.trans hw), List.singleton_inj.mp last⟩

/-- The test for trees is about all words: it holds if each state below the root is reached from it
by exactly one word, and whatever enters below the root, and not at the root, starts there. -/
theorem isTreeFrom_exact [LawfulEqOrd α] (g : Graph α) (root : StateId) :
    g.isTreeFrom root = true ↔
      (∀ q, g.Reaches root q → ∃! w, g.runFrom root w = some q) ∧
      ∀ q a p, g.transition q a = some p → g.Reaches root p → p ≠ root → g.Reaches root q := by
  rw [isTreeFrom_iff]
  constructor
  · intro tree
    refine ⟨fun q ⟨w, run⟩ => ⟨w, run, fun v other => tree.unique other run⟩, ?_⟩
    exact fun q a p ha hp ne => tree.inside q a p hp ne ha
  · rintro ⟨once, inside⟩
    refine .of_unique (fun v w q hv hw => ?_) fun q a p hp ne ha => inside q a p ha hp ne
    exact (once q ⟨v, hv⟩).unique hv hw

/-- A loop at the state 0, from which a transition enters the tree with the root 1. -/
def bough : Graph Nat :=
  ((((((((Graph.single true).addState true).addState true).addState true).setTarget ⟨0⟩ 0
    ⟨0⟩).setTarget ⟨0⟩ 1 ⟨1⟩).setTarget ⟨1⟩ 0 ⟨2⟩).setTarget ⟨1⟩ 1 ⟨3⟩)

theorem bough_hangs : (∃! w, bough.runFrom ⟨1⟩ w = some ⟨3⟩) ∧
    ¬ ∀ q, bough.Reaches ⟨0⟩ q → ∃! w, bough.runFrom ⟨0⟩ w = some q := by
  have below : bough.isTreeFrom ⟨1⟩ = true := by decide +kernel
  have above : bough.isTreeFrom ⟨0⟩ = false := by decide +kernel
  have trim : ∀ q ∈ bough.stateIds, bough.Reaches ⟨0⟩ q := by decide +kernel
  refine ⟨((isTreeFrom_exact bough ⟨1⟩).mp below).1 ⟨3⟩ ⟨[1], by decide +kernel⟩, fun once => ?_⟩
  have whole := (isTreeFrom_exact bough ⟨0⟩).mpr
    ⟨once, fun q a p ha _ _ => trim q (mem_stateIds.mpr (mem_of_transition ha))⟩
  rw [above] at whole
  cases whole

end BlueFringe.Graph
