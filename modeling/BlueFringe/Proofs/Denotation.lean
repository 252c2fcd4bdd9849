import BlueFringe.Proofs.Demands

/-!
# What a prefix tree denotes

The states of a prefix tree stand for the prefixes of the words that were added to it. Traces may
come in any order and some may contradict the tree; those that were added determine which words have
a run, which states reject, and the depth of each state. The language of the tree is the least one
that these traces allow.
-/

namespace BlueFringe

open Std

variable {α : Type} [Ord α] [TransOrd α]

namespace PrefixTree

/-- The tree after each of the traces was given to it. -/
def given (t : PrefixTree α) (traces : List (Trace α)) : PrefixTree α :=
  traces.foldl (fun t trace => (t.add trace).2) t

/-- Those of the traces that are added if they are given to the tree in this order. -/
def kept (t : PrefixTree α) : List (Trace α) → List (Trace α)
  | [] => []
  | trace :: rest =>
    match (t.add trace).1 with
    | none => trace :: (t.add trace).2.kept rest
    | some _ => (t.add trace).2.kept rest

end PrefixTree

namespace Graph

/-- The depth of every state is the length of the words that lead to it. -/
def Levelled (g : Graph α) : Prop := ∀ w q, g.run w = some q → g.depth? q = some w.length

variable {g : Graph α} {q : StateId} {a : α} {stem v w : Word α} {outcome : Outcome}
  {accepting : Bool}

theorem Levelled.setAccepting (levelled : g.Levelled) : (g.setAccepting q accepting).Levelled := by
  intro w p hp
  rw [run_setAccepting] at hp
  rw [depth?_setAccepting]
  exact levelled w p hp

namespace RootedTree

theorem treeFrom_initial (tree : g.RootedTree) : g.TreeFrom g.initial := by
  refine .of_unique tree.unique fun q a p _ _ ha => ?_
  obtain ⟨w, hw, _⟩ := tree.exists_run_concat ha
  exact ⟨w, hw⟩

variable [LawfulEqOrd α]

theorem isTrim (tree : g.RootedTree) : g.isTrim = true :=
  (isTrim_iff tree.closed tree.initial).mpr tree.reached

theorem levelled_sprout (tree : g.RootedTree) (levelled : g.Levelled) (start : g.run stem = some q)
    (lacking : g.transition q a = none) :
    (g.sprout q (stem.length + 1) a accepting).Levelled := by
  intro w p hp
  rw [depth?_sprout]
  rcases (tree.run_sprout (tree.mem_of_run start) lacking).mp hp with old | ⟨rfl, v, hv, rfl⟩
  · have ne : g.fresh ≠ p := fun he => tree.fresh_notMem (he ▸ tree.mem_of_run old)
    rw [if_neg ne]
    exact levelled w p old
  · rw [if_pos rfl, tree.unique v stem q hv start, List.length_append, List.length_singleton]

/-- A path that grows below a state adds the words along it, each on its level. -/
theorem grow (tree : g.RootedTree) (levelled : g.Levelled) (start : g.run stem = some q)
    (lacking : ∀ a, w.head? = some a → g.transition q a = none) :
    (PrefixTree.grow outcome g q stem.length w).Levelled ∧
      ∀ v p, (PrefixTree.grow outcome g q stem.length w).run v = some p →
        (∃ p', g.run v = some p') ∨ ∃ u, u <+: w ∧ v = stem ++ u := by
  -- With each new state one label moves from the word to the stem.
  induction w generalizing g q stem with
  | nil => exact ⟨levelled, fun v p hp => .inl ⟨p, hp⟩⟩
  | cons a w ih =>
      have mem := tree.mem_of_run start
      have free := lacking a rfl
      let sprouted := g.sprout q (stem.length + 1) a (PrefixTree.demand outcome w).isAccept
      have next : sprouted.run (stem ++ [a]) = some g.fresh := tree.run_sprout_fresh start free
      have grown := ih (tree.sprout mem free) (tree.levelled_sprout levelled start free) next
        fun b _ => tree.transition_sprout_fresh mem
      rw [List.length_append, List.length_singleton] at grown
      refine ⟨grown.1, fun v p hp => ?_⟩
      rcases grown.2 v p hp with ⟨p', old⟩ | ⟨u, first, rfl⟩
      · rcases (tree.run_sprout mem free).mp old with old | ⟨_, v', hv, rfl⟩
        · exact .inl ⟨p', old⟩
        · rw [tree.unique v' stem q hv start]
          exact .inr ⟨[a], ⟨w, rfl⟩, rfl⟩
      · refine .inr ⟨a :: u, List.cons_prefix_cons.mpr ⟨rfl, first⟩, ?_⟩
        rw [List.append_assoc]
        rfl

end RootedTree

end Graph

namespace Trace

variable {trace : Trace α} {v : Word α} {a : α}

omit [Ord α] [TransOrd α] in
theorem demandsAt_reject : trace.DemandsAt v .reject ↔ trace = ⟨v, .reject⟩ := by
  constructor
  · rintro ⟨w, split, demanded⟩
    cases w with
    | nil =>
        rw [List.append_nil] at split
        obtain ⟨word, outcome⟩ := trace
        exact congrArg₂ Trace.mk split.symm demanded
    | cons a w => cases demanded
  · rintro rfl
    exact demandsAt_word _

omit [Ord α] [TransOrd α] in
theorem demandsAt_of_concat (h : v ++ [a] <+: trace.word) : trace.DemandsAt v .accept := by
  obtain ⟨w, split⟩ := h
  rw [List.append_assoc] at split
  exact ⟨_, split, rfl⟩

end Trace

namespace PrefixTree

variable {t t' : PrefixTree α} {kept : List (Trace α)} {trace : Trace α} {w : Word α} {q : StateId}
  {outcome : Outcome}

/-- The tree is the table of what the kept traces demand. Only a root that no trace has labelled
accepts without being asked to. -/
structure Denotes (t : PrefixTree α) (kept : List (Trace α)) : Prop where
  tree : t.graph.RootedTree
  levelled : t.graph.Levelled
  agrees : ∀ trace ∈ kept, t.graph.Agrees trace
  covered : ∀ w q, t.graph.run w = some q → w = [] ∨ ∃ trace ∈ kept, w <+: trace.word
  labelled : t.rootLabelled = false ↔ kept = []
  unlabelled : kept = [] → t.graph.accepting? t.graph.initial = some true

/-- Adding a trace puts every state on its level, and only prefixes of the trace gain a run. -/
theorem levelled_extend [LawfulEqOrd α] (tree : t.graph.RootedTree) (levelled : t.graph.Levelled)
    (h : t.extend trace = .ok t') :
    t'.graph.Levelled ∧
      ∀ v q, t'.graph.run v = some q → (∃ p, t.graph.run v = some p) ∨ v <+: trace.word := by
  obtain ⟨p, unread, hd, rfl⟩ := extend_eq_ok h
  obtain ⟨read, whole, last, stuck, _⟩ := descend_eq_ok hd rfl
  rw [List.nil_append] at last
  have depth : trace.word.length - unread.length = read.length := by
    rw [← whole, List.length_append, Nat.add_sub_cancel]
  have prefixes : ∀ u, u <+: unread → read ++ u <+: trace.word := fun u first =>
    whole ▸ (List.prefix_append_right_inj read).mpr first
  rw [depth]
  cases hw : trace.word.isEmpty with
  | true =>
      -- Labelling the root leaves runs and levels alone.
      obtain ⟨levels, runs⟩ := tree.setAccepting.grow levelled.setAccepting
        (Graph.run_setAccepting.trans last)
        fun a ha => Graph.transition_setAccepting.trans (stuck a ha)
      refine ⟨levels, fun v q hq => ?_⟩
      rcases runs v q hq with ⟨r, old⟩ | ⟨u, first, rfl⟩
      · exact .inl ⟨r, Graph.run_setAccepting.symm.trans old⟩
      · exact .inr (prefixes u first)
  | false =>
      obtain ⟨levels, runs⟩ := tree.grow levelled last stuck
      refine ⟨levels, fun v q hq => (runs v q hq).imp_right ?_⟩
      rintro ⟨u, first, rfl⟩
      exact prefixes u first

namespace Denotes

theorem empty (policy : ConflictPolicy) : (empty policy : PrefixTree α).Denotes [] where
  tree := .single true
  levelled w q h := by
    obtain rfl := Graph.eq_nil_of_run_single h
    obtain rfl := Option.some.inj h
    show (Graph.single true).depth? ⟨0⟩ = _
    rw [Graph.depth?, Graph.state?_single]
    rfl
  agrees := by simp
  covered w q h := .inl (Graph.eq_nil_of_run_single h)
  labelled := iff_of_true rfl rfl
  unlabelled _ := Graph.accepting?_single

variable [LawfulEqOrd α]

theorem extend (denotes : t.Denotes kept) (h : t.extend trace = .ok t') :
    t'.Denotes (kept ++ [trace]) := by
  obtain ⟨tree, agrees, grows⟩ := extend_spec denotes.tree h
    fun free => denotes.unlabelled (denotes.labelled.mp free)
  obtain ⟨levelled, runs⟩ := levelled_extend denotes.tree denotes.levelled h
  refine ⟨tree, levelled, fun s mem => ?_, fun w q hq => ?_, ?_, fun nothing => ?_⟩
  · rcases List.mem_append.mp mem with old | new
    · have labelled : t.rootLabelled = true := by
        rw [← Bool.not_eq_false, denotes.labelled]
        exact List.ne_nil_of_mem old
      exact (grows labelled).agrees (denotes.agrees s old)
    · rwa [List.mem_singleton.mp new]
  · rcases runs w q hq with ⟨p, old⟩ | first
    · refine (denotes.covered w p old).imp_right fun ⟨s, mem, first⟩ => ?_
      exact ⟨s, List.mem_append_left _ mem, first⟩
    · exact .inr ⟨trace, List.mem_concat_self, first⟩
  · obtain ⟨p, unread, _, rfl⟩ := extend_eq_ok h
    simp
  · exact absurd nothing (List.concat_ne_nil _ _)

theorem add (denotes : t.Denotes kept) (trace : Trace α) :
    (t.add trace).2.Denotes (if (t.add trace).1.isNone then kept ++ [trace] else kept) := by
  rw [PrefixTree.add]
  cases h : t.extend trace with
  | ok t' => exact denotes.extend h
  | error c => exact ⟨denotes.tree, denotes.levelled, denotes.agrees, denotes.covered,
      denotes.labelled, denotes.unlabelled⟩

theorem given (denotes : t.Denotes kept) (traces : List (Trace α)) :
    (t.given traces).Denotes (kept ++ t.kept traces) := by
  induction traces generalizing t kept with
  | nil => rwa [PrefixTree.kept, List.append_nil]
  | cons trace rest ih =>
      have next := ih (denotes.add trace)
      rw [PrefixTree.kept]
      cases h : (t.add trace).1 with
      | none => rwa [h, Option.isNone_none, if_pos rfl, List.append_assoc] at next
      | some c => rwa [h] at next

/-! ### Reading the table -/

omit [LawfulEqOrd α]

theorem exists_run_iff (denotes : t.Denotes kept) :
    (∃ q, t.graph.run w = some q) ↔ w = [] ∨ ∃ trace ∈ kept, w <+: trace.word := by
  constructor
  · exact fun ⟨q, hq⟩ => denotes.covered w q hq
  · rintro (rfl | ⟨trace, mem, u, split⟩)
    · exact ⟨_, rfl⟩
    · obtain ⟨q, hq, _⟩ := denotes.agrees trace mem w u split
      exact ⟨q, hq⟩

theorem exists_demanded (denotes : t.Denotes kept) (nonempty : kept ≠ [])
    (hq : t.graph.run w = some q) : ∃ outcome, Demanded kept w outcome := by
  obtain ⟨trace, mem, first⟩ : ∃ trace ∈ kept, w <+: trace.word := by
    rcases denotes.covered w q hq with rfl | found
    · obtain ⟨trace, mem⟩ := List.exists_mem_of_ne_nil kept nonempty
      exact ⟨trace, mem, List.nil_prefix⟩
    · exact found
  obtain ⟨outcome, demands⟩ := Trace.exists_demandsAt first
  exact ⟨outcome, trace, mem, demands⟩

theorem exists_run_of_demanded (denotes : t.Denotes kept) (h : Demanded kept w outcome) :
    ∃ q, t.graph.run w = some q ∧ t.graph.accepting? q = some outcome.isAccept := by
  obtain ⟨trace, mem, demands⟩ := h
  exact (denotes.agrees trace mem).exists_run demands

/-- Once a trace was kept, the flag of a state is what is demanded of its word. -/
theorem demanded_iff (denotes : t.Denotes kept) (nonempty : kept ≠ [])
    (hq : t.graph.run w = some q) :
    Demanded kept w outcome ↔ t.graph.accepting? q = some outcome.isAccept := by
  have flag : ∀ outcome, Demanded kept w outcome →
      t.graph.accepting? q = some outcome.isAccept := by
    intro outcome demanded
    obtain ⟨p, hp, flag⟩ := denotes.exists_run_of_demanded demanded
    rwa [Option.some.inj (hq.symm.trans hp)]
  refine ⟨flag outcome, fun given => ?_⟩
  obtain ⟨outcome', demanded⟩ := denotes.exists_demanded nonempty hq
  have same := Option.some.inj ((flag outcome' demanded).symm.trans given)
  rwa [← Outcome.ofBool_isAccept outcome, ← same, Outcome.ofBool_isAccept]

theorem rejecting_iff (denotes : t.Denotes kept) (hq : t.graph.run w = some q) :
    t.graph.accepting? q = some false ↔ ⟨w, .reject⟩ ∈ kept := by
  have reads : Demanded kept w .reject ↔ ⟨w, .reject⟩ ∈ kept := by
    simp only [Demanded, Trace.demandsAt_reject, exists_eq_right]
  rw [← reads]
  by_cases nothing : kept = []
  · refine iff_of_false (fun rejecting => ?_) fun ⟨trace, mem, _⟩ => ?_
    · obtain rfl : w = [] := (denotes.covered w q hq).resolve_right (by simp [nothing])
      obtain rfl : t.graph.initial = q := Option.some.inj hq
      rw [denotes.unlabelled nothing] at rejecting
      cases rejecting
    · exact List.ne_nil_of_mem mem nothing
  · have table : Demanded kept w .reject ↔
        t.graph.accepting? q = some Outcome.reject.isAccept := denotes.demanded_iff nothing hq
    exact table.symm

theorem isLeaf [LawfulEqOrd α] (denotes : t.Denotes kept)
    (rejecting : t.graph.accepting? q = some false) : t.graph.isLeaf q = true := by
  obtain ⟨w, hq⟩ := denotes.tree.reached q (Graph.accepting?_isSome.mp (by rw [rejecting]; rfl))
  refine Graph.isLeaf_iff.mpr fun a => Option.eq_none_iff_forall_ne_some.mpr fun p ha => ?_
  have next : t.graph.run (w ++ [a]) = some p := Graph.runFrom_concat_eq_some.mpr ⟨q, hq, ha⟩
  obtain ⟨trace, mem, first⟩ := (denotes.covered _ p next).resolve_left (List.concat_ne_nil _ _)
  -- What goes on in a kept trace was accepted by it.
  obtain ⟨r, hr, flag⟩ :=
    denotes.exists_run_of_demanded ⟨trace, mem, Trace.demandsAt_of_concat first⟩
  rw [← Option.some.inj (hq.symm.trans hr), rejecting] at flag
  cases flag

/-- The language of the tree is as all kept traces say. -/
theorem holdsIn (denotes : t.Denotes kept) {trace : Trace α} (mem : trace ∈ kept) :
    trace.HoldsIn (t.graph.language t.graph.initial) :=
  (denotes.agrees trace mem).holdsIn

theorem consistent (denotes : t.Denotes kept) : Consistent kept :=
  ⟨_, Graph.prefixClosed_language, fun _ => denotes.holdsIn⟩

/-- The language of the tree is the least one that the kept traces allow. Before a trace was kept
the root accepts all the same. -/
theorem accepts_iff (denotes : t.Denotes kept) : t.graph.accepts w = true ↔
    (∀ L, PrefixClosed L → (∀ trace ∈ kept, trace.HoldsIn L) → w ∈ L) ∨ kept = [] ∧ w = [] := by
  constructor
  · intro accepted
    obtain ⟨q, hq, accepting⟩ := Graph.acceptsFrom_iff.mp accepted w [] (List.append_nil w)
    by_cases nothing : kept = []
    · exact .inr ⟨nothing, (denotes.covered w q hq).resolve_right (by simp [nothing])⟩
    · obtain ⟨trace, mem, demands⟩ : Demanded kept w .accept :=
        (denotes.demanded_iff nothing hq).mpr accepting
      exact .inl fun L closed all =>
        ((Trace.holdsIn_iff closed).mp (all trace mem) w _ demands).mpr rfl
  · rintro (least | ⟨nothing, rfl⟩)
    · exact Graph.mem_language.mp
        (least _ Graph.prefixClosed_language fun _ => denotes.holdsIn)
    · exact Graph.acceptsFrom_nil.mpr (denotes.unlabelled nothing)

end Denotes

variable [LawfulEqOrd α]

/-- Whatever traces are given to a fresh tree, its states stand for the prefixes of those that it
kept, each on its level, and the rejected words among them are the rejecting leaves. So the tree
accepts just the words that are in every language that is as the kept traces say. -/
theorem tree_denotes_traces (policy : ConflictPolicy) (traces : List (Trace α)) :
    let g := ((empty policy : PrefixTree α).given traces).graph
    let kept := (empty policy : PrefixTree α).kept traces
    (∀ w, (∃ q, g.run w = some q) ↔ w = [] ∨ ∃ trace ∈ kept, w <+: trace.word) ∧
      (∀ v w q, g.run v = some q → g.run w = some q → v = w) ∧
      (∀ q ∈ g, ∃ w, g.run w = some q) ∧
      (∀ w q, g.run w = some q →
        (g.accepting? q = some false ↔ .rejected w ∈ kept) ∧ g.depth? q = some w.length) ∧
      g.isTreeFrom g.initial = true ∧ g.isTrim = true ∧
      (∀ q, g.accepting? q = some false → g.isLeaf q = true) ∧
      ∀ w, g.accepts w = true ↔
        (∀ L, PrefixClosed L → (∀ trace ∈ kept, trace.HoldsIn L) → w ∈ L) ∨
          kept = [] ∧ w = [] := by
  intro g kept
  have denotes : ((empty policy : PrefixTree α).given traces).Denotes kept :=
    (Denotes.empty policy).given traces
  exact ⟨fun w => denotes.exists_run_iff, denotes.tree.unique, denotes.tree.reached,
    fun w q hq => ⟨denotes.rejecting_iff hq, denotes.levelled w q hq⟩,
    Graph.isTreeFrom_iff.mpr denotes.tree.treeFrom_initial, denotes.tree.isTrim,
    fun q => denotes.isLeaf, fun w => denotes.accepts_iff⟩

/-- Traces of which the second, the fourth and the last contradict those before them. -/
def quarrel : List (Trace Nat) :=
  [.accepted [0, 1], .rejected [0], .rejected [1], .accepted [1, 0], .rejected [0, 1, 1],
    .rejected []]

theorem quarrel_denoted :
    let g := ((empty .keepFirst).given quarrel).graph
    let kept := [.accepted [0, 1], .rejected [1], .rejected [0, 1, 1]]
    (empty .keepFirst).kept quarrel = kept ∧ g.isTrim = true ∧
      (∀ w, (∃ q, g.run w = some q) ↔ w = [] ∨ ∃ trace ∈ kept, w <+: trace.word) ∧
      ∀ w, g.accepts w = true ↔
        (∀ L, PrefixClosed L → (∀ trace ∈ kept, trace.HoldsIn L) → w ∈ L) ∨
          kept = [] ∧ w = [] := by
  intro g kept
  have same : (empty .keepFirst).kept quarrel = kept := by decide +kernel
  obtain ⟨runs, _, _, _, _, trim, _, least⟩ := tree_denotes_traces .keepFirst quarrel
  rw [same] at runs least
  exact ⟨same, trim, runs, least⟩

end PrefixTree

end BlueFringe
