import BlueFringe.Proofs.Denotation

/-!
# Conflicts

A trace is refused just if no language is as it and the traces in the tree say. The conflict names
the shortest prefix on which they differ, and the tree stays as it was. So the order of traces
without a conflict does not matter: they are all added in any other order, and the same tree results
under other names.
-/

namespace BlueFringe

open Std

variable {α : Type} [Ord α] [TransOrd α]

/-- The traces and one more trace demand different outcomes of a word. -/
def Disputed (traces : List (Trace α)) (trace : Trace α) (v : Word α)
    (recorded requested : Outcome) : Prop :=
  Demanded traces v recorded ∧ trace.DemandsAt v requested ∧ recorded ≠ requested

variable {traces : List (Trace α)} {trace : Trace α} {v : Word α} {recorded requested : Outcome}

omit [Ord α] [TransOrd α] in
theorem Disputed.not_consistent (disputed : Disputed traces trace v recorded requested) :
    ¬ Consistent (traces ++ [trace]) := by
  obtain ⟨⟨s, mem, demands⟩, demands', ne⟩ := disputed
  exact fun consistent => ne (consistent.unique ⟨s, List.mem_append_left _ mem, demands⟩
    ⟨trace, List.mem_concat_self, demands'⟩)

namespace Graph

/-- The second graph is the first one with other names for its states. -/
structure Isomorphism (g g' : Graph α) (h : StateId → StateId) : Prop where
  bijOn : Set.BijOn h {q | q ∈ g} {q | q ∈ g'}
  initial : h g.initial = g'.initial
  accepting : ∀ q ∈ g, g'.accepting? (h q) = g.accepting? q
  depth : ∀ q ∈ g, g'.depth? (h q) = g.depth? q
  colour : ∀ q ∈ g, g'.colour? (h q) = g.colour? q
  transition : ∀ q ∈ g, ∀ a, g'.transition (h q) a = (g.transition q a).map h

variable {g g' : Graph α} {q : StateId}

/-- Trees that grow into each other have the same words, so the word of a state names it in both. -/
theorem RootedTree.exists_map_run (tree : g.RootedTree) (grows : g.Grows g') (back : g'.Grows g) :
    ∃ h : StateId → StateId, ∀ w, g'.run w = (g.run w).map h := by
  have named : ∀ q, ∃ p, q ∈ g → ∃ w, g.run w = some q ∧ g'.run w = some p := by
    intro q
    by_cases mem : q ∈ g
    · obtain ⟨w, hw⟩ := tree.reached q mem
      obtain ⟨p, hp, _⟩ := grows w q hw
      exact ⟨p, fun _ => ⟨w, hw, hp⟩⟩
    · exact ⟨q, fun mem' => absurd mem' mem⟩
  choose h named using named
  have next : ∀ w q, g.run w = some q → g'.run w = some (h q) := by
    intro w q hq
    obtain ⟨v, hv, hp⟩ := named q (tree.mem_of_run hq)
    rwa [tree.unique w v q hq hv]
  refine ⟨h, fun w => ?_⟩
  cases hw : g.run w with
  | some q => rw [next w q hw, Option.map_some]
  | none =>
      rw [Option.map_none, Option.eq_none_iff_forall_ne_some]
      intro p hp
      obtain ⟨q, hq, _⟩ := back w p hp
      cases hw.symm.trans hq

theorem RootedTree.isomorphism {h : StateId → StateId} (tree : g.RootedTree)
    (tree' : g'.RootedTree) (levelled : g.Levelled) (levelled' : g'.Levelled) (grows : g.Grows g')
    (run : ∀ w, g'.run w = (g.run w).map h) : g.Isomorphism g' h := by
  have next : ∀ {w q}, g.run w = some q → g'.run w = some (h q) := fun hq => by
    rw [run, hq, Option.map_some]
  refine ⟨⟨fun q mem => ?_, fun q mem p mem' same => ?_, fun p mem => ?_⟩,
    Option.some.inj (next (w := []) rfl).symm, fun q mem => ?_, fun q mem => ?_, fun q mem => ?_,
    fun q mem a => ?_⟩
  · obtain ⟨w, hw⟩ := tree.reached q mem
    exact tree'.mem_of_run (next hw)
  · obtain ⟨v, hv⟩ := tree.reached q mem
    obtain ⟨w, hw⟩ := tree.reached p mem'
    obtain rfl := tree'.unique v w _ (next hv) (same ▸ next hw)
    exact Option.some.inj (hv.symm.trans hw)
  · obtain ⟨w, hw⟩ := tree'.reached p mem
    rw [run, Option.map_eq_some_iff] at hw
    obtain ⟨q, hq, same⟩ := hw
    exact ⟨q, tree.mem_of_run hq, same⟩
  · obtain ⟨w, hw⟩ := tree.reached q mem
    obtain ⟨p, hp, flag⟩ := grows w q hw
    rwa [← Option.some.inj (hp.symm.trans (next hw))]
  · obtain ⟨w, hw⟩ := tree.reached q mem
    rw [levelled w q hw, levelled' w _ (next hw)]
  · obtain ⟨w, hw⟩ := tree.reached q mem
    rw [tree.colour?_of_mem mem, tree'.colour?_of_mem (tree'.mem_of_run (next hw))]
  · obtain ⟨w, hw⟩ := tree.reached q mem
    rw [← run_concat (next hw), ← run_concat hw, run]

end Graph

namespace PrefixTree

variable {t t' : PrefixTree α} {kept kept' : List (Trace α)} {c : Conflict α}

theorem add_eq_some : t.add trace = (some c, t') ↔
    t.extend trace = .error c ∧ { t with traceCount := t.traceCount + 1 } = t' := by
  rw [add]
  cases t.extend trace <;> simp

theorem policy_extend (h : t.extend trace = .ok t') : t'.policy = t.policy := by
  obtain ⟨p, unread, _, rfl⟩ := extend_eq_ok h
  rfl

namespace Denotes

/-! ### Soundness and completeness -/

/-- A conflict names the shortest prefix on which the trace and the tree differ. -/
theorem disputed (denotes : t.Denotes kept) (h : t.extend trace = .error c) :
    Disputed kept trace c.stem c.recorded c.requested ∧
      ∀ v recorded requested, Disputed kept trace v recorded requested →
        c.stem.length ≤ v.length := by
  obtain ⟨read, unread, r, whole, last, clear, clash⟩ := descend_eq_error (extend_eq_error h) rfl
  rw [List.nil_append] at last clash
  obtain ⟨ne, labelled, rfl⟩ := clash_eq_some.mp clash
  have nonempty : kept ≠ [] := by
    intro nothing
    have root : read = [] := (denotes.covered read r last).resolve_right (by simp [nothing])
    rw [denotes.labelled.mpr nothing] at labelled
    cases labelled root
  have table : ∀ v q, t.graph.run v = some q → Demanded kept v (t.recorded q) := fun v q hq =>
    (denotes.demanded_iff nonempty hq).mpr
      (accepting?_of_recorded (denotes.tree.mem_of_run hq) rfl)
  refine ⟨⟨table read r last, ⟨unread, whole, rfl⟩, ne⟩, ?_⟩
  rintro v recorded requested ⟨demanded, demands, apart⟩
  by_contra shorter
  obtain ⟨rest, split, _⟩ := id demands
  obtain ⟨u, rfl⟩ : v <+: read :=
    List.prefix_of_prefix_length_le ⟨rest, split⟩ ⟨unread, whole⟩ (Nat.le_of_not_le shorter)
  have ne' : u ≠ [] := by
    rintro rfl
    exact shorter (by simp)
  obtain ⟨q, hq, passed⟩ := clear v u rfl ne'
  rcases clash_eq_none.mp passed with same | ⟨_, free⟩
  · -- On the way both sides demand what the tree records.
    rw [List.nil_append] at hq
    have here : trace.DemandsAt v (t.recorded q) :=
      ⟨u ++ unread, by rw [← List.append_assoc, whole], same.symm⟩
    exact apart ((denotes.consistent.unique demanded (table v q hq)).trans (here.unique demands))
  · exact nonempty (denotes.labelled.mp free)

variable [LawfulEqOrd α]

theorem consistent_iff (denotes : t.Denotes kept) :
    Consistent (kept ++ [trace]) ↔ ∃ t', t.extend trace = .ok t' := by
  constructor
  · intro consistent
    cases h : t.extend trace with
    | ok t' => exact ⟨t', rfl⟩
    | error c => exact absurd consistent (denotes.disputed h).1.not_consistent
  · rintro ⟨t', h⟩
    exact (denotes.extend h).consistent

/-! ### The order of traces -/

omit [LawfulEqOrd α] in
/-- A tree is part of any tree that kept the same traces. -/
theorem grows (denotes : t.Denotes kept) (denotes' : t'.Denotes kept') (perm : kept.Perm kept') :
    t.graph.Grows t'.graph := by
  intro w q hq
  by_cases nothing : kept = []
  · obtain rfl : w = [] := (denotes.covered w q hq).resolve_right (by simp [nothing])
    obtain rfl : t.graph.initial = q := Option.some.inj hq
    refine ⟨t'.graph.initial, rfl, ?_⟩
    rw [denotes.unlabelled nothing, denotes'.unlabelled (nothing ▸ perm).nil_eq.symm]
  · obtain ⟨outcome, trace, mem, demands⟩ := denotes.exists_demanded nothing hq
    obtain ⟨p, hp, flag⟩ :=
      denotes'.exists_run_of_demanded ⟨trace, perm.mem_iff.mp mem, demands⟩
    exact ⟨p, hp, flag.trans ((denotes.demanded_iff nothing hq).mp ⟨trace, mem, demands⟩).symm⟩

omit [LawfulEqOrd α] in
theorem exists_isomorphism (denotes : t.Denotes kept) (denotes' : t'.Denotes kept')
    (perm : kept.Perm kept') : ∃ h, t.graph.Isomorphism t'.graph h := by
  have grows := denotes.grows denotes' perm
  obtain ⟨h, run⟩ := denotes.tree.exists_map_run grows (denotes'.grows denotes perm.symm)
  exact ⟨h, denotes.tree.isomorphism denotes'.tree denotes.levelled denotes'.levelled grows run⟩

theorem addAll (denotes : t.Denotes kept) (traces : List (Trace α)) (abort : t.policy = .abort) :
    match t.addAll traces with
    | (none, t') => t'.Denotes (kept ++ traces)
    | (some _, _) => ¬ Consistent (kept ++ traces) := by
  induction traces generalizing t kept with
  | nil => rwa [PrefixTree.addAll, List.append_nil]
  | cons trace rest ih =>
      rw [PrefixTree.addAll, PrefixTree.add]
      cases h : t.extend trace with
      | ok t' =>
          rw [List.append_cons]
          exact ih (denotes.extend h) ((policy_extend h).trans abort)
      | error c =>
          dsimp only
          rw [abort]
          intro consistent
          rw [List.append_cons] at consistent
          exact (denotes.disputed h).1.not_consistent
            (consistent.mono (List.subset_append_left _ rest))

end Denotes

variable [LawfulEqOrd α]

theorem ofTraces_abort (traces : List (Trace α)) :
    match ofTraces .abort traces with
    | .ok t => t.Denotes traces
    | .error _ => ¬ Consistent traces := by
  have all := (Denotes.empty .abort).addAll traces rfl
  rw [ofTraces]
  split at all <;> simp_all

theorem denotes_of_ofTraces (h : ofTraces .abort traces = .ok t) : t.Denotes traces := by
  have all := ofTraces_abort traces
  rwa [h] at all

theorem exists_ofTraces_iff :
    (∃ t, ofTraces .abort traces = .ok t) ↔ Consistent traces := by
  have all := ofTraces_abort traces
  cases h : ofTraces .abort traces with
  | ok t =>
      rw [h] at all
      exact iff_of_true ⟨t, rfl⟩ all.consistent
  | error c =>
      rw [h] at all
      exact iff_of_false (by simp) all

/-- Adding a trace to a tree that others were given to fails just if no language is as the kept ones
and this one say. A conflict names the shortest word of which they demand different outcomes, and
apart from the count of traces nothing changes. If adding stops at the first conflict, it does so in
every order of the traces or in none, and without a conflict the same tree results, up to the names
of its states. -/
theorem conflicts_exact (policy : ConflictPolicy) (traces : List (Trace α)) (trace : Trace α) :
    let t := (empty policy : PrefixTree α).given traces
    let kept := (empty policy : PrefixTree α).kept traces
    ((∃ c, (t.add trace).1 = some c) ↔ ¬ Consistent (kept ++ [trace])) ∧
      (∀ c t', t.add trace = (some c, t') →
        t' = { t with traceCount := t.traceCount + 1 } ∧ c.trace = t.traceCount ∧
          Disputed kept trace c.stem c.recorded c.requested ∧
          ∀ v recorded requested, Disputed kept trace v recorded requested →
            c.stem.length ≤ v.length) ∧
      (∀ v outcome outcome', Demanded kept v outcome → Demanded kept v outcome' →
        outcome = outcome') ∧
      ∀ sample sample' : List (Trace α), sample.Perm sample' →
        ((∃ t, ofTraces .abort sample = .ok t) ↔ ∃ t', ofTraces .abort sample' = .ok t') ∧
          ∀ t t', ofTraces .abort sample = .ok t → ofTraces .abort sample' = .ok t' →
            ∃ h, t.graph.Isomorphism t'.graph h := by
  intro t kept
  have denotes : t.Denotes kept := (Denotes.empty policy).given traces
  refine ⟨?_, fun c t' failed => ?_, fun v _ _ => denotes.consistent.unique,
    fun sample sample' perm => ⟨?_, fun t t' ht ht' => ?_⟩⟩
  · rw [denotes.consistent_iff, add]
    cases t.extend trace <;> simp
  · obtain ⟨h, rfl⟩ := add_eq_some.mp failed
    exact ⟨rfl, trace_of_extend h, denotes.disputed h⟩
  · rw [exists_ofTraces_iff, exists_ofTraces_iff]
    exact ⟨.mono perm.symm.subset, .mono perm.subset⟩
  · exact (denotes_of_ofTraces ht).exists_isomorphism (denotes_of_ofTraces ht') perm

theorem quarrel_refused :
    let t := (empty .abort).given quarrel
    let kept := [.accepted [0, 1], .rejected [1], .rejected [0, 1, 1]]
    (t.add (.accepted [1, 0, 0])).1 = some ⟨6, [1], .reject, .accept⟩ ∧
      ¬ Consistent (kept ++ [.accepted [1, 0, 0]]) ∧
      (∀ v recorded requested, Disputed kept (.accepted [1, 0, 0]) v recorded requested →
        1 ≤ v.length) ∧
      ∃ t t', ofTraces .abort kept = .ok t ∧ ofTraces .abort kept.reverse = .ok t' ∧
        ∃ h, t.graph.Isomorphism t'.graph h := by
  intro t kept
  have facts : (empty .abort).kept quarrel = kept ∧
      (t.add (.accepted [1, 0, 0])).1 = some ⟨6, [1], .reject, .accept⟩ ∧
      (ofTraces .abort kept).isOk = true := by decide +kernel
  obtain ⟨same, found, added⟩ := facts
  obtain ⟨refused, conflict, _, order⟩ := conflicts_exact .abort quarrel (.accepted [1, 0, 0])
  rw [same] at refused conflict
  obtain ⟨_, _, _, least⟩ := conflict _ _ (Prod.ext found rfl)
  obtain ⟨success, isomorphic⟩ := order kept kept.reverse (List.reverse_perm kept).symm
  obtain ⟨t₁, h₁⟩ : ∃ t, ofTraces .abort kept = .ok t := by
    cases h : ofTraces .abort kept with
    | ok t₁ => exact ⟨t₁, rfl⟩
    | error c => simp [h, Except.isOk, Except.toBool] at added
  obtain ⟨t₂, h₂⟩ := success.mp ⟨t₁, h₁⟩
  exact ⟨found, refused.mp ⟨_, found⟩, least, t₁, t₂, h₁, h₂, isomorphic t₁ t₂ h₁ h₂⟩

end PrefixTree

end BlueFringe
