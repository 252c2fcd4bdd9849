import BlueFringe.Proofs.Conflicts

/-!
# Skipping traces

A tree that skips what contradicts it takes every sample. The traces that it skips are those that
contradict the ones kept before them, and they leave nothing behind: the same tree results, state by
state, from adding the other traces alone, and then none of them is refused.
-/

namespace BlueFringe

open Std

variable {α : Type}

/-- The traces at other positions than these. -/
def omitting (traces : List (Trace α)) (positions : List Nat) : List (Trace α) :=
  (traces.zipIdx.filter fun entry => entry.2 ∉ positions).map Prod.fst

/-- The trace at this position contradicts the traces before it, those at the given positions not
counted. -/
def ContradictedAt (traces : List (Trace α)) (positions : List Nat) (i : Nat) : Prop :=
  ∃ trace, traces[i]? = some trace ∧ ¬ Consistent (omitting (traces.take i) positions ++ [trace])

variable {traces rest : List (Trace α)} {trace : Trace α} {positions positions' : List Nat}
  {i : Nat}

theorem omitting_congr (same : ∀ j < traces.length, j ∈ positions ↔ j ∈ positions') :
    omitting traces positions = omitting traces positions' := by
  refine congrArg (List.map Prod.fst) (List.filter_congr fun entry mem => ?_)
  have bound : entry.2 < traces.length := List.snd_lt_of_mem_zipIdx mem
  exact decide_eq_decide.mpr (not_congr (same entry.2 bound))

theorem omitting_concat : omitting (traces ++ [trace]) positions =
    omitting traces positions ++ if traces.length ∈ positions then [] else [trace] := by
  rw [omitting, List.zipIdx_append, List.filter_append, List.map_append, Nat.zero_add]
  by_cases mem : traces.length ∈ positions <;> simp [omitting, mem]

theorem ContradictedAt.lt_length (h : ContradictedAt traces positions i) : i < traces.length := by
  obtain ⟨trace, found, _⟩ := h
  exact (List.getElem?_eq_some_iff.mp found).1

/-- One more trace contradicts those before it or not; for the others nothing changes. -/
theorem contradictedAt_concat (same : ∀ j < traces.length, j ∈ positions ↔ j ∈ positions') :
    ContradictedAt (traces ++ [trace]) positions' i ↔ ContradictedAt traces positions i ∨
      i = traces.length ∧ ¬ Consistent (omitting traces positions ++ [trace]) := by
  rcases Nat.lt_trichotomy i traces.length with lt | rfl | gt
  · have before : ∀ j < (traces.take i).length, j ∈ positions ↔ j ∈ positions' := fun j hj =>
      same j (Nat.lt_of_lt_of_le hj (List.length_take_le' i traces))
    rw [ContradictedAt, List.getElem?_append_left lt, List.take_append_of_le_length lt.le,
      ← omitting_congr before, ← ContradictedAt]
    simp [lt.ne]
  · have old : ¬ ContradictedAt traces positions traces.length := fun h => h.lt_length.false
    rw [or_iff_right old, and_iff_right rfl, ContradictedAt, List.getElem?_concat_length,
      List.take_left, ← omitting_congr same]
    simp
  · refine iff_of_false (fun h => ?_) ?_
    · have := h.lt_length
      rw [List.length_append, List.length_singleton] at this
      omega
    · rintro (h | ⟨rfl, _⟩)
      · exact gt.not_gt h.lt_length
      · exact gt.false

namespace PrefixTree

variable [Ord α] [TransOrd α] {t t' : PrefixTree α} {outcome : Outcome} {q : StateId}
  {stem w : Word α} {r : StateId × Word α}

/-- The positions of the traces that were skipped. -/
def skippedPositions (t : PrefixTree α) : List Nat := t.skipped.map (·.trace)

/-- The trees check and extend traces in the same way. They may have counted, skipped and stopped
differently. -/
structure Alike (t t' : PrefixTree α) : Prop where
  graph : t.graph = t'.graph
  rootLabelled : t.rootLabelled = t'.rootLabelled

namespace Alike

omit [TransOrd α] in
theorem clash_eq_none {unread : Word α} (alike : t.Alike t')
    (h : t.clash outcome q stem unread = none) : t'.clash outcome q stem unread = none := by
  rw [PrefixTree.clash_eq_none] at h ⊢
  rwa [recorded, ← alike.graph, ← alike.rootLabelled]

theorem descend (alike : t.Alike t') (h : t.descend outcome q stem w = .ok r) :
    t'.descend outcome q stem w = .ok r := by
  induction w generalizing q stem with
  | nil =>
      rw [PrefixTree.descend] at h ⊢
      cases checked : t.clash outcome q stem [] with
      | none => rwa [alike.clash_eq_none checked, ← checked]
      | some c => simp [checked] at h
  | cons a w ih =>
      rw [PrefixTree.descend] at h ⊢
      cases checked : t.clash outcome q stem (a :: w) with
      | none =>
          rw [checked] at h
          rw [alike.clash_eq_none checked, ← alike.graph]
          dsimp only at h ⊢
          cases next : t.graph.transition q a with
          | none => rwa [next] at h
          | some p =>
              rw [next] at h
              exact ih h
      | some c => simp [checked] at h

theorem extend {t₁ : PrefixTree α} (alike : t.Alike t') (h : t.extend trace = .ok t₁) :
    ∃ t₁', t'.extend trace = .ok t₁' ∧ t₁.Alike t₁' := by
  obtain ⟨q, unread, followed, rfl⟩ := extend_eq_ok h
  have followed' := alike.descend followed
  rw [alike.graph] at followed'
  refine ⟨_, bind_eq_ok.mpr ⟨_, followed', rfl⟩, ?_, rfl⟩
  rw [alike.graph]

end Alike

theorem addAll_append (h : t.addAll traces = (none, t')) :
    t.addAll (traces ++ rest) = t'.addAll rest := by
  induction traces generalizing t with
  | nil => rw [List.nil_append, (Prod.mk.inj h).2]
  | cons trace traces ih =>
      rw [List.cons_append]
      rw [addAll] at h ⊢
      split at h
      · exact ih h
      · split at h
        · cases h
        · exact ih h

/-- The tree has taken the traces and skipped just those that contradict the ones kept before them.
The kept ones make up the same tree without the others. -/
structure Sifts (t : PrefixTree α) (traces : List (Trace α)) : Prop where
  policy : t.policy = .keepFirst
  traceCount : t.traceCount = traces.length
  increasing : t.skippedPositions.Pairwise (· < ·)
  mem_iff : ∀ i, i ∈ t.skippedPositions ↔ ContradictedAt traces t.skippedPositions i
  denotes : t.Denotes (omitting traces t.skippedPositions)
  again : ∃ t', (empty .abort).addAll (omitting traces t.skippedPositions) = (none, t') ∧ t'.Alike t

namespace Sifts

theorem empty : (empty .keepFirst : PrefixTree α).Sifts [] where
  policy := rfl
  traceCount := rfl
  increasing := .nil
  mem_iff i := iff_of_false List.not_mem_nil fun h => Nat.not_lt_zero i h.lt_length
  denotes := .empty .keepFirst
  again := ⟨_, rfl, rfl, rfl⟩

theorem lt_length (sifts : t.Sifts traces) (mem : i ∈ t.skippedPositions) : i < traces.length :=
  ((sifts.mem_iff i).mp mem).lt_length

variable [LawfulEqOrd α]

/-- A trace that the tree can take is kept. -/
theorem keep (sifts : t.Sifts traces) (h : t.extend trace = .ok t') :
    t'.Sifts (traces ++ [trace]) := by
  have kept : t'.skippedPositions = t.skippedPositions := by
    obtain ⟨q, unread, _, rfl⟩ := extend_eq_ok h
    rfl
  have count : t'.traceCount = t.traceCount + 1 := by
    obtain ⟨q, unread, _, rfl⟩ := extend_eq_ok h
    rfl
  have consistent := sifts.denotes.consistent_iff.mpr ⟨t', h⟩
  have more : omitting (traces ++ [trace]) t'.skippedPositions =
      omitting traces t.skippedPositions ++ [trace] := by
    rw [kept, omitting_concat, if_neg fun mem => (sifts.lt_length mem).false]
  refine ⟨(policy_extend h).trans sifts.policy, ?_, kept ▸ sifts.increasing, fun i => ?_, ?_, ?_⟩
  · rw [count, sifts.traceCount, List.length_append, List.length_singleton]
  · rw [kept, contradictedAt_concat fun _ _ => Iff.rfl, ← sifts.mem_iff]
    simp [consistent]
  · rw [more]
    exact sifts.denotes.extend h
  · obtain ⟨t₀, added, alike⟩ := sifts.again
    obtain ⟨t₁, h₁, alike₁⟩ := Alike.extend ⟨alike.graph.symm, alike.rootLabelled.symm⟩ h
    refine ⟨t₁, ?_, alike₁.graph.symm, alike₁.rootLabelled.symm⟩
    rw [more, addAll_append added, addAll, add, h₁]
    rfl

omit [LawfulEqOrd α] in
/-- A trace that contradicts the tree is skipped, and its position is remembered. -/
theorem skip {c : Conflict α} (sifts : t.Sifts traces) (h : t.extend trace = .error c) :
    ({ t with traceCount := t.traceCount + 1, skipped := t.skipped ++ [c] } : PrefixTree α).Sifts
      (traces ++ [trace]) := by
  set t' : PrefixTree α := { t with traceCount := t.traceCount + 1, skipped := t.skipped ++ [c] }
  have kept : t'.skippedPositions = t.skippedPositions ++ [traces.length] := by
    rw [skippedPositions, List.map_append, List.map_singleton, trace_of_extend h, sifts.traceCount]
    rfl
  have same : ∀ j < traces.length, j ∈ t.skippedPositions ↔ j ∈ t'.skippedPositions := by
    intro j hj
    simp [kept, hj.ne]
  have inconsistent := (sifts.denotes.disputed h).1.not_consistent
  have less : omitting (traces ++ [trace]) t'.skippedPositions =
      omitting traces t.skippedPositions := by
    rw [omitting_concat, if_pos (kept ▸ List.mem_concat_self), List.append_nil, omitting_congr same]
  refine ⟨sifts.policy, ?_, ?_, fun i => ?_, ?_, ?_⟩
  · rw [List.length_append, List.length_singleton, ← sifts.traceCount]
  · rw [kept, List.pairwise_append]
    exact ⟨sifts.increasing, List.pairwise_singleton .., fun i mem j last =>
      List.mem_singleton.mp last ▸ sifts.lt_length mem⟩
  · rw [contradictedAt_concat same, ← sifts.mem_iff, kept, List.mem_append, List.mem_singleton]
    simp [inconsistent]
  · rw [less]
    exact ⟨sifts.denotes.tree, sifts.denotes.levelled, sifts.denotes.agrees, sifts.denotes.covered,
      sifts.denotes.labelled, sifts.denotes.unlabelled⟩
  · obtain ⟨t₀, added, alike⟩ := sifts.again
    exact ⟨t₀, less ▸ added, alike.graph, alike.rootLabelled⟩

theorem addAll (sifts : t.Sifts traces) (rest : List (Trace α)) :
    ∃ t', t.addAll rest = (none, t') ∧ t'.Sifts (traces ++ rest) := by
  induction rest generalizing t traces with
  | nil => exact ⟨t, rfl, by rwa [List.append_nil]⟩
  | cons trace rest ih =>
      rw [PrefixTree.addAll, add, List.append_cons]
      cases h : t.extend trace with
      | ok t' => exact ih (sifts.keep h)
      | error c =>
          have skipped := ih (sifts.skip h)
          dsimp only
          rwa [sifts.policy] at skipped ⊢

end Sifts

/-- A tree that skips conflicts takes every list of traces. The positions of the skipped ones are
increasing, and a trace is skipped just if no prefix-closed language is as it and the traces kept
before it say. A tree that stops at the first conflict takes the kept traces alone without one and
gets the same graph. -/
theorem keepFirst_eq_abort [LawfulEqOrd α] (traces : List (Trace α)) :
    ∃ t t' : PrefixTree α, (PrefixTree.empty .keepFirst).addAll traces = (none, t) ∧
      let skipped := t.skipped.map (·.trace)
      skipped.Pairwise (· < ·) ∧
        (∀ i, i ∈ skipped ↔ ∃ trace, traces[i]? = some trace ∧
          ¬ Consistent (omitting (traces.take i) skipped ++ [trace])) ∧
        ofTraces .abort (omitting traces skipped) = .ok t' ∧ t'.graph = t.graph ∧
          t'.rootLabelled = t.rootLabelled ∧ t.traceCount = traces.length := by
  obtain ⟨t, added, sifts⟩ := Sifts.empty.addAll traces
  rw [List.nil_append] at sifts
  obtain ⟨t', again, alike⟩ := sifts.again
  refine ⟨t, t', added, sifts.increasing, sifts.mem_iff, ?_, alike.graph, alike.rootLabelled,
    sifts.traceCount⟩
  rw [skippedPositions] at again
  rw [ofTraces, again]

/-- The fourth trace contradicts the third one, the second one does not count any more. -/
theorem quarrel_skipped :
    let t := ((empty .keepFirst).addAll quarrel).2
    t.skipped.map (·.trace) = [1, 3, 5] ∧
      ¬ Consistent [.accepted [0, 1], .rejected [1], .accepted [1, 0]] ∧
      ∃ t', ofTraces .abort [.accepted [0, 1], .rejected [1], .rejected [0, 1, 1]] = .ok t' ∧
        t'.graph = t.graph := by
  intro t
  have positions : t.skipped.map (·.trace) = [1, 3, 5] := by decide +kernel
  obtain ⟨u, t', added, _, contradicted, alone, same, _⟩ := keepFirst_eq_abort quarrel
  obtain rfl : t = u := congrArg Prod.snd added
  rw [positions] at contradicted alone
  obtain ⟨trace, fourth, refused⟩ := (contradicted 3).mp (by decide)
  obtain rfl : Trace.accepted [1, 0] = trace := Option.some.inj fourth
  exact ⟨positions, refused, t', alone, same⟩

end PrefixTree

end BlueFringe
