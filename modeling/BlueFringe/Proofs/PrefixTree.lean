import BlueFringe.Proofs.RootedTree
import BlueFringe.Proofs.Traversals

/-!
# Prefix trees agree with their traces

A trace that the tree does not contradict is added as a path: what the path shares with the tree was
checked on the way down, the rest sprouts. Afterwards the tree agrees with the trace, and with all
traces that were added before.
-/

namespace BlueFringe

open Std

variable {α : Type} [Ord α] [TransOrd α]

/-- Every prefix of the trace has a run and is classified as the trace demands. -/
def Graph.Agrees (g : Graph α) (trace : Trace α) : Prop :=
  ∀ v w, v ++ w = trace.word → ∃ q, g.run v = some q ∧
    g.accepting? q = some (PrefixTree.demand trace.outcome w).isAccept

namespace Graph

variable {g g' : Graph α} {trace : Trace α}

theorem Grows.agrees (grows : g.Grows g') (agrees : g.Agrees trace) : g'.Agrees trace := by
  intro v w split
  obtain ⟨q, hq, flag⟩ := agrees v w split
  obtain ⟨p, hp, flag'⟩ := grows v q hq
  exact ⟨p, hp, flag'.trans flag⟩

theorem Agrees.accepts_eq (agrees : g.Agrees trace) :
    g.accepts trace.word = trace.outcome.isAccept := by
  rw [Bool.eq_iff_iff, accepts, acceptsFrom_iff]
  constructor
  · intro all
    obtain ⟨q, hq, flag⟩ := agrees trace.word [] (List.append_nil _)
    obtain ⟨p, hp, accepting⟩ := all trace.word [] (List.append_nil _)
    rw [← Option.some.inj (hp.symm.trans hq), accepting] at flag
    exact (Option.some.inj flag).symm
  · intro accepted v u split
    obtain ⟨q, hq, flag⟩ := agrees v u split
    refine ⟨q, hq, ?_⟩
    rw [flag, PrefixTree.demand]
    split
    · rw [accepted]
    · rfl

end Graph

namespace PrefixTree

variable {t t' : PrefixTree α} {outcome : Outcome} {q p : StateId} {stem unread w : Word α}
  {trace : Trace α} {c : Conflict α} {g : Graph α}

/-! ### Checking a trace -/

omit [TransOrd α] in
theorem clash_eq_none : t.clash outcome q stem unread = none ↔
    t.recorded q = demand outcome unread ∨ stem = [] ∧ t.rootLabelled = false := by
  unfold clash
  split <;> rename_i h <;> simp_all

omit [TransOrd α] in
theorem clash_eq_some : t.clash outcome q stem unread = some c ↔
    t.recorded q ≠ demand outcome unread ∧ (stem = [] → t.rootLabelled = true) ∧
      ⟨t.traceCount, stem, t.recorded q, demand outcome unread⟩ = c := by
  cases checked : t.clash outcome q stem unread with
  | none =>
      rcases clash_eq_none.mp checked with agreed | ⟨root, free⟩
      · simp [agreed]
      · simp [root, free]
  | some d =>
      unfold clash at checked
      split at checked <;> simp_all

/-- Before the last state there is no conflict on the way. -/
def Clear (t : PrefixTree α) (outcome : Outcome) (stem read unread : Word α) : Prop :=
  ∀ v u, v ++ u = read → u ≠ [] → ∃ r, t.graph.run (stem ++ v) = some r ∧
    t.clash outcome r (stem ++ v) (u ++ unread) = none

theorem Clear.nil : t.Clear outcome stem [] unread :=
  fun _ _ split ne => absurd (List.append_eq_nil_iff.mp split).2 ne

theorem Clear.cons {a : α} {read : Word α} (start : t.graph.run stem = some q)
    (checked : t.clash outcome q stem (a :: read ++ unread) = none)
    (clear : t.Clear outcome (stem ++ [a]) read unread) :
    t.Clear outcome stem (a :: read) unread := by
  intro v u split ne
  cases v with
  | nil =>
      rw [List.nil_append] at split
      rw [List.append_nil, split]
      exact ⟨q, start, checked⟩
  | cons b v =>
      rw [List.cons_append, List.cons.injEq] at split
      obtain ⟨rfl, split⟩ := split
      rw [List.append_cons]
      exact clear v u split ne

/-- The word is followed up to the first conflict, or else up to where the tree ends. -/
theorem descend_spec (start : t.graph.run stem = some q) :
    ∃ read unread p, read ++ unread = w ∧ t.graph.run (stem ++ read) = some p ∧
      t.Clear outcome stem read unread ∧
      match t.clash outcome p (stem ++ read) unread with
      | some c => t.descend outcome q stem w = .error c
      | none => (∀ a, unread.head? = some a → t.graph.transition p a = none) ∧
          t.descend outcome q stem w = .ok (p, unread) := by
  induction w generalizing q stem with
  | nil =>
      refine ⟨[], [], q, rfl, by rw [List.append_nil, start], Clear.nil, ?_⟩
      rw [List.append_nil, descend]
      cases t.clash outcome q stem [] <;> simp
  | cons a w ih =>
      have stop := List.append_nil stem
      cases checked : t.clash outcome q stem (a :: w) with
      | some c =>
          refine ⟨[], a :: w, q, rfl, by rw [stop, start], Clear.nil, ?_⟩
          simp only [stop, descend, checked]
      | none =>
          cases ha : t.graph.transition q a with
          | none =>
              refine ⟨[], a :: w, q, rfl, by rw [stop, start], Clear.nil, ?_⟩
              simp only [stop, descend, checked, ha, List.head?_cons, Option.some.injEq]
              exact ⟨fun b same => same ▸ ha, trivial⟩
          | some r =>
              obtain ⟨read, unread, p, rfl, last, clear, found⟩ :=
                ih (Graph.runFrom_concat_eq_some.mpr ⟨q, start, ha⟩)
              rw [List.append_assoc] at last found
              refine ⟨a :: read, unread, p, rfl, last, clear.cons start checked, ?_⟩
              simp only [descend, checked, ha]
              exact found

/-- What was followed has been found to be as the trace demands, up to a root without a label, and
what is left cannot be followed. -/
theorem descend_eq_ok (h : t.descend outcome q stem w = .ok (p, unread))
    (start : t.graph.run stem = some q) :
    ∃ read, read ++ unread = w ∧ t.graph.run (stem ++ read) = some p ∧
      (∀ a, unread.head? = some a → t.graph.transition p a = none) ∧
      ∀ v u, v ++ u = read → ∃ r, t.graph.run (stem ++ v) = some r ∧
        (t.recorded r = demand outcome (u ++ unread) ∨
          stem ++ v = [] ∧ t.rootLabelled = false) := by
  obtain ⟨read, rest, r, whole, last, clear, found⟩ := descend_spec start
  cases checked : t.clash outcome r (stem ++ read) rest with
  | some c =>
      rw [checked] at found
      cases found.symm.trans h
  | none =>
      rw [checked] at found
      obtain ⟨stuck, done⟩ := found
      obtain ⟨rfl, rfl⟩ := Prod.mk.inj (Except.ok.inj (done.symm.trans h))
      refine ⟨read, whole, last, stuck, fun v u split => ?_⟩
      cases u with
      | nil =>
          rw [List.append_nil] at split
          rw [split]
          exact ⟨_, last, clash_eq_none.mp checked⟩
      | cons b u =>
          obtain ⟨r', hr, passed⟩ := clear v (b :: u) split (List.cons_ne_nil b u)
          exact ⟨r', hr, clash_eq_none.mp passed⟩

theorem descend_eq_error (h : t.descend outcome q stem w = .error c)
    (start : t.graph.run stem = some q) :
    ∃ read unread r, read ++ unread = w ∧ t.graph.run (stem ++ read) = some r ∧
      t.Clear outcome stem read unread ∧ t.clash outcome r (stem ++ read) unread = some c := by
  obtain ⟨read, unread, r, whole, last, clear, found⟩ := descend_spec start
  refine ⟨read, unread, r, whole, last, clear, ?_⟩
  cases checked : t.clash outcome r (stem ++ read) unread with
  | none =>
      rw [checked] at found
      cases found.2.symm.trans h
  | some d =>
      rw [checked] at found
      cases found.symm.trans h
      rfl

omit [TransOrd α] in
theorem accepting?_of_recorded (mem : q ∈ t.graph) (h : t.recorded q = outcome) :
    t.graph.accepting? q = some outcome.isAccept := by
  obtain ⟨b, hb⟩ := Option.isSome_iff_exists.mp (Graph.accepting?_isSome.mpr mem)
  rw [← h, recorded, hb, Outcome.isAccept_ofBool]
  cases b <;> rfl

/-! ### Adding a trace -/

theorem extend_eq_error (h : t.extend trace = .error c) :
    t.descend trace.outcome t.graph.initial [] trace.word = .error c := by
  unfold extend at h
  cases hd : t.descend trace.outcome t.graph.initial [] trace.word with
  | error d => simpa [hd, bind, Except.bind] using h
  | ok result => simp [hd, bind, Except.bind, pure, Except.pure] at h

theorem trace_of_extend (h : t.extend trace = .error c) : c.trace = t.traceCount := by
  obtain ⟨_, _, _, _, _, _, found⟩ := descend_eq_error (extend_eq_error h) rfl
  rw [← (clash_eq_some.mp found).2.2]

theorem extend_eq_ok (h : t.extend trace = .ok t') :
    ∃ p unread, t.descend trace.outcome t.graph.initial [] trace.word = .ok (p, unread) ∧
      t' = { t with
        graph := grow trace.outcome
          (if trace.word.isEmpty then t.graph.setAccepting p trace.outcome.isAccept else t.graph) p
          (trace.word.length - unread.length) unread
        traceCount := t.traceCount + 1
        rootLabelled := true } := by
  rw [extend] at h
  obtain ⟨⟨p, unread⟩, followed, made⟩ := bind_eq_ok.mp h
  exact ⟨p, unread, followed, (Except.ok.inj made).symm⟩

variable [LawfulEqOrd α]

/-- Below a state that lacks the first label, a whole path sprouts. -/
theorem grow_spec (outcome : Outcome) (depth : Nat) (tree : g.RootedTree)
    (start : g.run stem = some q)
    (lacking : ∀ a, w.head? = some a → g.transition q a = none) :
    (grow outcome g q depth w).RootedTree ∧ g.Grows (grow outcome g q depth w) ∧
      ∀ v u, v ++ u = w → v ≠ [] → ∃ p, (grow outcome g q depth w).run (stem ++ v) = some p ∧
        (grow outcome g q depth w).accepting? p = some (demand outcome u).isAccept := by
  induction w generalizing g q depth stem with
  | nil =>
      refine ⟨tree, Graph.Grows.refl g, fun v u split ne => ?_⟩
      exact absurd (List.append_eq_nil_iff.mp split).1 ne
  | cons a w ih =>
      have mem := tree.mem_of_run start
      have free := lacking a rfl
      let sprouted := g.sprout q (depth + 1) a (demand outcome w).isAccept
      have next : sprouted.run (stem ++ [a]) = some g.fresh := tree.run_sprout_fresh start free
      obtain ⟨grown, grows, path⟩ := ih (depth + 1) (tree.sprout mem free) next
        fun b _ => tree.transition_sprout_fresh mem
      refine ⟨grown, (tree.grows_sprout free).trans grows, fun v u split ne => ?_⟩
      cases v with
      | nil => exact absurd rfl ne
      | cons b v =>
          rw [List.cons_append, List.cons.injEq] at split
          obtain ⟨rfl, rfl⟩ := split
          rw [List.append_cons]
          cases v with
          | nil =>
              obtain ⟨p, hp, flag⟩ := grows _ _ next
              rw [Graph.accepting?_sprout, if_pos rfl] at flag
              rw [List.append_nil]
              exact ⟨p, hp, flag⟩
          | cons b' v => exact path (b' :: v) u rfl (List.cons_ne_nil _ _)

omit [LawfulEqOrd α] in
theorem agrees_setAccepting (mem : g.initial ∈ g) (empty : trace.word = []) :
    (g.setAccepting g.initial trace.outcome.isAccept).Agrees trace := by
  intro v w given
  rw [empty] at given
  obtain ⟨rfl, rfl⟩ := List.append_eq_nil_iff.mp given
  obtain ⟨s, hs⟩ := Graph.mem_iff_exists.mp mem
  refine ⟨g.initial, rfl, ?_⟩
  rw [Graph.accepting?_setAccepting, if_pos rfl, hs]
  rfl

/-- A path that was checked for its first part agrees with the trace once its rest has sprouted. -/
theorem agrees_grow (depth : Nat) {read : Word α} (tree : g.RootedTree)
    (whole : read ++ unread = trace.word) (last : g.run read = some q)
    (stuck : ∀ a, unread.head? = some a → g.transition q a = none)
    (checked : ∀ v u, v ++ u = read → ∃ r, g.run v = some r ∧
      g.accepting? r = some (demand trace.outcome (u ++ unread)).isAccept) :
    (grow trace.outcome g q depth unread).Agrees trace := by
  obtain ⟨_, grows, outside⟩ := grow_spec trace.outcome depth tree last stuck
  have kept : ∀ v u, v ++ u = read → ∃ r,
      (grow trace.outcome g q depth unread).run v = some r ∧
      (grow trace.outcome g q depth unread).accepting? r =
        some (demand trace.outcome (u ++ unread)).isAccept := by
    intro v u split
    obtain ⟨p, hp, flag⟩ := checked v u split
    obtain ⟨r, hr, flag'⟩ := grows v p hp
    exact ⟨r, hr, flag'.trans flag⟩
  intro v w given
  rw [← whole] at given
  rcases List.append_eq_append_iff.mp given with ⟨u, split, rfl⟩ | ⟨u, rfl, split⟩
  · exact kept v u split.symm
  · cases u with
    | nil =>
        rw [List.nil_append] at split
        rw [List.append_nil, ← split]
        exact kept read [] (List.append_nil read)
    | cons b u => exact outside (b :: u) w split.symm (List.cons_ne_nil _ _)

/-- A trace that is added leaves a rooted tree that agrees with it. If the root had a label, the
tree has grown. -/
theorem extend_spec (tree : t.graph.RootedTree) (h : t.extend trace = .ok t')
    (unlabelled : t.rootLabelled = false → t.graph.accepting? t.graph.initial = some true) :
    t'.graph.RootedTree ∧ t'.graph.Agrees trace ∧
      (t.rootLabelled = true → t.graph.Grows t'.graph) := by
  obtain ⟨p, unread, hd, rfl⟩ := extend_eq_ok h
  obtain ⟨read, whole, last, stuck, path⟩ := descend_eq_ok hd rfl
  rw [List.nil_append] at last
  cases hw : trace.word with
  | nil =>
      rw [hw] at whole
      obtain ⟨rfl, rfl⟩ := List.append_eq_nil_iff.mp whole
      obtain rfl : t.graph.initial = p := Option.some.inj last
      refine ⟨tree.setAccepting, agrees_setAccepting tree.initial hw, fun labelled => ?_⟩
      obtain ⟨r, hr, recorded | ⟨_, free⟩⟩ := path [] [] rfl
      · obtain rfl : t.graph.initial = r := Option.some.inj hr
        exact Graph.Grows.setAccepting (accepting?_of_recorded tree.initial recorded)
      · rw [labelled] at free
        cases free
  | cons a rest =>
      -- The root is the one state that the descent may have let pass unchecked.
      have checked : ∀ v u, v ++ u = read → ∃ r, t.graph.run v = some r ∧
          t.graph.accepting? r = some (demand trace.outcome (u ++ unread)).isAccept := by
        intro v u split
        obtain ⟨r, hr, recorded | ⟨root, free⟩⟩ := path v u split
        · exact ⟨r, hr, accepting?_of_recorded (tree.mem_of_run hr) recorded⟩
        · rw [List.nil_append] at root
          subst root
          rw [List.nil_append] at split
          rw [split, whole, hw]
          exact ⟨t.graph.initial, rfl, unlabelled free⟩
      obtain ⟨grown, grows, _⟩ := grow_spec trace.outcome
        ((a :: rest).length - unread.length) tree last stuck
      exact ⟨grown, agrees_grow _ tree whole last stuck checked, fun _ => grows⟩

/-! ### Adding all traces -/

/-- A prefix tree along with the traces that were given to it: it agrees with all that were not
skipped, and as long as its root has no label, all were. -/
structure Records (t : PrefixTree α) (traces : List (Trace α)) : Prop where
  tree : t.graph.RootedTree
  counted : t.traceCount = traces.length
  agrees : ∀ i trace, traces[i]? = some trace → (∀ c ∈ t.skipped, c.trace ≠ i) →
    t.graph.Agrees trace
  unlabelled : t.rootLabelled = false → t.graph.accepting? t.graph.initial = some true ∧
    ∀ i < traces.length, ∃ c ∈ t.skipped, c.trace = i

omit [LawfulEqOrd α] in
theorem Records.empty (policy : ConflictPolicy) : (empty policy : PrefixTree α).Records [] := by
  refine ⟨Graph.RootedTree.single true, rfl, fun i trace h => ?_, fun _ => ⟨?_, fun i hi => ?_⟩⟩
  · rw [List.getElem?_nil] at h
    cases h
  · exact Graph.accepting?_single
  · exact absurd hi (Nat.not_lt_zero i)

theorem Records.extend {traces : List (Trace α)} (records : t.Records traces)
    (h : t.extend trace = .ok t') : t'.Records (traces ++ [trace]) := by
  obtain ⟨tree, agrees, grows⟩ :=
    extend_spec records.tree h fun free => (records.unlabelled free).1
  obtain ⟨p, unread, _, rfl⟩ := extend_eq_ok h
  refine ⟨tree, ?_, fun i other hi free => ?_, fun no => by cases no⟩
  · rw [List.length_append, ← records.counted]
    rfl
  · rcases Nat.lt_or_ge i traces.length with old | new
    · rw [List.getElem?_append_left old] at hi
      cases labelled : t.rootLabelled with
      | true => exact (grows labelled).agrees (records.agrees i other hi free)
      | false =>
          obtain ⟨c, hc, same⟩ := (records.unlabelled labelled).2 i old
          exact absurd same (free c hc)
    · rw [List.getElem?_append_right new, List.getElem?_singleton] at hi
      split at hi
      · rw [← Option.some.inj hi]
        exact agrees
      · cases hi

omit [LawfulEqOrd α] in
theorem Records.skip {traces : List (Trace α)} (records : t.Records traces)
    (named : c.trace = t.traceCount) :
    ({ t with traceCount := t.traceCount + 1, skipped := t.skipped ++ [c] } : PrefixTree α).Records
      (traces ++ [trace]) := by
  have fresh : c.trace = traces.length := named.trans records.counted
  refine ⟨records.tree, ?_, fun i other hi free => ?_, fun no => ⟨(records.unlabelled no).1, ?_⟩⟩
  · rw [List.length_append, ← records.counted]
    rfl
  · have ne : i ≠ traces.length := fun h => free c (by simp) (fresh.trans h.symm)
    have bound := (List.getElem?_eq_some_iff.mp hi).1
    rw [List.length_append, List.length_singleton] at bound
    rw [List.getElem?_append_left (by omega)] at hi
    exact records.agrees i other hi fun d hd => free d (List.mem_append_left _ hd)
  · intro i hi
    rw [List.length_append, List.length_singleton] at hi
    by_cases old : i < traces.length
    · obtain ⟨d, hd, same⟩ := (records.unlabelled no).2 i old
      exact ⟨d, List.mem_append_left _ hd, same⟩
    · exact ⟨c, by simp, by omega⟩

theorem Records.addAll {traces rest : List (Trace α)} (records : t.Records traces)
    (h : t.addAll rest = (none, t')) : t'.Records (traces ++ rest) := by
  induction rest generalizing t traces with
  | nil =>
      cases h
      rwa [List.append_nil]
  | cons trace rest ih =>
      rw [PrefixTree.addAll, add] at h
      rw [List.append_cons]
      cases hx : t.extend trace with
      | ok extended =>
          rw [hx] at h
          exact ih (records.extend hx) h
      | error c =>
          rw [hx] at h
          dsimp only at h
          split at h
          · cases h
          · exact ih (records.skip (trace_of_extend hx)) h

/-- A prefix tree of traces is a rooted tree that agrees with all traces that were not skipped. -/
theorem records_of_ofTraces {policy : ConflictPolicy} {traces : List (Trace α)}
    (h : ofTraces policy traces = .ok t) : t.Records traces := by
  unfold ofTraces at h
  split at h
  · rename_i added
    cases h
    exact (Records.empty policy).addAll added
  · cases h

end PrefixTree

end BlueFringe
