import BlueFringe.Proofs.Layers
import BlueFringe.Random.Acceptor

/-!
# Random graphs

Accepting states get their transitions in the order in which they were added. Whatever the draws
are, the list of those that wait stays ordered by depth, nothing lies more than one level below any
of them, and the graph is no larger than it may be. So each of the waiting states gets its turn, and
depths remain the lengths of shortest words although transitions lead back.
-/

namespace BlueFringe.Random

open Std

variable {γ : Type} {shape : Shape} {a b : Char} {labels : List Char}

theorem nodup_smallLetters (count : Nat) : (smallLetters count).Nodup := by
  have all : ((List.range 26).map fun i => Char.ofNat ('a'.toNat + i)).Nodup := by decide
  exact all.sublist (List.take_sublist count _)

namespace Growth

variable {s : Growth γ} {g : Graph Char} {q p : StateId} {depth bound : Nat}
  {done pending : List StateId}

/-- What holds while the pending states get their transitions, after those that are done. -/
structure Orderly (shape : Shape) (done pending : List StateId) (s : Growth γ) : Prop where
  wellFormed : s.graph.WellFormed
  layered : s.graph.Layered
  room : s.graph.size ≤ max 1 shape.maxStates
  order : s.accepting = done ++ pending
  root : s.graph.initial ∈ s.accepting
  distinct : s.accepting.Nodup
  accepts : ∀ q ∈ s.accepting, s.graph.accepting? q = some true
  leaves : ∀ q a, s.graph.accepting? q = some false → s.graph.transition q a = none
  bare : ∀ q ∈ s.waiting, ∀ a, s.graph.transition q a = none
  sorted : pending.Pairwise fun q p => s.graph.level q ≤ s.graph.level p
  near : ∀ q ∈ pending, ∀ p ∈ s.graph, s.graph.level p ≤ s.graph.level q + 1

/-- The state in front gets its transitions. It has none on the labels that are left. -/
structure Tending (shape : Shape) (done : List StateId) (q : StateId) (depth : Nat)
    (labels : List Char) (s : Growth γ) : Prop extends Orderly shape done (q :: s.waiting) s where
  depth : s.graph.level q = depth
  free : ∀ a ∈ labels, s.graph.transition q a = none

/-! ### One transition -/

namespace Orderly

theorem mem_graph (orderly : Orderly shape done pending s) (mem : q ∈ s.accepting) :
    q ∈ s.graph :=
  Graph.accepting?_isSome.mp (Option.isSome_of_mem (orderly.accepts q mem))

theorem mem_accepting (orderly : Orderly shape done pending s) (mem : q ∈ pending) :
    q ∈ s.accepting := by
  rw [orderly.order]
  exact List.mem_append_right done mem

theorem mem_pending (orderly : Orderly shape done pending s) (mem : q ∈ pending) : q ∈ s.graph :=
  orderly.mem_graph (orderly.mem_accepting mem)

theorem front_notMem_waiting (orderly : Orderly shape done (q :: s.waiting) s) :
    q ∉ s.waiting := by
  have distinct := orderly.distinct
  rw [orderly.order] at distinct
  exact (List.nodup_cons.mp distinct.of_append_right).1

theorem level_front_le (orderly : Orderly shape done (q :: s.waiting) s)
    (mem : p ∈ q :: s.waiting) : s.graph.level q ≤ s.graph.level p := by
  rcases List.mem_cons.mp mem with rfl | later
  · exact Nat.le_refl _
  · exact (List.pairwise_cons.mp orderly.sorted).1 p later

/-- A transition from the state in front to a new leaf, or back to an accepting state. -/
theorem attach (orderly : Orderly shape done (q :: s.waiting) s)
    (lacking : s.graph.transition q a = none) (attaches : s.graph.Attaches g q a p)
    (wellFormed : g.WellFormed) (room : g.size ≤ max 1 shape.maxStates) (draws : γ) :
    Orderly shape done (q :: s.waiting) { s with graph := g, draws } where
  wellFormed := wellFormed
  layered := attaches.layered orderly.layered orderly.wellFormed.closed
    orderly.wellFormed.initial (orderly.mem_pending List.mem_cons_self) lacking
  room := room
  order := orderly.order
  root := attaches.initial ▸ orderly.root
  distinct := orderly.distinct
  accepts r mem := (attaches.accepting r (orderly.mem_graph mem)).trans (orderly.accepts r mem)
  leaves r b rejects := by
    -- The state in front accepts, so the transitions of a leaf are what they were.
    have front : q ∈ s.accepting := orderly.mem_accepting List.mem_cons_self
    have ne : r ≠ q := by
      rintro rfl
      rw [attaches.accepting r (orderly.mem_graph front), orderly.accepts r front] at rejects
      cases rejects
    rw [attaches.kept r b (.inl ne)]
    by_cases known : r ∈ s.graph
    · rw [attaches.accepting r known] at rejects
      exact orderly.leaves r b rejects
    · exact Graph.transition_of_notMem known
  bare r mem b := by
    have ne : r ≠ q := fun same => orderly.front_notMem_waiting (same ▸ mem)
    rw [attaches.kept r b (.inl ne)]
    exact orderly.bare r mem b
  sorted := by
    refine orderly.sorted.imp_of_mem fun {x y} hx hy le => ?_
    rw [attaches.level x (orderly.mem_pending hx), attaches.level y (orderly.mem_pending hy)]
    exact le
  near x hx r hr := by
    rw [attaches.level x (orderly.mem_pending hx)]
    rcases attaches.level_cases hr with ⟨known, same⟩ | ⟨_, _, deep⟩
    · rw [same]
      exact orderly.near x hx r known
    · have le := orderly.level_front_le hx
      dsimp only
      omega

/-- A new state below the one in front waits behind all others. -/
theorem enlist (orderly : Orderly shape done (q :: s.waiting) s)
    (new : p ∉ s.accepting) (below : s.graph.level p = s.graph.level q + 1)
    (accepts : s.graph.accepting? p = some true) (bare : ∀ a, s.graph.transition p a = none) :
    Orderly shape done (q :: (s.waiting ++ [p]))
      { s with accepting := s.accepting ++ [p], waiting := s.waiting ++ [p] } where
  wellFormed := orderly.wellFormed
  layered := orderly.layered
  room := orderly.room
  order := by simp [orderly.order]
  root := List.mem_append_left _ orderly.root
  distinct := by
    rw [List.nodup_append']
    exact ⟨orderly.distinct, List.nodup_singleton p, List.disjoint_singleton.mpr new⟩
  accepts := by
    simp only [List.forall_mem_append, List.forall_mem_singleton]
    exact ⟨orderly.accepts, accepts⟩
  leaves := orderly.leaves
  bare := by
    simp only [List.forall_mem_append, List.forall_mem_singleton]
    exact ⟨orderly.bare, bare⟩
  sorted := by
    rw [← List.cons_append, List.pairwise_append]
    refine ⟨orderly.sorted, List.pairwise_singleton _ p, fun x hx y hy => ?_⟩
    rw [List.mem_singleton.mp hy, below]
    exact orderly.near q List.mem_cons_self x (orderly.mem_pending hx)
  near := by
    rw [← List.cons_append]
    simp only [List.forall_mem_append, List.forall_mem_singleton]
    refine ⟨orderly.near, fun r hr => ?_⟩
    have le := orderly.near q List.mem_cons_self r hr
    omega

theorem finish (orderly : Orderly shape done (q :: s.waiting) s) :
    Orderly shape (done ++ [q]) s.waiting s where
  __ := orderly
  order := by rw [orderly.order, List.append_assoc, List.singleton_append]
  sorted := (List.pairwise_cons.mp orderly.sorted).2
  near := (List.forall_mem_cons.mp orderly.near).2

variable [Draws γ]

/-- There is always some state to which a transition can lead back. -/
theorem exists_pick (orderly : Orderly shape done pending s) (draws : γ) :
    ∃ p draws', Draws.pick s.accepting draws = (some p, draws') ∧ p ∈ s.accepting := by
  have root := orderly.root
  cases picked : Draws.pick s.accepting draws with
  | mk choice draws' =>
      cases choice with
      | none =>
          cases accepting : s.accepting with
          | nil => simp [accepting] at root
          | cons x xs => simp [accepting, Draws.pick] at picked
      | some p => exact ⟨p, draws', rfl, Draws.mem_of_pick picked⟩

end Orderly

namespace Tending

theorem skip (tending : Tending shape done q depth (a :: labels) s) (draws : γ) :
    Tending shape done q depth labels { s with draws } where
  __ := tending
  free b mem := tending.free b (List.mem_cons_of_mem a mem)

theorem attach (tending : Tending shape done q depth (a :: labels) s) (lone : a ∉ labels)
    (attaches : s.graph.Attaches g q a p) (wellFormed : g.WellFormed)
    (room : g.size ≤ max 1 shape.maxStates) (draws : γ) :
    Tending shape done q depth labels { s with graph := g, draws } where
  toOrderly := tending.toOrderly.attach (tending.free a List.mem_cons_self) attaches wellFormed
    room draws
  depth := by
    have front := tending.mem_pending List.mem_cons_self
    exact (attaches.level q front).trans tending.depth
  free b mem := by
    have ne : b ≠ a := fun same => lone (same ▸ mem)
    exact (attaches.kept q b (.inr ne)).trans (tending.free b (List.mem_cons_of_mem a mem))

theorem sprout (tending : Tending shape done q depth (a :: labels) s) (lone : a ∉ labels)
    (room : s.graph.size < shape.maxStates) (accepting : Bool) (draws : γ) :
    Tending shape done q depth labels
      { s with graph := s.graph.sprout q (depth + 1) a accepting, draws } := by
  have wf := tending.wellFormed
  have front := tending.mem_pending List.mem_cons_self
  have attaches : s.graph.Attaches (s.graph.sprout q (s.graph.level q + 1) a accepting) q a
      s.graph.fresh := Graph.attaches_sprout (Graph.WellFormed.fresh_notMem wf.ascending) front
  rw [tending.depth] at attaches
  refine tending.attach lone attaches ?_ ?_ draws
  · exact (wf.insertState rfl).setTarget (Graph.mem_insertState.mpr (.inl rfl))
  · have grown : (s.graph.sprout q (depth + 1) a accepting).size ≤ s.graph.size + 1 :=
      Graph.size_sprout_le
    omega

theorem addChild (tending : Tending shape done q depth (a :: labels) s) (lone : a ∉ labels)
    (room : s.graph.size < shape.maxStates) :
    Tending shape done q depth labels (s.addChild q depth a) := by
  have new := Graph.WellFormed.fresh_notMem tending.wellFormed.ascending
  have front := tending.mem_pending List.mem_cons_self
  have ne : q ≠ s.graph.fresh := fun same => new (same ▸ front)
  have sprouted := tending.sprout lone room true s.draws
  have enlisted := sprouted.enlist (p := s.graph.fresh)
    (fun mem => new (tending.mem_graph mem)) ?_ ?_ ?_
  · exact { toOrderly := enlisted, depth := sprouted.depth, free := sprouted.free }
  · rw [sprouted.depth, Graph.level, Graph.depth?_sprout, if_pos rfl]
    rfl
  · rw [Graph.accepting?_sprout, if_pos rfl]
  · intro b
    rw [Graph.transition_sprout_of_ne new (.inl ne), Graph.transition_of_notMem new]

variable [Draws γ]

theorem addRejection (tending : Tending shape done q depth (a :: labels) s) (lone : a ∉ labels) :
    Tending shape done q depth labels (s.addRejection shape q depth a) := by
  unfold Growth.addRejection
  by_cases room : s.graph.size < shape.maxStates
  · rw [if_pos room]
    cases leaf : (Draws.flip s.draws).1 with
    | true => simpa [leaf] using tending.sprout lone room false (Draws.flip s.draws).2
    | false => simpa [leaf] using tending.skip (Draws.flip s.draws).2
  · rw [if_neg room]
    exact tending.skip s.draws

theorem addLoop (tending : Tending shape done q depth (a :: labels) s) (lone : a ∉ labels) :
    Tending shape done q depth labels (s.addLoop q a) := by
  obtain ⟨p, draws, picked, mem⟩ := tending.exists_pick s.draws
  have front : q ∈ q :: s.waiting := List.mem_cons_self
  have hp := tending.mem_graph mem
  -- A loop can lead to a state that was only just added, one level down.
  have attaches : s.graph.Attaches (s.graph.setTarget q a p) q a p :=
    Graph.attaches_setTarget (tending.mem_pending front) hp (tending.near q front p hp)
  rw [Growth.addLoop, picked]
  exact tending.attach lone attaches (tending.wellFormed.setTarget hp)
    (Graph.size_update.trans_le tending.room) draws

/-- Whatever is drawn for a label, the order remains and the label is settled. -/
theorem addLabel (tending : Tending shape done q depth (a :: labels) s) (lone : a ∉ labels) :
    Tending shape done q depth labels (s.addLabel shape q depth a) := by
  have after (draws : γ) : Tending shape done q depth (a :: labels) { s with draws } :=
    { tending with }
  rw [Growth.addLabel]
  cases rejected : Draws.chance shape.rejectChance s.draws with
  | mk rejects draws =>
      cases rejects with
      | true => exact (after draws).addRejection lone
      | false =>
          dsimp only
          rw [addAcceptance]
          by_cases room : s.graph.size < shape.maxStates
          · rw [if_pos room]
            cases looped : Draws.chance shape.loopChance draws with
            | mk loops draws =>
                cases loops with
                | true => exact (after draws).addLoop lone
                | false => exact (after draws).addChild lone room
          · rw [if_neg room]
            exact (after draws).addLoop lone

theorem foldl (distinct : labels.Nodup) (tending : Tending shape done q depth labels s) :
    Tending shape done q depth []
      (labels.foldl (fun s a => s.addLabel shape q depth a) s) := by
  induction labels generalizing s with
  | nil => exact tending
  | cons a labels ih =>
      obtain ⟨lone, distinct⟩ := List.nodup_cons.mp distinct
      exact ih distinct (tending.addLabel lone)

end Tending

/-! ### All waiting states -/

theorem Orderly.length_accepting_le (orderly : Orderly shape done pending s) :
    s.accepting.length ≤ s.graph.size := by
  have sub : s.accepting ⊆ s.graph.stateIds :=
    fun q mem => Graph.mem_stateIds.mpr (orderly.mem_graph mem)
  rw [← Graph.length_stateIds]
  exact (orderly.distinct.subperm sub).length_le

theorem orderly_start (shape : Shape) (draws : γ) :
    Orderly shape [] (start draws).waiting (start draws) where
  wellFormed := (Graph.RootedTree.single true).wellFormed
  layered := Graph.Layered.single true
  room := by
    have one : (Graph.single true : Graph Char).size = 1 := by decide
    exact one.trans_le (Nat.le_max_left ..)
  order := rfl
  root := List.mem_singleton_self _
  distinct := List.nodup_singleton _
  accepts q mem := by
    cases List.mem_singleton.mp mem
    exact Graph.accepting?_single
  leaves q a _ := Graph.transition_single
  bare q _ a := Graph.transition_single
  sorted := List.pairwise_singleton ..
  near q mem p hp := by
    cases Graph.mem_single.mp hp
    exact Graph.level_single.trans_le (Nat.zero_le _)

variable [Draws γ]

/-- The state in front gets its turn. -/
theorem Orderly.turn {waiting : List StateId} (orderly : Orderly shape done s.waiting s)
    (front : s.waiting = q :: waiting) :
    let s' := (smallLetters shape.labels).foldl
      (fun s' a => s'.addLabel shape q (s.graph.level q) a) { s with waiting }
    Orderly shape (done ++ [q]) s'.waiting s' := by
  have mem : q ∈ s.waiting := front ▸ List.mem_cons_self
  have tending : Tending shape done q (s.graph.level q) (smallLetters shape.labels)
      { s with waiting } :=
    { orderly with
      order := front ▸ orderly.order
      bare := fun p hp => orderly.bare p (front ▸ List.mem_cons_of_mem q hp)
      sorted := front ▸ orderly.sorted
      near := front ▸ orderly.near
      depth := rfl
      free := fun a _ => orderly.bare q mem a }
  exact (tending.foldl (nodup_smallLetters _)).finish

theorem Orderly.grow (orderly : Orderly shape done s.waiting s) (bound : Nat) :
    ∃ done', Orderly shape done' (s.grow shape bound).waiting (s.grow shape bound) ∧
      ((s.grow shape bound).waiting = [] ∨ done'.length = done.length + bound) := by
  -- Each turn moves one state from those that wait to those that are done.
  induction bound generalizing done s with
  | zero => exact ⟨done, orderly, .inr rfl⟩
  | succ bound ih =>
      rw [Growth.grow]
      cases front : s.waiting with
      | nil => exact ⟨done, orderly, .inl front⟩
      | cons q waiting =>
          obtain ⟨done', later, count⟩ := ih (orderly.turn front)
          refine ⟨done', later, count.imp_right fun same => ?_⟩
          rw [same, List.length_append, List.length_singleton, Nat.add_right_comm, Nat.add_assoc]

theorem grow_of_settled (settled : s.waiting = []) : s.grow shape bound = s := by
  cases bound with
  | zero => rfl
  | succ bound => simp [grow, settled]

theorem grow_add (shape : Shape) (s : Growth γ) (m n : Nat) :
    s.grow shape (m + n) = (s.grow shape m).grow shape n := by
  induction m generalizing s with
  | zero => rw [Nat.zero_add, grow]
  | succ m ih =>
      rw [Nat.add_right_comm, grow, grow]
      cases front : s.waiting with
      | nil => exact (grow_of_settled front).symm
      | cons q waiting => exact ih _

/-- No more states wait than there may be, so all of them get their turn. -/
theorem orderly_settled (draws : γ) (enough : max 1 shape.maxStates ≤ bound) :
    ((start draws).grow shape bound).waiting = [] ∧
      ∃ done, Orderly shape done [] ((start draws).grow shape bound) := by
  obtain ⟨done, orderly, count⟩ := (orderly_start shape draws).grow bound
  have settled : ((start draws).grow shape bound).waiting = [] := by
    rcases count with settled | count
    · exact settled
    · have length := orderly.length_accepting_le
      have room := orderly.room
      rw [orderly.order, List.length_append, count] at length
      simp only [List.length_nil] at length
      exact List.length_eq_zero_iff.mp (by omega)
  exact ⟨settled, done, settled ▸ orderly⟩

/-- So a larger bound gives the same graph. -/
theorem grow_eq_of_le (draws : γ) (enough : max 1 shape.maxStates ≤ bound) :
    (start draws).grow shape bound = (start draws).grow shape (max 1 shape.maxStates) := by
  obtain ⟨more, rfl⟩ := Nat.exists_eq_add_of_le enough
  rw [grow_add]
  exact grow_of_settled (orderly_settled draws (Nat.le_refl _)).1

end Growth

end BlueFringe.Random
