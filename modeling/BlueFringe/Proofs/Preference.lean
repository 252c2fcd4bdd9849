import BlueFringe.Proofs.Learning
import BlueFringe.Proofs.Traversals
import Mathlib.Data.Prod.Lex
import Mathlib.Order.Compare

/-!
# The order of preference

A candidate is preferred for its score, then for the rank of its blue state, then for that of its
red one; all are written as one tuple here. The candidates of a graph are the pairs that can be
merged, and the first of them precedes all others. None of this depends on colours other than red.
-/

namespace BlueFringe

open Std

variable {α : Type} [Ord α]

namespace Graph

/-- States are ranked by their depth, states of one depth by their identity. -/
def rank (g : Graph α) (q : StateId) : ℕ ×ₗ ℕ := toLex ((g.depth? q).getD 0, q.index)

/-- The place of a scored pair in the order of preference, the least being preferred. -/
def pairRank (g : Graph α) (pair : StatePair) (s : Score) :
    ℤ ×ₗ ℤ ×ₗ (ℕ ×ₗ ℕ) ×ₗ (ℕ ×ₗ ℕ) :=
  toLex (-s.primary, toLex (-s.secondary, toLex (g.rank pair.blue, g.rank pair.red)))

variable {g : Graph α} {q p : StateId}

theorem exists_depth (h : q ∈ g) : ∃ depth, g.depth? q = some depth := by
  obtain ⟨s, hs⟩ := mem_iff_exists.mp h
  exact ⟨s.depth, by rw [depth?, hs, Option.map_some]⟩

theorem shallowFirst_eq_lt (hq : q ∈ g) (hp : p ∈ g) :
    g.shallowFirst q p = .lt ↔ g.rank q < g.rank p := by
  obtain ⟨d, hd⟩ := exists_depth hq
  obtain ⟨e, he⟩ := exists_depth hp
  have depths : compareOn g.depth? q p = compare d e := by
    rw [compareOn, hd, he]
    rfl
  rw [shallowFirst, compareLex, depths, Ordering.then_eq_lt, Nat.compare_eq_lt, Nat.compare_eq_eq,
    StateId.compare_eq_lt, rank, rank, hd, he, Prod.Lex.toLex_lt_toLex]
  rfl

theorem rank_injective (h : g.rank q = g.rank p) : q = p := by
  have same : q.index = p.index := congrArg (fun key => (ofLex key).2) h
  cases q
  cases p
  exact congrArg StateId.mk same

theorem preference_eq_lt {c d : Candidate} (hcb : c.pair.blue ∈ g) (hcr : c.pair.red ∈ g)
    (hdb : d.pair.blue ∈ g) (hdr : d.pair.red ∈ g) :
    Candidate.preference g c d = .lt ↔ g.pairRank c.pair c.score < g.pairRank d.pair d.score := by
  have scores : compare d.score c.score =
      (compare d.score.primary c.score.primary).then
        (compare d.score.secondary c.score.secondary) := rfl
  have blues : g.shallowFirst c.pair.blue d.pair.blue = .eq ↔
      g.rank c.pair.blue = g.rank d.pair.blue := by
    constructor
    · intro h
      rw [LawfulEqCmp.eq_of_compare h]
    · intro h
      rw [rank_injective h]
      exact ReflCmp.compare_self
  simp only [Candidate.preference, compareLex, scores, Ordering.then_eq_lt, Ordering.then_eq_eq,
    shallowFirst_eq_lt hcb hdb, shallowFirst_eq_lt hcr hdr, blues, compare_lt_iff_lt,
    Std.compare_eq_iff_eq, pairRank, Prod.Lex.toLex_lt_toLex, neg_lt_neg_iff, neg_inj]
  grind

end Graph

/-! ### First entries of ordered lists -/

theorem transCmp_on {β γ : Type} (order : γ → γ → Ordering) [TransCmp order] (key : β → γ) :
    TransCmp fun x y => order (key x) (key y) where
  eq_swap := OrientedCmp.eq_swap
  isLE_trans := TransCmp.isLE_trans

theorem transCmp_flip {β : Type} (order : β → β → Ordering) [trans : TransCmp order] :
    TransCmp fun x y => order y x where
  eq_swap := OrientedCmp.eq_swap
  isLE_trans h h' := trans.isLE_trans h' h

instance (g : Graph α) : TransCmp (Candidate.preference g) := by
  have scores : TransCmp fun c d : Candidate => compare d.score c.score :=
    have := transCmp_flip (compare : Score → Score → Ordering)
    transCmp_on (fun s t : Score => compare t s) Candidate.score
  have blues := transCmp_on g.shallowFirst fun c : Candidate => c.pair.blue
  have reds := transCmp_on g.shallowFirst fun c : Candidate => c.pair.red
  exact inferInstanceAs (TransCmp (compareLex _ (compareLex _ _)))

namespace Graph

variable {g : Graph α} [TransOrd α] {strategy : Strategy} {pair : StatePair} {q : StateId}
  {excluded : ExtTreeSet StatePair compare} {scored others : List Candidate} {best c : Candidate}

/-- The frontier is listed by rank, so what is found there first has the least rank. -/
theorem rank_lt_of_find?_frontier {test : StateId → Bool} (front : ∀ p ∈ g.frontier, p ∈ g)
    (found : g.frontier.find? test = some q) :
    ∀ p ∈ g.frontier, test p = true → p ≠ q → g.rank q < g.rank p := by
  intro p hp passes ne
  have first := rel_of_find?_eq_some (distinctBy_pairwise g.shallowFirst _) found p hp passes ne
  exact (shallowFirst_eq_lt (front q (List.mem_of_find?_eq_some found)) (front p hp)).mp first

theorem mem_openPairs : pair ∈ g.openPairs excluded ↔
    pair.blue ∈ g.frontier ∧ g.colour? pair.red = some .red ∧ pair ∉ excluded := by
  simp only [openPairs, List.mem_filter, List.mem_flatMap, List.mem_map, mem_coloured,
    decide_eq_true_eq]
  constructor
  · rintro ⟨⟨blue, hb, red, hr, rfl⟩, free⟩
    exact ⟨hb, hr, free⟩
  · rintro ⟨hb, hr, free⟩
    exact ⟨⟨pair.blue, hb, pair.red, hr, rfl⟩, free⟩

/-- Every open pair is listed with its own score, and nothing else is. -/
theorem mem_scoredPairs (made : g.scoredPairs strategy excluded = .ok scored) :
    c ∈ scored ↔ c.pair ∈ g.openPairs excluded ∧
      strategy.score g c.pair = .ok (c.score, c.identification) := by
  rw [mem_of_mapM_eq_ok made]
  constructor
  · rintro ⟨pair, opened, given⟩
    cases first : strategy.score g pair with
    | error e =>
        rw [first] at given
        cases given
    | ok result =>
        rw [first] at given
        cases given
        exact ⟨opened, first⟩
  · rintro ⟨opened, score⟩
    refine ⟨c.pair, opened, ?_⟩
    rw [score]
    rfl

omit [TransOrd α] in
theorem mem_candidates : c ∈ g.candidates scored ↔ c ∈ scored ∧ c.score.isCompatible = true := by
  rw [candidates, mem_sortBy, List.mem_filter]

omit [TransOrd α] in
/-- The first candidate is preferred to those for other pairs. -/
theorem preference_of_candidates (left : g.candidates scored = best :: others)
    (listed : c ∈ g.candidates scored) (ne : c.pair ≠ best.pair) :
    Candidate.preference g best c = .lt := by
  have ordered : (best :: others).Pairwise fun c d => (Candidate.preference g c d).isLE :=
    left ▸ sortBy_pairwise (Candidate.preference g) _
  rw [left] at listed
  rcases List.mem_cons.mp listed with rfl | later
  · exact absurd rfl ne
  · have before := (List.pairwise_cons.mp ordered).1 c later
    cases h : Candidate.preference g best c with
    | lt => rfl
    | gt =>
        rw [h] at before
        cases before
    | eq =>
        -- Candidates that tie have the same states, as no two states have one rank.
        simp only [Candidate.preference, compareLex_eq_eq] at h
        have blue := LawfulEqCmp.eq_of_compare h.2.1
        have red := LawfulEqCmp.eq_of_compare h.2.2
        refine absurd ?_ ne
        cases hc : c.pair
        cases hb : best.pair
        simp_all

/-! ### Scores and colours -/

variable {g' : Graph α} (ids : g'.stateIds = g.stateIds) (rows : g'.row = g.row)
  (flags : g'.accepting? = g.accepting?)

include rows flags in
theorem settle_eq_of_views (pair : StatePair) (below : ExtTreeSet StateId compare) (bound : Nat)
    (f : Folding α) :
    Folding.settle g' pair below bound f = Folding.settle g pair below bound f := by
  have edges : g'.edges = g.edges := funext fun q => by rw [Graph.edges, Graph.edges, rows]
  have transition : g'.transition = g.transition :=
    funext fun q => funext fun a => by rw [Graph.transition, Graph.transition, rows]
  have follow : Folding.follow g' pair below = Folding.follow g pair below := by
    funext r f edge
    unfold Folding.follow
    rw [transition]
  induction bound generalizing f with
  | zero => rfl
  | succ bound ih =>
      unfold Folding.settle
      rw [flags, edges, follow]
      cases f.pending with
      | nil => rfl
      | cons entry rest =>
          dsimp only
          split
          · rfl
          · exact congrArg _ (funext ih)

include ids rows flags in
/-- A score depends on the states, their transitions and their flags. -/
theorem score_eq_of_views (strategy : Strategy) (pair : StatePair) :
    strategy.score g' pair = strategy.score g pair := by
  have mem : ∀ q, q ∈ g' ↔ q ∈ g := fun q => by rw [← mem_stateIds, ids, mem_stateIds]
  have edges : g'.edges = g.edges := funext fun q => by rw [Graph.edges, Graph.edges, rows]
  have reachable : g'.reachable = g.reachable := by
    funext q
    rw [Graph.reachable, Graph.reachable, transitionCount_eq, transitionCount_eq, ids, edges]
  have folded : Folding.ofPair g' pair = Folding.ofPair g pair := by
    unfold Folding.ofPair
    simp only [mem, reachable, settle_eq_of_views rows flags]
  have weighed : strategy.weigh g' = strategy.weigh g := by
    funext f
    unfold Strategy.weigh Folding.rejecting
    rw [flags]
  unfold Strategy.score
  rw [folded, weighed]

theorem stateIds_recolour : g.recolour.stateIds = g.stateIds := ExtTreeMap.keys_map

/-- Painting the frontier changes no score. -/
theorem score_recolour (strategy : Strategy) (pair : StatePair) :
    strategy.score g.recolour pair = strategy.score g pair := by
  refine score_eq_of_views stateIds_recolour ?_ (funext fun q => accepting?_recolour) strategy pair
  funext q
  refine row_mapStates_of_edges fun q s => ?_
  split
  · rfl
  · split <;> rfl

theorem depth?_recolour : g.recolour.depth? q = g.depth? q := by
  refine map_state?_mapStates fun q s => ?_
  split
  · rfl
  · split <;> rfl

theorem rank_recolour : g.recolour.rank q = g.rank q := by rw [rank, rank, depth?_recolour]

end Graph

end BlueFringe
