import BlueFringe.Learner.Basic

/-!
# The frontier

The blue states that follow from the red ones, the orders in which states and candidates are
considered, and the candidates of a graph.
-/

namespace BlueFringe

open Std

namespace Graph

variable {α : Type} [Ord α]

/-- States by depth, states of one depth by identity. -/
def shallowFirst (g : Graph α) : StateId → StateId → Ordering :=
  compareLex (compareOn g.depth?) compare

instance (g : Graph α) : TransCmp g.shallowFirst :=
  inferInstanceAs (TransCmp (compareLex (compareOn g.depth?) compare))

instance (g : Graph α) : LawfulEqCmp g.shallowFirst where
  eq_of_compare {p q} h := by
    have both : compareOn g.depth? p q = .eq ∧ compare p q = .eq := compareLex_eq_eq.mp h
    exact LawfulEqOrd.eq_of_compare both.2

variable [TransOrd α]

/-- The targets of red states that are not red, shallow ones first. -/
def frontier (g : Graph α) : List StateId :=
  distinctBy g.shallowFirst
    (((g.coloured .red).flatMap g.targets).filter fun q => g.colour? q ≠ some .red)

/-- Paints the frontier blue and takes the colour off all other blue states. -/
def recolour (g : Graph α) : Graph α :=
  let frontier := g.frontier
  g.mapStates fun q s =>
    if q ∈ frontier then { s with colour := .blue }
    else if s.colour = .blue then { s with colour := .uncoloured }
    else s

theorem mem_frontier [LawfulEqOrd α] {g : Graph α} {q : StateId} :
    q ∈ g.frontier ↔
      (∃ r a, g.colour? r = some .red ∧ g.transition r a = some q) ∧ g.colour? q ≠ some .red := by
  simp only [frontier, mem_distinctBy, List.mem_filter, List.mem_flatMap, mem_coloured, mem_targets,
    decide_eq_true_eq]
  constructor
  · rintro ⟨⟨r, hr, a, ha⟩, hq⟩
    exact ⟨⟨r, a, hr, ha⟩, hq⟩
  · rintro ⟨⟨r, a, hr, ha⟩, hq⟩
    exact ⟨⟨r, hr, a, ha⟩, hq⟩

end Graph

namespace Candidate

variable {α : Type} [Ord α]

/-- The order in which candidates are preferred: by score from the highest on, then by the blue
state, then by the red state, shallow ones first. -/
def preference (g : Graph α) : Candidate → Candidate → Ordering :=
  compareLex (fun c d => compare d.score c.score)
    (compareLex (fun c d => g.shallowFirst c.pair.blue d.pair.blue)
      (fun c d => g.shallowFirst c.pair.red d.pair.red))

end Candidate

namespace Graph

variable {α : Type} [Ord α] [TransOrd α]

/-- Each state of the frontier with each red state, apart from the pairs that are excluded. -/
def openPairs (g : Graph α) (excluded : ExtTreeSet StatePair compare) : List StatePair :=
  let pairs := g.frontier.flatMap fun blue => (g.coloured .red).map fun red => ⟨blue, red⟩
  pairs.filter fun pair => pair ∉ excluded

/-- The open pairs with their scores. A pair that cannot be scored ends the scoring. -/
def scoredPairs (g : Graph α) (strategy : Strategy) (excluded : ExtTreeSet StatePair compare) :
    Except Violation (List Candidate) :=
  (g.openPairs excluded).mapM fun pair => do
    let (score, identification) ← strategy.score g pair
    return ⟨pair, score, identification⟩

/-- The first state of the frontier that can be merged with no red state. -/
def stuckState? (g : Graph α) (scored : List Candidate) : Option StateId :=
  g.frontier.find? fun blue =>
    (scored.filter fun c => c.pair.blue = blue).all fun c => !c.score.isCompatible

/-- The pairs that can be merged, the preferred ones first. -/
def candidates (g : Graph α) (scored : List Candidate) : List Candidate :=
  sortBy (Candidate.preference g) (scored.filter fun c => c.score.isCompatible)

end Graph

end BlueFringe
