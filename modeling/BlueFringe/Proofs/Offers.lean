import BlueFringe.Folding
import BlueFringe.Proofs.Determinisation

/-!
# Offers

A state that is replaced offers its transitions to the state that takes its place. Folding a pair
and merging it look at the same offers in the same order: a label that the taker has is settled by
its own transition, any other by the first offer. This module says what follows from a list of
offers alone.
-/

namespace BlueFringe

open Std

/-- A transition of a replaced state, offered to the state that takes its place. -/
structure Offer (α : Type) where
  source : StateId
  taker : StateId
  label : α
  target : StateId

/-- The state that a transition leads to once the blue state has given way to the red one. -/
def StatePair.redirect (pair : StatePair) (q : StateId) : StateId :=
  if q = pair.blue then pair.red else q

variable {α : Type} [Ord α]

/-- Whether an offer is made to a state on a label. -/
def Offer.fits (o : Offer α) (r : StateId) (a : α) : Bool := o.taker = r && compare o.label a = .eq

/-- The first target that a state is offered on a label. -/
def firstOffer (offers : List (Offer α)) (r : StateId) (a : α) : Option StateId :=
  (offers.find? fun o => o.fits r a).map (·.target)

theorem firstOffer_append {xs ys : List (Offer α)} {r : StateId} {a : α} :
    firstOffer (xs ++ ys) r a = (firstOffer xs r a).or (firstOffer ys r a) := by
  simp only [firstOffer, List.find?_append]
  cases xs.find? fun o => o.fits r a <;> rfl

theorem firstOffer_singleton {o : Offer α} {r : StateId} {a : α} :
    firstOffer [o] r a = if o.fits r a then some o.target else none := by
  simp only [firstOffer, List.find?_singleton]
  cases o.fits r a <;> rfl

theorem Offer.fits_iff [TransOrd α] [LawfulEqOrd α] {o : Offer α} {r : StateId} {a : α} :
    o.fits r a = true ↔ o.taker = r ∧ o.label = a := by
  simp [Offer.fits, LawfulEqCmp.compare_eq_iff_eq]

theorem exists_of_firstOffer [TransOrd α] [LawfulEqOrd α] {offers : List (Offer α)} {r t : StateId}
    {a : α} (h : firstOffer offers r a = some t) :
    ∃ o ∈ offers, o.taker = r ∧ o.label = a ∧ o.target = t := by
  obtain ⟨o, ho, rfl⟩ := Option.map_eq_some_iff.mp h
  have hf := List.find?_some ho
  obtain ⟨hr, ha⟩ := Offer.fits_iff.mp hf
  exact ⟨o, List.mem_of_find?_eq_some ho, hr, ha, rfl⟩

namespace Graph

variable [TransOrd α]

/-- The offers of one replaced state. -/
def offersOf (g : Graph α) (entry : StateId × StateId) : List (Offer α) :=
  (g.edges entry.1).map fun edge => ⟨entry.1, entry.2, edge.1, edge.2⟩

/-- The offers of all replaced states, in order. -/
def offers (g : Graph α) (entries : List (StateId × StateId)) : List (Offer α) :=
  entries.flatMap g.offersOf

/-- The transition that a state takes over: the first that it is offered, if it has none itself. -/
def heir (g : Graph α) (offers : List (Offer α)) (r : StateId) (a : α) : Option StateId :=
  if (g.transition r a).isSome then none else firstOffer offers r a

/-- The transition of a state once the blue state has given way and offers were taken. -/
def foldedTarget (g : Graph α) (pair : StatePair) (offers : List (Offer α)) (r : StateId) (a : α) :
    Option StateId :=
  ((g.transition r a).or (firstOffer offers r a)).map pair.redirect

variable {g : Graph α} {pair : StatePair} {entries : List (StateId × StateId)}
  {offers done : List (Offer α)} {o : Offer α} {q r t : StateId} {a : α}

theorem offers_append {xs ys : List (StateId × StateId)} :
    g.offers (xs ++ ys) = g.offers xs ++ g.offers ys := by
  simp [Graph.offers]

theorem mem_offers [LawfulEqOrd α] : o ∈ g.offers entries ↔
    (o.source, o.taker) ∈ entries ∧ g.transition o.source o.label = some o.target := by
  simp only [Graph.offers, offersOf, List.mem_flatMap, List.mem_map, Prod.exists]
  constructor
  · rintro ⟨q, r, he, a, t, ht, rfl⟩
    exact ⟨he, mem_edges.mp ht⟩
  · rintro ⟨he, ht⟩
    exact ⟨o.source, o.taker, he, o.label, o.target, mem_edges.mpr ht, rfl⟩

theorem heir_eq_some : g.heir offers r a = some t ↔
    g.transition r a = none ∧ firstOffer offers r a = some t := by
  unfold heir
  cases g.transition r a <;> simp

theorem heir_append (h : g.heir offers r a = some t) : g.heir (offers ++ done) r a = some t := by
  obtain ⟨hd, hf⟩ := heir_eq_some.mp h
  rw [heir_eq_some, firstOffer_append, hf]
  exact ⟨hd, rfl⟩

theorem heir_concat_of_not_fits (h : o.fits r a = false) :
    g.heir (offers ++ [o]) r a = g.heir offers r a := by
  unfold heir
  rw [firstOffer_append, firstOffer_singleton, h]
  simp

theorem heir_concat_of_none [LawfulEqOrd α] (hd : g.transition o.taker o.label = none)
    (hn : g.heir offers o.taker o.label = none) :
    g.heir (offers ++ [o]) o.taker o.label = some o.target := by
  have none_yet : firstOffer offers o.taker o.label = none := by simpa [heir, hd] using hn
  have fits : o.fits o.taker o.label = true := Offer.fits_iff.mpr ⟨rfl, rfl⟩
  rw [heir_eq_some, firstOffer_append, none_yet, firstOffer_singleton, if_pos fits]
  exact ⟨hd, rfl⟩

theorem heir_of_transition (h : g.transition r a = some t) : g.heir offers r a = none := by
  simp [heir, h]

/-- A state has a transition of its own on a label, or it takes over the first offer. -/
theorem foldedTarget_eq : g.foldedTarget pair offers r a =
    ((g.transition r a).or (g.heir offers r a)).map pair.redirect := by
  unfold foldedTarget heir
  cases g.transition r a <;> simp

theorem foldedTarget_append (h : g.foldedTarget pair offers r a = some t) :
    g.foldedTarget pair (offers ++ done) r a = some t := by
  unfold foldedTarget at h ⊢
  rw [firstOffer_append]
  cases hd : g.transition r a <;> cases hf : firstOffer offers r a <;> simp_all

/-- Offers of different replaced states that hang off a root in a tree have different targets. -/
theorem nodup_targets_offers [LawfulEqOrd α] {root : StateId} (tree : g.TreeFrom root)
    (distinct : (entries.map (·.1)).Nodup) (below : ∀ e ∈ entries, g.Reaches root e.1) :
    ((g.offers entries).map (·.target)).Nodup := by
  have targets : (g.offers entries).map (·.target) = (entries.map (·.1)).flatMap g.targets := by
    simp [Graph.offers, offersOf, Graph.targets, List.map_flatMap, List.flatMap_map,
      Function.comp_def]
  have entered : ∀ q ∈ entries.map (·.1), ∀ a p, g.transition q a = some p →
      g.Reaches root p ∧ p ≠ root := by
    intro q hq a p ha
    obtain ⟨e, he, rfl⟩ := List.mem_map.mp hq
    exact ⟨(below e he).tail ha, fun h => tree.no_return e.1 a (below e he) (h ▸ ha)⟩
  rw [targets, List.nodup_flatMap]
  constructor
  · intro q hq
    refine nodup_targets fun a a' p ha ha' => ?_
    obtain ⟨hp, ne⟩ := entered q hq a p ha
    exact (tree.parent q a q a' p hp ne ha ha').2
  · refine distinct.pairwise_of_forall_ne fun q hq q' _ hne p hp hp' => hne ?_
    obtain ⟨a, ha⟩ := mem_targets.mp hp
    obtain ⟨a', ha'⟩ := mem_targets.mp hp'
    obtain ⟨hr, ne⟩ := entered q hq a p ha
    exact (tree.parent q a q' a' p hr ne ha ha').1

end Graph

end BlueFringe
