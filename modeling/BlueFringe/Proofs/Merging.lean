import BlueFringe.Proofs.Mergeability
import BlueFringe.Quotient

/-!
# Merging is taking the quotient

A merge redirects transitions into the blue state, hands over the offers of the replaced states and
takes these states away. The result has the images of the states, and just the images of the
transitions.
-/

namespace BlueFringe

open Std

variable {α : Type} [Ord α] [TransOrd α] [LawfulEqOrd α]

namespace Graph

variable {g : Graph α} {m : Identification} {q p r t : StateId} {a : α}

/-! ### Handing over offers -/

/-- Looks at offers in order and hands over those that their takers lack. -/
def Grafted.takeAll (s : Grafted α) (offers : List (Offer α)) : Grafted α :=
  offers.foldl (fun s o => s.take o.taker (o.label, o.target)) s

omit [LawfulEqOrd α] in
theorem graft_eq (g : Graph α) (m : Identification) (start : Graph α) :
    g.graft m start = Grafted.takeAll ⟨start, []⟩ (g.offers m.entries) := by
  rw [graft, Grafted.takeAll, offers, List.foldl_flatMap]
  congr 1
  funext s entry
  rw [offersOf, List.foldl_map]

/-- A graph that has taken offers: transitions are the old ones, and on other labels those that were
taken over; the rest is as it was. -/
structure Taken (g start : Graph α) (done : List (Offer α)) (s : Grafted α) : Prop where
  transition : ∀ r ∈ g, ∀ a, s.graph.transition r a = (start.transition r a).or (g.heir done r a)
  mem : ∀ q, q ∈ s.graph ↔ q ∈ start
  accepting : ∀ q, s.graph.accepting? q = start.accepting? q
  colour : ∀ q, s.graph.colour? q = start.colour? q
  initial : s.graph.initial = start.initial
  moved : ∀ t, t ∈ s.moved ↔ ∃ r a, g.heir done r a = some t

theorem heir_concat_of_taken {done : List (Offer α)} {o : Offer α}
    (h : g.transition o.taker o.label ≠ none ∨ g.heir done o.taker o.label ≠ none) :
    g.heir (done ++ [o]) r a = g.heir done r a := by
  cases hf : o.fits r a with
  | false => exact heir_concat_of_not_fits hf
  | true =>
      obtain ⟨rfl, rfl⟩ := Offer.fits_iff.mp hf
      rcases h with h | h
      · obtain ⟨p, hp⟩ := Option.ne_none_iff_exists'.mp h
        rw [heir_of_transition hp, heir_of_transition hp]
      · obtain ⟨p, hp⟩ := Option.ne_none_iff_exists'.mp h
        rw [hp, heir_append hp]

theorem Taken.skip {start : Graph α} {done : List (Offer α)} {s : Grafted α} {o : Offer α}
    (taken : Taken g start done s)
    (h : g.transition o.taker o.label ≠ none ∨ g.heir done o.taker o.label ≠ none) :
    Taken g start (done ++ [o]) s := by
  have unchanged : ∀ r a, g.heir (done ++ [o]) r a = g.heir done r a :=
    fun r a => heir_concat_of_taken h
  refine ⟨fun r hr a => ?_, taken.mem, taken.accepting, taken.colour, taken.initial, fun t => ?_⟩
  · rw [unchanged]
    exact taken.transition r hr a
  · simp only [unchanged]
    exact taken.moved t

theorem Taken.give {start : Graph α} {done : List (Offer α)} {s : Grafted α} {o : Offer α}
    (taken : Taken g start done s) (lacks : start.transition o.taker o.label = none)
    (new : g.heir (done ++ [o]) o.taker o.label = some o.target)
    (mem : o.taker ∈ s.graph) :
    Taken g start (done ++ [o])
      ⟨s.graph.setTarget o.taker o.label o.target, o.target :: s.moved⟩ := by
  have others : ∀ r a, o.fits r a = false → g.heir (done ++ [o]) r a = g.heir done r a :=
    fun r a => heir_concat_of_not_fits
  refine ⟨fun r hr a => ?_, fun q => ?_, fun q => ?_, fun q => ?_, taken.initial, fun t => ?_⟩
  · cases hf : o.fits r a with
    | false =>
        have apart : o.taker ≠ r ∨ o.label ≠ a := by
          by_contra h
          rw [not_or, not_not, not_not] at h
          rw [Offer.fits_iff.mpr h] at hf
          cases hf
        rw [others r a hf, transition_setTarget_of_ne apart]
        exact taken.transition r hr a
    | true =>
        obtain ⟨rfl, rfl⟩ := Offer.fits_iff.mp hf
        rw [new, lacks, Option.none_or]
        exact transition_setTarget_self mem
  · rw [mem_setTarget]
    exact taken.mem q
  · rw [accepting?_setTarget]
    exact taken.accepting q
  · rw [colour?_setTarget]
    exact taken.colour q
  · rw [List.mem_cons, taken.moved]
    constructor
    · rintro (rfl | ⟨r, a, h⟩)
      · exact ⟨_, _, new⟩
      · exact ⟨r, a, heir_append h⟩
    · rintro ⟨r, a, h⟩
      cases hf : o.fits r a with
      | false => exact Or.inr ⟨r, a, others r a hf ▸ h⟩
      | true =>
          obtain ⟨rfl, rfl⟩ := Offer.fits_iff.mp hf
          rw [new] at h
          exact Or.inl (Option.some.inj h).symm

theorem Taken.take {start : Graph α} {done : List (Offer α)} {s : Grafted α} {o : Offer α}
    (taken : Taken g start done s) (same : ∀ q, q ∈ start ↔ q ∈ g)
    (own : ∀ r a, start.transition r a = none ↔ g.transition r a = none) (mem : o.taker ∈ g) :
    Taken g start (done ++ [o]) (s.take o.taker (o.label, o.target)) := by
  unfold Grafted.take
  have before := taken.transition o.taker mem o.label
  split
  · rename_i p hp
    refine taken.skip ?_
    by_contra h
    rw [not_or, not_not, not_not] at h
    rw [hp, (own _ _).mpr h.1, h.2] at before
    cases before
  · rename_i hn
    rw [hn, eq_comm, Option.or_eq_none_iff] at before
    have new := heir_concat_of_none ((own _ _).mp before.1) before.2
    exact taken.give before.1 new ((taken.mem _).mpr ((same _).mpr mem))

theorem taken_takeAll {start : Graph α} (same : ∀ q, q ∈ start ↔ q ∈ g)
    (own : ∀ r a, start.transition r a = none ↔ g.transition r a = none)
    {offers : List (Offer α)} (mem : ∀ o ∈ offers, o.taker ∈ g) :
    Taken g start offers (Grafted.takeAll ⟨start, []⟩ offers) := by
  induction offers using List.reverseRecOn with
  | nil =>
      refine ⟨fun r _ a => ?_, fun _ => Iff.rfl, fun _ => rfl, fun _ => rfl, rfl, fun t => ?_⟩ <;>
        simp [Grafted.takeAll, heir, firstOffer]
  | append_singleton offers o ih =>
      rw [Grafted.takeAll, List.foldl_append]
      exact (ih fun o ho => mem o (List.mem_append_left _ ho)).take same own (mem o (by simp))

theorem taken_graft {m : Identification} {pair : StatePair}
    (known : ∀ entry ∈ m.entries, entry.2 ∈ g) :
    Taken g (g.redirect pair.blue pair.red) (g.offers m.entries)
      (g.graft m (g.redirect pair.blue pair.red)) := by
  rw [graft_eq]
  refine taken_takeAll (fun q => mem_redirect) (fun r a => ?_) (fun o ho => ?_)
  · rw [transition_redirect, Option.map_eq_none_iff]
  · exact known _ (mem_offers.mp ho).1

/-! ### Taking states away -/

/-- Along transitions that do not lead to a state that was moved, just the replaced states are
reached from the blue one. -/
theorem Folds.mem_cut (folds : g.Folds m) {moved : List StateId}
    (heirs : ∀ t, t ∈ moved ↔ ∃ r a, g.heir (g.offers m.entries) r a = some t) :
    q ∈ g.cut m.pair.blue moved ↔ q ∈ m.replaced := by
  have kept : ∀ t ∈ moved, t ∉ m.replaced := by
    intro t ht
    obtain ⟨r, a, h⟩ := (heirs t).mp ht
    exact folds.kept r a t h
  have leads : ∀ {s t}, Search.Leads
      (fun q => (g.edges q).filter fun edge => edge.2 ∉ moved) s t ↔
        t ∉ moved ∧ ∃ a, g.transition s a = some t := by
    intro s t
    simp only [Search.Leads, List.mem_filter, mem_edges, decide_eq_true_eq]
    tauto
  rw [cut, if_neg (fun h => kept _ h folds.blue_replaced),
    Search.mem_reached (fun s t h => ?_) (card_allTargets_lt g)]
  · constructor
    · intro steps
      induction steps with
      | refl => exact folds.blue_replaced
      | @tail s t _ hl ih =>
          obtain ⟨free, a, ha⟩ := leads.mp hl
          obtain ⟨r, hr⟩ := Identification.exists_entry ih
          rcases folds.placed ⟨s, r, a, t⟩ (mem_offers.mpr ⟨hr, ha⟩) with h | h
          · exact h
          · exact absurd ((heirs t).mpr ⟨_, _, h⟩) free
    · intro hq
      -- The search passes through replaced states only, so reaching a state is not yet enough.
      let Cut (q : StateId) : Prop := q ∈ m.replaced → Relation.ReflTransGen
        (Search.Leads fun q => (g.edges q).filter fun edge => edge.2 ∉ moved) m.pair.blue q
      refine (folds.reaches_of_replaced hq).induct (P := Cut) (fun _ => .refl) ?_ hq
      intro s a t hs ih ha ht
      have ne : t ≠ m.pair.blue := fun he => folds.tree.no_return s a hs (he ▸ ha)
      exact (ih (folds.source_replaced ht ne ha)).tail (leads.mpr ⟨fun h => kept t h ht, a, ha⟩)
  · obtain ⟨_, a, ha⟩ := leads.mp h
    exact mem_allTargets ha

/-! ### The merged graph -/

/-- A graph in which a folded tree has been merged into the rest: the states that were not replaced
remain as they were, with the transitions that they had or took over. -/
structure Merges (g : Graph α) (m : Identification) (merged : Graph α) : Prop
    extends g.Folds m where
  initial : merged.initial = g.initial
  mem : ∀ q, q ∈ merged ↔ q ∈ g ∧ q ∉ m.replaced
  transition : ∀ q ∈ merged, ∀ a,
    merged.transition q a = g.foldedTarget m.pair (g.offers m.entries) q a
  accepting : ∀ q ∈ merged, merged.accepting? q = g.accepting? q
  colour : ∀ q ∈ merged, merged.colour? q = g.colour? q

theorem Folds.mergeViolation?_eq_none (folds : g.Folds m) (unrejected : m.rejected = false) :
    g.mergeViolation? m.pair m = none := by
  have known : ((m.entries.flatMap fun entry => [entry.1, entry.2]).find? fun q => q ∉ g) =
      none := by
    rw [List.find?_eq_none]
    intro q hq
    obtain ⟨⟨s, r⟩, he, hq⟩ := List.mem_flatMap.mp hq
    have source := folds.replaced_mem (Identification.mem_replaced he)
    have taker := folds.image_mem source
    rw [Identification.image_of_mem folds.distinct he] at taker
    rcases List.mem_pair.mp hq with rfl | rfl <;> simp [source, taker]
  have apart : m.pair.red ∉ g.reachable m.pair.blue :=
    fun h => folds.apart (mem_reachable.mp h)
  have tree : g.isTreeFrom m.pair.blue = true := isTreeFrom_iff.mpr folds.tree
  unfold mergeViolation?
  rw [if_neg (not_not.mpr rfl), unrejected, if_neg Bool.false_ne_true,
    if_neg folds.toFoldable.distinct, known]
  simp [apart, tree]

/-- A folded tree can be merged, unless the initial state is part of it. -/
theorem Folds.exists_merge (folds : g.Folds m) (unrejected : m.rejected = false)
    (initial : g.initial ∈ g) (rooted : ¬ g.Reaches m.pair.blue g.initial) :
    ∃ merged, g.merge m.pair m = .ok merged ∧ g.Merges m merged := by
  let start := g.redirect m.pair.blue m.pair.red
  let grafted := g.graft m start
  let erased := grafted.graph.eraseAll (g.cut m.pair.blue grafted.moved)
  have redirected : ∀ r a, start.transition r a = (g.transition r a).map m.pair.redirect :=
    fun r a => transition_redirect
  have taken : Taken g start (g.offers m.entries) grafted := by
    refine taken_graft fun entry he => ?_
    rw [← Identification.image_of_mem folds.distinct he]
    exact folds.image_mem (folds.replaced_mem (Identification.mem_replaced he))
  have cut : ∀ q, q ∈ g.cut m.pair.blue grafted.moved ↔ q ∈ m.replaced :=
    fun q => folds.mem_cut taken.moved
  have mem : ∀ q, q ∈ erased ↔ q ∈ g ∧ q ∉ m.replaced := by
    intro q
    rw [mem_eraseAll, cut, taken.mem, mem_redirect]
  have present : g.initial ∈ erased :=
    (mem _).mpr ⟨initial, fun h => rooted (folds.reaches_of_replaced h)⟩
  refine ⟨erased.recomputeDepths, ?_, folds, ?_, ?_, ?_, ?_, ?_⟩
  · unfold merge
    rw [folds.mergeViolation?_eq_none unrejected]
    exact if_pos present
  · rw [initial_recomputeDepths]
    exact taken.initial
  · intro q
    rw [mem_recomputeDepths, mem]
  · intro q hq a
    obtain ⟨hg, kept⟩ := (mem q).mp (mem_recomputeDepths.mp hq)
    rw [transition_recomputeDepths, transition_eraseAll, if_neg (fun h => kept ((cut q).mp h)),
      taken.transition q hg, redirected, foldedTarget_eq]
    cases g.transition q a with
    | some t => rfl
    | none =>
        cases hh : g.heir (g.offers m.entries) q a with
        | none => rfl
        | some t =>
            rw [Option.map_none, Option.none_or, Option.map_some,
              folds.redirect_of_kept (folds.kept q a t hh)]
  · intro q hq
    have kept := ((mem q).mp (mem_recomputeDepths.mp hq)).2
    rw [accepting?_recomputeDepths, accepting?_eraseAll (fun h => kept ((cut q).mp h)),
      taken.accepting, accepting?_redirect]
  · intro q hq
    have kept := ((mem q).mp (mem_recomputeDepths.mp hq)).2
    rw [colour?_recomputeDepths, colour?_eraseAll (fun h => kept ((cut q).mp h)),
      taken.colour, colour?_redirect]

end Graph

end BlueFringe
