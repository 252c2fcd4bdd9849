import BlueFringe.Identification
import BlueFringe.Proofs.Walk

/-!
# Folding a tree

If the states below the blue one form a tree, a folding cannot fail, and without a clash it
identifies exactly what determinism forces. `Graph.Folds` collects what a finished walk leaves
behind; the image of a state under the identification is then a choice of one state from each class.
-/

namespace BlueFringe

open Std

variable {α : Type} [Ord α] [TransOrd α]

/-- The states below the blue one form a tree that the red one is no part of. -/
structure Graph.Foldable (g : Graph α) (pair : StatePair) : Prop where
  closed : g.Closed
  blue_mem : pair.blue ∈ g
  red_mem : pair.red ∈ g
  apart : ¬ g.Reaches pair.blue pair.red
  tree : g.TreeFrom pair.blue

theorem Graph.Foldable.distinct {g : Graph α} {pair : StatePair} (foldable : g.Foldable pair) :
    pair.blue ≠ pair.red :=
  fun h => foldable.apart (h ▸ Graph.Reaches.refl g pair.blue)

namespace Folding

variable {g : Graph α} {pair : StatePair} {below : ExtTreeSet StateId compare}
  {done : List (Offer α)} {f : Folding α}

/-! ### No folding of a tree fails -/

theorem entersBelow_eq_false (tree : g.TreeFrom pair.blue)
    (exact : ∀ q, q ∈ below ↔ g.Reaches pair.blue q) (r : StateId) (a : α) :
    entersBelow pair.blue below r (g.transition r a) = false := by
  cases ht : g.transition r a with
  | none => rfl
  | some t =>
      by_contra h
      simp only [entersBelow, Bool.and_eq_true, decide_eq_true_eq, Bool.not_eq_false, ne_eq,
        exact] at h
      exact h.2 (tree.inside r a t h.1.2 h.1.1 ht)

theorem exists_follow (tree : g.TreeFrom pair.blue)
    (exact : ∀ q, q ∈ below ↔ g.Reaches pair.blue q) (r : StateId) (f : Folding α)
    (edge : α × StateId) : ∃ f', follow g pair below r f edge = .ok f' := by
  simp only [follow, entersBelow_eq_false tree exact, Bool.false_eq_true, if_false]
  split <;> exact ⟨_, rfl⟩

theorem exists_foldlM (tree : g.TreeFrom pair.blue)
    (exact : ∀ q, q ∈ below ↔ g.Reaches pair.blue q) (r : StateId) (edges : List (α × StateId))
    (f : Folding α) : ∃ f', edges.foldlM (follow g pair below r) f = .ok f' := by
  induction edges generalizing f with
  | nil => exact ⟨f, rfl⟩
  | cons edge rest ih =>
      obtain ⟨f₁, h₁⟩ := exists_follow tree exact r f edge
      rw [List.foldlM_cons, h₁]
      exact ih f₁

theorem exists_settle (tree : g.TreeFrom pair.blue)
    (exact : ∀ q, q ∈ below ↔ g.Reaches pair.blue q) (bound : Nat) (f : Folding α) :
    ∃ f', settle g pair below bound f = .ok f' := by
  induction bound generalizing f with
  | zero => exact ⟨f, rfl⟩
  | succ bound ih =>
      rw [settle]
      split
      · exact ⟨f, rfl⟩
      · rename_i q r rest hp
        split
        · exact ⟨_, rfl⟩
        · obtain ⟨f₁, h₁⟩ := exists_foldlM tree exact r (g.edges q)
            { f with settled := f.settled.push (q, r), pending := rest }
          rw [h₁]
          exact ih f₁

variable [LawfulEqOrd α]

/-- A folding of a tree into the rest of the graph comes to an end. -/
theorem exists_ofPair (foldable : g.Foldable pair) : ∃ f, ofPair g pair = .ok f := by
  obtain ⟨f, settled⟩ :=
    exists_settle foldable.tree (fun q => Graph.mem_reachable_set) _ (start pair)
  exact ⟨f, ofPair_eq_ok.mpr
    ⟨foldable.blue_mem, foldable.red_mem, foldable.distinct, foldable.apart, settled⟩⟩

/-! ### What is inherited is kept -/

/-- In a tree no state is offered twice. -/
theorem Walk.target_ne {o : Offer α} (walk : Walk g pair below done f) (tree : g.TreeFrom pair.blue)
    (next : done ++ [o] <+: g.offers f.settled.toList) : ∀ o' ∈ done, o'.target ≠ o.target := by
  have settled_distinct : (f.settled.toList.map (·.1)).Nodup := by
    have hd := walk.booked.distinct
    rw [replaced, entries, List.map_append] at hd
    exact hd.of_append_left
  have once : ((done ++ [o]).map (·.target)).Nodup :=
    (Graph.nodup_targets_offers tree settled_distinct fun e he =>
      walk.reaches e (List.mem_append_left _ he)).sublist (next.sublist.map _)
  rw [List.map_append, List.map_singleton, List.nodup_append] at once
  exact fun o' ho' => once.2.2 o'.target (List.mem_map_of_mem ho') o.target (by simp)

/-- What is inherited is not replaced as well, since it was offered once. -/
theorem Walk.heir_notMem (walk : Walk g pair below done f) (tree : g.TreeFrom pair.blue) :
    ∀ r a t, g.heir done r a = some t → t ∉ f.replaced := by
  induction walk with
  | start =>
      intro r a t h
      simp [Graph.heir, firstOffer] at h
  | take walk hp ha ih =>
      rw [replaced, entries_take hp]
      exact ih
  | @follow done f f' o walk next h ih =>
      have fresh := walk.target_ne tree next
      intro r a t hh
      have followed := Walk.follow walk next h
      rw [← followed.inheritedTarget_eq] at hh
      rcases follow_cases h with ⟨p, hp, rfl⟩ | ⟨_, _, rfl⟩
      · rw [inheritedTarget_identify, walk.inheritedTarget_eq] at hh
        have kept := ih r a t hh
        by_cases hf : o.target ∈ f.found
        · rw [identify_of_mem hf]
          exact kept
        · rw [replaced, entries_identify_of_notMem hf, List.map_append, List.mem_append,
            List.map_singleton, List.mem_singleton]
          rintro (hm | rfl)
          · exact kept hm
          · obtain ⟨o', ho', _, _, ht⟩ := exists_of_firstOffer (Graph.heir_eq_some.mp hh).2
            exact fresh o' ho' ht
      · rw [inheritedTarget_inherit] at hh
        split at hh
        · cases hh
          intro hm
          obtain ⟨e, he, ht⟩ := List.mem_map.mp hm
          rcases walk.exists_offer he with rfl | ⟨o', ho', ht', _⟩
          · obtain ⟨hs, ho⟩ := Graph.mem_offers.mp (next.subset (by simp : o ∈ done ++ [o]))
            have back : g.transition o.source o.label = some pair.blue := by rw [ho, ← ht]
            exact tree.no_return _ _ (walk.reaches _ (List.mem_append_left _ hs)) back
          · exact fresh o' ho' (ht'.trans ht)
        · rw [walk.inheritedTarget_eq] at hh
          exact ih r a t hh

end Folding

namespace Identification

/-- The states that are replaced. -/
def replaced (m : Identification) : List StateId := m.entries.map (·.1)

variable {m : Identification} {q r : StateId}

theorem image_of_notMem (h : q ∉ m.replaced) : m.image q = q := by
  have missing : m.entries.lookup q = none := by
    rw [List.lookup_eq_none_iff]
    intro e he
    exact bne_iff_ne.mpr fun hq => h (List.mem_map.mpr ⟨e, he, hq.symm⟩)
  rw [image, representative?, missing, Option.getD_none]

theorem image_of_mem (distinct : m.replaced.Nodup) (h : (q, r) ∈ m.entries) : m.image q = r := by
  have found : m.entries.lookup q = some r := by
    obtain ⟨front, rest, split⟩ := List.append_of_mem h
    rw [List.lookup_eq_some_iff]
    refine ⟨front, rest, split, fun e he => bne_iff_ne.mpr fun hq => ?_⟩
    rw [replaced, split, List.map_append, List.map_cons, List.nodup_append] at distinct
    exact distinct.2.2 e.1 (List.mem_map_of_mem he) q (by simp) hq.symm
  rw [image, representative?, found, Option.getD_some]

theorem exists_entry (h : q ∈ m.replaced) : ∃ r, (q, r) ∈ m.entries := by
  obtain ⟨e, he, rfl⟩ := List.mem_map.mp h
  exact ⟨e.2, he⟩

theorem mem_replaced (h : (q, r) ∈ m.entries) : q ∈ m.replaced := List.mem_map_of_mem h

end Identification

/-! ### Finished foldings -/

/-- An identification that folds the tree below its blue state into the rest of the graph. -/
structure Graph.Folds (g : Graph α) (m : Identification) : Prop extends g.Foldable m.pair where
  first : m.entries.head? = some (m.pair.blue, m.pair.red)
  distinct : m.replaced.Nodup
  below : ∀ e ∈ m.entries, g.Reaches m.pair.blue e.1
  agree : ∀ e ∈ m.entries, g.accepting? e.1 = g.accepting? e.2
  forced : ∀ e ∈ m.entries, g.Forced m.pair.blue m.pair.red e.1 e.2
  exists_offer : ∀ e ∈ m.entries, e = (m.pair.blue, m.pair.red) ∨
    ∃ o ∈ g.offers m.entries, o.target = e.1 ∧
      g.foldedTarget m.pair (g.offers m.entries) o.taker o.label = some e.2
  placed : ∀ o ∈ g.offers m.entries,
    o.target ∈ m.replaced ∨ g.heir (g.offers m.entries) o.taker o.label = some o.target
  kept : ∀ r a t, g.heir (g.offers m.entries) r a = some t → t ∉ m.replaced

/-- A walk that ended without a clash folds the tree. -/
theorem Folding.Walk.folds [LawfulEqOrd α] {g : Graph α} {pair : StatePair}
    {below : ExtTreeSet StateId compare} {f : Folding α}
    (walk : Walk g pair below (g.offers f.settled.toList) f)
    (ended : f.pending = []) (foldable : g.Foldable pair) (rejected : Bool) :
    g.Folds ⟨pair, f.entries, rejected⟩ := by
  have all : f.settled.toList = f.entries := by rw [entries, ended, List.append_nil]
  have booked := walk.booked
  have kept := walk.heir_notMem foldable.tree
  rw [all] at walk kept
  exact ⟨foldable, booked.first, booked.distinct, walk.reaches,
    all ▸ booked.agree, walk.forced, fun e he => walk.exists_offer he,
    fun o ho => walk.replaced_or_inherited ho, kept⟩

namespace Graph.Folds

variable {g : Graph α} {m : Identification} (folds : g.Folds m) {q r p t : StateId} {a : α}
include folds

theorem pair_mem : (m.pair.blue, m.pair.red) ∈ m.entries := List.mem_of_mem_head? folds.first

theorem blue_replaced : m.pair.blue ∈ m.replaced := Identification.mem_replaced folds.pair_mem

theorem reaches_of_replaced (h : q ∈ m.replaced) : g.Reaches m.pair.blue q := by
  obtain ⟨r, hr⟩ := Identification.exists_entry h
  exact folds.below _ hr

theorem red_kept : m.pair.red ∉ m.replaced := fun h => folds.apart (folds.reaches_of_replaced h)

theorem ne_blue (hq : q ∈ m.replaced) (ha : g.transition q a = some p) : p ≠ m.pair.blue :=
  fun h => folds.tree.no_return q a (folds.reaches_of_replaced hq) (h ▸ ha)

theorem redirect_of_kept (h : p ∉ m.replaced) : m.pair.redirect p = p := by
  have ne : p ≠ m.pair.blue := fun he => h (he ▸ folds.blue_replaced)
  rw [StatePair.redirect, if_neg ne]

theorem accepting?_image (q : StateId) : g.accepting? (m.image q) = g.accepting? q := by
  by_cases h : q ∈ m.replaced
  · obtain ⟨r, hr⟩ := Identification.exists_entry h
    rw [Identification.image_of_mem folds.distinct hr]
    exact (folds.agree _ hr).symm
  · rw [Identification.image_of_notMem h]

theorem forced_image (q : StateId) : g.Forced m.pair.blue m.pair.red q (m.image q) := by
  by_cases h : q ∈ m.replaced
  · obtain ⟨r, hr⟩ := Identification.exists_entry h
    rw [Identification.image_of_mem folds.distinct hr]
    exact folds.forced _ hr
  · rw [Identification.image_of_notMem h]
    exact Forced.refl q

theorem image_mem (hq : q ∈ g) : m.image q ∈ g := by
  rcases (folds.forced_image q).eq_or_mem folds.closed folds.blue_mem folds.red_mem with he | hm
  · rwa [← he]
  · exact hm.2

theorem replaced_mem (h : q ∈ m.replaced) : q ∈ g :=
  folds.closed.mem_of_reaches folds.blue_mem (folds.reaches_of_replaced h)

variable [LawfulEqOrd α]

/-- A replaced state other than the blue one was found along the one transition that enters it. -/
theorem exists_taker {s : StateId} (hs : (p, s) ∈ m.entries) (ne : p ≠ m.pair.blue)
    (ha : g.transition q a = some p) :
    ∃ r, (q, r) ∈ m.entries ∧ g.foldedTarget m.pair (g.offers m.entries) r a = some s := by
  rcases folds.exists_offer _ hs with he | ⟨o, ho, rfl, hf⟩
  · exact absurd (congrArg Prod.fst he) ne
  · obtain ⟨hsrc, htr⟩ := mem_offers.mp ho
    obtain ⟨rfl, rfl⟩ :=
      folds.tree.parent q a o.source o.label o.target (folds.below _ hs) ne ha htr
    exact ⟨o.taker, hsrc, hf⟩

/-- Replaced states below the blue one are entered from replaced states only. -/
theorem source_replaced (hp : p ∈ m.replaced) (ne : p ≠ m.pair.blue)
    (ha : g.transition q a = some p) : q ∈ m.replaced := by
  obtain ⟨s, hs⟩ := Identification.exists_entry hp
  obtain ⟨r, hr, _⟩ := folds.exists_taker hs ne ha
  exact Identification.mem_replaced hr

/-- What a kept state moves to on its own is kept, up to the blue state giving way. -/
theorem redirect_kept (hq : q ∉ m.replaced) (ha : g.transition q a = some p) :
    m.pair.redirect p ∉ m.replaced := by
  unfold StatePair.redirect
  split
  · exact folds.red_kept
  · rename_i ne
    exact fun hp => hq (folds.source_replaced hp ne ha)

theorem foldedTarget_kept (hq : q ∉ m.replaced)
    (h : g.foldedTarget m.pair (g.offers m.entries) q a = some p) : p ∉ m.replaced := by
  rw [foldedTarget_eq] at h
  obtain ⟨t, ht, rfl⟩ := Option.map_eq_some_iff.mp h
  rcases Option.or_eq_some_iff.mp ht with hd | ⟨_, hh⟩
  · exact folds.redirect_kept hq hd
  · have := folds.kept q a t hh
    rwa [folds.redirect_of_kept this]

/-- No state that takes the place of another is replaced itself. -/
theorem taker_kept (h : (q, r) ∈ m.entries) : r ∉ m.replaced := by
  let Kept (q : StateId) : Prop := ∀ r, (q, r) ∈ m.entries → r ∉ m.replaced
  suffices all : Kept q from all r h
  refine (folds.below _ h).induct ?_ ?_
  · intro r h
    have same := Identification.image_of_mem folds.distinct h
    rw [Identification.image_of_mem folds.distinct folds.pair_mem] at same
    exact same ▸ folds.red_kept
  · intro q a p hq ih ha s hs
    have ne : p ≠ m.pair.blue := fun he => folds.tree.no_return q a hq (he ▸ ha)
    obtain ⟨r, hr, hf⟩ := folds.exists_taker hs ne ha
    exact folds.foldedTarget_kept (ih r hr) hf

theorem image_kept (q : StateId) : m.image q ∉ m.replaced := by
  by_cases hq : q ∈ m.replaced
  · obtain ⟨r, hr⟩ := Identification.exists_entry hq
    rw [Identification.image_of_mem folds.distinct hr]
    exact folds.taker_kept hr
  · rwa [Identification.image_of_notMem hq]

theorem image_idem (q : StateId) : m.image (m.image q) = m.image q :=
  Identification.image_of_notMem (folds.image_kept q)

/-- A state moves to the image of its target once its own image was given all offers. -/
theorem foldedTarget_image (ha : g.transition q a = some p) :
    g.foldedTarget m.pair (g.offers m.entries) (m.image q) a = some (m.image p) := by
  rw [foldedTarget_eq]
  by_cases hq : q ∈ m.replaced
  · obtain ⟨r, hr⟩ := Identification.exists_entry hq
    have ne := folds.ne_blue hq ha
    rw [Identification.image_of_mem folds.distinct hr]
    by_cases hp : p ∈ m.replaced
    · obtain ⟨s, hs⟩ := Identification.exists_entry hp
      obtain ⟨r', hr', hf⟩ := folds.exists_taker hs ne ha
      have same := Identification.image_of_mem folds.distinct hr'
      rw [Identification.image_of_mem folds.distinct hr] at same
      rw [← foldedTarget_eq, Identification.image_of_mem folds.distinct hs, same]
      exact hf
    · rcases folds.placed ⟨q, r, a, p⟩ (mem_offers.mpr ⟨hr, ha⟩) with h | h
      · exact absurd h hp
      · have hd := (heir_eq_some.mp h).1
        rw [hd, Option.none_or, h, Option.map_some, folds.redirect_of_kept hp,
          Identification.image_of_notMem hp]
  · rw [Identification.image_of_notMem hq, ha, Option.some_or, Option.map_some]
    congr 1
    by_cases hb : p = m.pair.blue
    · rw [hb, Identification.image_of_mem folds.distinct folds.pair_mem, StatePair.redirect,
        if_pos rfl]
    · have kept := folds.redirect_kept hq ha
      rw [StatePair.redirect, if_neg hb] at kept ⊢
      exact (Identification.image_of_notMem kept).symm

/-- Two states are forced together just if they have one image. -/
theorem forced_iff : g.Forced m.pair.blue m.pair.red p q ↔ m.image p = m.image q := by
  constructor
  · refine Forced.image_eq ?_ fun p q a p' q' same hp hq => ?_
    · rw [Identification.image_of_mem folds.distinct folds.pair_mem,
        Identification.image_of_notMem folds.red_kept]
    · have left := folds.foldedTarget_image hp
      rw [same, folds.foldedTarget_image hq] at left
      exact (Option.some.inj left).symm
  · intro same
    have back := (folds.forced_image q).symm
    exact (folds.forced_image p).trans (same ▸ back)

theorem represents : g.Represents m.pair.blue m.pair.red m.image :=
  ⟨fun _ => folds.image_mem, folds.image_idem, fun _ _ => folds.forced_iff⟩

/-- The states that have another image are the replaced ones. -/
theorem moved_eq : Represents.moved g m.image = m.replaced.toFinset := by
  ext q
  rw [Represents.mem_moved, List.mem_toFinset]
  constructor
  · rintro ⟨_, hm⟩
    by_contra hq
    exact hm (Identification.image_of_notMem hq)
  · intro hq
    refine ⟨folds.replaced_mem hq, fun he => folds.image_kept q ?_⟩
    rwa [he]

theorem card_moved : (Represents.moved g m.image).card = m.size := by
  rw [folds.moved_eq, List.toFinset_card_of_nodup folds.distinct]
  exact List.length_map _

end Graph.Folds

end BlueFringe
