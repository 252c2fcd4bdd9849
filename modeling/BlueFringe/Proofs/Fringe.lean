import BlueFringe.Learner.Frontier
import BlueFringe.Proofs.RootedTree

/-!
# The fringe

In a search the red states are confirmed, and what is not red hangs off them in trees: no transition
leads back to a red state, and each state that is not red is entered by one transition. Recolouring,
promoting a state of the frontier and merging one into a red state all keep this shape, the runs,
the red states and the transitions among them.
-/

namespace BlueFringe.Graph

open Std

variable {α : Type} [Ord α] [TransOrd α]

/-- A graph in which the states that are not red hang off the red ones in trees. -/
structure Fringed (g : Graph α) : Prop where
  closed : g.Closed
  rooted : g.colour? g.initial = some .red
  reached : ∀ q ∈ g, g.Reaches g.initial q
  outward : ∀ q a p, g.transition q a = some p → g.colour? p = some .red → g.colour? q = some .red
  parent : ∀ q a q' a' p, g.colour? p ≠ some .red → g.transition q a = some p →
    g.transition q' a' = some p → q = q' ∧ a = a'

/-- A graph of which a search may go on to the next: it grows, and what is confirmed remains. -/
structure Advances (g g' : Graph α) : Prop where
  grows : g.Grows g'
  red : ∀ q, g.colour? q = some .red → g'.colour? q = some .red
  core : ∀ q a p, g.colour? q = some .red → g.colour? p = some .red →
    g.transition q a = some p → g'.transition q a = some p

variable {g g' g'' : Graph α} {q p : StateId} {a : α}

theorem Advances.refl (g : Graph α) : g.Advances g :=
  ⟨Grows.refl g, fun _ => id, fun _ _ _ _ _ => id⟩

theorem Advances.trans (first : g.Advances g') (second : g'.Advances g'') : g.Advances g'' := by
  refine ⟨first.grows.trans second.grows, fun q h => second.red q (first.red q h), ?_⟩
  intro q a p hq hp ha
  exact second.core q a p (first.red q hq) (first.red p hp) (first.core q a p hq hp ha)

omit [TransOrd α] in
theorem mem_of_colour {colour : Colour} (h : g.colour? q = some colour) : q ∈ g := by
  obtain ⟨s, hs, _⟩ := Option.map_eq_some_iff.mp h
  exact mem_iff_exists.mpr ⟨s, hs⟩

/-! ### What the shape gives -/

namespace Fringed

theorem initial_mem (fringed : g.Fringed) : g.initial ∈ g := mem_of_colour fringed.rooted

theorem not_red_of_reaches (fringed : g.Fringed) (hq : g.colour? q ≠ some .red)
    (h : g.Reaches q p) : g.colour? p ≠ some .red := by
  let Outside (p : StateId) : Prop := g.colour? p ≠ some .red
  exact h.induct (P := Outside) hq fun r a p _ hr ha hp => hr (fringed.outward r a p ha hp)

theorem not_reaches_initial (fringed : g.Fringed) (hq : g.colour? q ≠ some .red) :
    ¬ g.Reaches q g.initial :=
  fun h => fringed.not_red_of_reaches hq h fringed.rooted

/-- A state that is not red is entered by exactly one transition. -/
theorem existsUnique_parent (fringed : g.Fringed) (hq : q ∈ g) (h : g.colour? q ≠ some .red) :
    ∃! entry : StateId × α, g.transition entry.1 entry.2 = some q := by
  rcases (fringed.reached q hq).cases_tail with rfl | ⟨r, a, _, ha⟩
  · exact absurd fringed.rooted h
  · refine ⟨(r, a), ha, ?_⟩
    rintro ⟨r', a'⟩ ha'
    obtain ⟨rfl, rfl⟩ := fringed.parent r' a' r a q h ha' ha
    rfl

variable [LawfulEqOrd α]

theorem isTrim (fringed : g.Fringed) : g.isTrim = true :=
  (isTrim_iff fringed.closed fringed.initial_mem).mpr fringed.reached

theorem mem_of_mem_frontier (fringed : g.Fringed) (h : q ∈ g.frontier) : q ∈ g := by
  obtain ⟨⟨r, a, _, ha⟩, _⟩ := mem_frontier.mp h
  exact fringed.closed r a q ha

/-- States of the frontier are entered from red states only. -/
theorem red_of_enters (fringed : g.Fringed) (h : q ∈ g.frontier)
    (ha : g.transition p a = some q) : g.colour? p = some .red := by
  obtain ⟨⟨r, b, hr, hb⟩, hq⟩ := mem_frontier.mp h
  obtain ⟨rfl, _⟩ := fringed.parent p a r b q hq ha hb
  exact hr

theorem treeFrom (fringed : g.Fringed) (h : q ∈ g.frontier) : g.TreeFrom q := by
  have hq := (mem_frontier.mp h).2
  refine ⟨fun r a hr ha => ?_, fun r a p hp ne ha => ?_, fun r a r' a' p hp _ ha ha' => ?_⟩
  · exact fringed.not_red_of_reaches hq hr (fringed.red_of_enters h ha)
  · rcases hp.cases_tail with he | ⟨s, b, hs, hb⟩
    · exact absurd he ne
    · obtain ⟨rfl, _⟩ := fringed.parent r a s b p (fringed.not_red_of_reaches hq hp) ha hb
      exact hs
  · exact fringed.parent r a r' a' p (fringed.not_red_of_reaches hq hp) ha ha'

/-- Any state of the frontier can be folded into any red state. -/
theorem foldable (fringed : g.Fringed) {pair : StatePair} (blue : pair.blue ∈ g.frontier)
    (red : g.colour? pair.red = some .red) : g.Foldable pair :=
  ⟨fringed.closed, fringed.mem_of_mem_frontier blue, mem_of_colour red,
    fun h => fringed.not_red_of_reaches (mem_frontier.mp blue).2 h red, fringed.treeFrom blue⟩

end Fringed

/-! ### Operations of the search -/

/-- Whatever is painted, the shape remains if red stays red and new red states are entered from red
ones only. -/
theorem Fringed.repaint (fringed : g.Fringed) (mem : ∀ q, q ∈ g' ↔ q ∈ g)
    (initial : g'.initial = g.initial) (same : ∀ q a, g'.transition q a = g.transition q a)
    (accepting : ∀ q, g'.accepting? q = g.accepting? q)
    (red : ∀ q, g.colour? q = some .red → g'.colour? q = some .red)
    (entered : ∀ q a p, g.transition q a = some p → g'.colour? p = some .red →
      g'.colour? q = some .red) : g'.Fringed ∧ g.Advances g' := by
  refine ⟨⟨fun q a p ha => ?_, initial ▸ red _ fringed.rooted, fun q hq => ?_,
    fun q a p ha hp => ?_, fun q a q' a' p hp ha ha' => ?_⟩,
    ⟨Grows.of_views initial same accepting, red, fun q a p _ _ ha => (same q a).trans ha⟩⟩
  · rw [same] at ha
    exact (mem p).mpr (fringed.closed q a p ha)
  · rw [initial]
    exact (fringed.reached q ((mem q).mp hq)).of_transition same
  · rw [same] at ha
    exact entered q a p ha hp
  · rw [same] at ha ha'
    exact fringed.parent q a q' a' p (fun h => hp (red p h)) ha ha'

omit [TransOrd α] in
theorem colour?_begin (initial : g.initial ∈ g) :
    (g.clearColours.setColour g.initial .red).colour? q = some .red ↔ q = g.initial := by
  rw [colour?_setColour]
  by_cases here : g.initial = q
  · obtain ⟨s, hs⟩ := mem_iff_exists.mp initial
    rw [if_pos here, state?_clearColours, hs]
    simp [here]
  · rw [if_neg here, colour?, state?_clearColours]
    cases g.state? q <;> simp [Ne.symm here]

/-- With its root coloured, a tree has the shape. -/
theorem RootedTree.begin (tree : g.RootedTree) :
    (g.clearColours.setColour g.initial .red).Fringed ∧
      g.Advances (g.clearColours.setColour g.initial .red) := by
  have same : ∀ q a, (g.clearColours.setColour g.initial .red).transition q a =
      g.transition q a := fun q a => by rw [transition_setColour, transition_clearColours]
  have plain : ∀ q, g.colour? q ≠ some .red := fun q h => by cases tree.plain q _ h
  refine ⟨⟨fun q a p ha => ?_, (colour?_begin tree.initial).mpr rfl, fun q hq => ?_,
    fun q a p ha hp => ?_, fun q a q' a' p _ ha ha' => ?_⟩,
    ⟨Grows.of_views rfl same fun q => ?_, fun q hq => absurd hq (plain q),
      fun q a p hq => absurd hq (plain q)⟩⟩
  · rw [same] at ha
    exact mem_update.mpr (mem_mapStates.mpr (tree.closed q a p ha))
  · have reached : g.Reaches g.initial q := tree.reached q (mem_mapStates.mp (mem_update.mp hq))
    exact reached.of_transition same
  · rw [same, (colour?_begin tree.initial).mp hp] at ha
    exact absurd ha tree.transition_ne_initial
  · rw [same] at ha ha'
    exact tree.parent ha ha'
  · rw [accepting?_setColour]
    exact accepting?_mapStates_of_accepting fun _ _ => rfl

/-- The blue states are those of the frontier. -/
def Painted (g : Graph α) : Prop := ∀ q, g.colour? q = some .blue ↔ q ∈ g.frontier

theorem state?_recolour : g.recolour.state? q = (g.state? q).map fun s =>
    if q ∈ g.frontier then { s with colour := .blue }
    else if s.colour = .blue then { s with colour := .uncoloured } else s :=
  state?_mapStates

theorem transition_recolour : g.recolour.transition q a = g.transition q a := by
  refine transition_mapStates_of_edges fun q s => ?_
  split
  · rfl
  · split <;> rfl

theorem accepting?_recolour : g.recolour.accepting? q = g.accepting? q := by
  refine accepting?_mapStates_of_accepting fun q s => ?_
  split
  · rfl
  · split <;> rfl

variable [LawfulEqOrd α]

theorem colour?_recolour_eq_red : g.recolour.colour? q = some .red ↔ g.colour? q = some .red := by
  rw [colour?, state?_recolour, Option.map_map]
  by_cases front : q ∈ g.frontier
  · have other := (mem_frontier.mp front).2
    simp only [front, if_true, other, iff_false]
    cases g.state? q <;> simp
  · rw [colour?]
    cases g.state? q with
    | none => simp
    | some s => cases hc : s.colour <;> simp [front, hc]

theorem mem_frontier_recolour : q ∈ g.recolour.frontier ↔ q ∈ g.frontier := by
  simp only [mem_frontier, transition_recolour, colour?_recolour_eq_red, ne_eq]

namespace Fringed

theorem painted_recolour (fringed : g.Fringed) : g.recolour.Painted := by
  intro q
  rw [mem_frontier_recolour, colour?, state?_recolour, Option.map_map]
  by_cases front : q ∈ g.frontier
  · obtain ⟨s, hs⟩ := mem_iff_exists.mp (fringed.mem_of_mem_frontier front)
    simp [front, hs]
  · cases g.state? q with
    | none => simp [front]
    | some s => cases hc : s.colour <;> simp [front, hc]

theorem recolour (fringed : g.Fringed) : g.recolour.Fringed ∧ g.Advances g.recolour := by
  refine fringed.repaint (fun q => mem_mapStates) rfl (fun q a => transition_recolour)
    (fun q => accepting?_recolour) (fun q => colour?_recolour_eq_red.mpr) fun q a p ha hp => ?_
  rw [colour?_recolour_eq_red] at hp ⊢
  exact fringed.outward q a p ha hp

/-- A state of the frontier may turn red. -/
theorem promote (fringed : g.Fringed) (front : q ∈ g.frontier) :
    (g.setColour q .red).Fringed ∧ g.Advances (g.setColour q .red) := by
  obtain ⟨s, hs⟩ := mem_iff_exists.mp (fringed.mem_of_mem_frontier front)
  have red : ∀ p, (g.setColour q .red).colour? p = some .red ↔ q = p ∨ g.colour? p = some .red := by
    intro p
    rw [colour?_setColour]
    split
    · rename_i here
      simp [← here, hs]
    · rename_i other
      simp [other]
  refine fringed.repaint (fun p => mem_update) rfl (fun r a => transition_setColour)
    (fun p => accepting?_setColour) (fun p hp => (red p).mpr (Or.inr hp)) fun r a p ha hp => ?_
  rcases (red p).mp hp with rfl | old
  · exact (red r).mpr (Or.inr (fringed.red_of_enters front ha))
  · exact (red r).mpr (Or.inr (fringed.outward r a p ha old))

end Fringed

/-! ### Merging a state of the frontier -/

namespace Merges

variable {merged : Graph α} {m : Identification} (merges : g.Merges m merged)
  (fringed : g.Fringed) (front : m.pair.blue ∈ g.frontier)
include merges fringed front

theorem not_red_of_replaced (h : q ∈ m.replaced) : g.colour? q ≠ some .red :=
  fringed.not_red_of_reaches (mem_frontier.mp front).2 (merges.reaches_of_replaced h)

theorem mem_of_red (h : g.colour? q = some .red) : q ∈ merged :=
  (merges.mem q).mpr
    ⟨mem_of_colour h, fun hq => merges.not_red_of_replaced fringed front hq h⟩

theorem image_of_red (h : g.colour? q = some .red) : m.image q = q :=
  (merges.mem_iff.mp (merges.mem_of_red fringed front h)).2

theorem advances : g.Advances merged := by
  refine ⟨merges.grows (merges.mem_of_red fringed front fringed.rooted) fringed.initial_mem,
    fun q h => ?_, fun q a p hq hp ha => ?_⟩
  · rw [merges.colour q (merges.mem_of_red fringed front h), h]
  · have image := merges.transition_image ha
    rwa [merges.image_of_red fringed front hq, merges.image_of_red fringed front hp] at image

omit fringed front in
/-- Apart from the red state of the pair, a state is entered from the images of the states from
which it was entered before. -/
theorem exists_source (h : merged.transition q a = some p) (ne : p ≠ m.pair.red) :
    ∃ x, g.transition x a = some p ∧ m.image x = q := by
  rcases merges.transition_cases h with ha | ⟨_, hp⟩ | ⟨x, _, hx, ha, _⟩
  · exact ⟨q, ha, (merges.mem_iff.mp (mem_of_transition h)).2⟩
  · exact absurd hp ne
  · exact ⟨x, ha, hx⟩

theorem fringed_merged (red : g.colour? m.pair.red = some .red) : merged.Fringed := by
  have initial := merges.mem_of_red fringed front fringed.rooted
  have colour : ∀ q a p, merged.transition q a = some p →
      merged.colour? q = g.colour? q ∧ merged.colour? p = g.colour? p := fun q a p ha =>
    ⟨merges.colour q (mem_of_transition ha), merges.colour p (merges.closed_merged q a p ha)⟩
  refine ⟨merges.closed_merged, ?_, fun q hq => ?_, fun q a p ha hp => ?_,
    fun q a q' a' p hp ha ha' => ?_⟩
  · rw [merges.initial, merges.colour _ initial, fringed.rooted]
  · obtain ⟨hg, own⟩ := merges.mem_iff.mp hq
    obtain ⟨w, hw⟩ := fringed.reached q hg
    exact ⟨w, own ▸ merges.run_image initial hw⟩
  · obtain ⟨hcq, hcp⟩ := colour q a p ha
    rw [hcp] at hp
    rw [hcq]
    rcases merges.transition_cases ha with hd | ⟨hd, _⟩ | ⟨s, hs, _, hd, _⟩
    · exact fringed.outward q a p hd hp
    · exact fringed.red_of_enters front hd
    · exact absurd (fringed.outward s a p hd hp) (merges.not_red_of_replaced fringed front hs)
  · rw [(colour q a p ha).2] at hp
    have ne : p ≠ m.pair.red := fun h => hp (h ▸ red)
    obtain ⟨x, hx, rfl⟩ := merges.exists_source ha ne
    obtain ⟨x', hx', rfl⟩ := merges.exists_source ha' ne
    obtain ⟨rfl, rfl⟩ := fringed.parent x a x' a' p hp hx hx'
    exact ⟨rfl, rfl⟩

end Merges

end BlueFringe.Graph
