import BlueFringe.Proofs.Languages
import BlueFringe.Proofs.NearestFirst
import BlueFringe.Proofs.Traversals

/-!
# The least word on which two states differ

The search for a difference follows words from two states at once and treats a side that rejects
like one that has ended. So what it meets on a word are the live runs of this word, and it goes on
just as long as both accept. A word that only one state accepts has a prefix at which the search
stops, and of all these prefixes the least one comes first.
-/

namespace BlueFringe

open Std

variable {α : Type} [Ord α] [TransOrd α]

namespace Graph

/-- Just one of two states accepts the word. -/
def Separates (g : Graph α) (p : StateId) (h : Graph α) (q : StateId) (w : Word α) : Prop :=
  Xor (w ∈ g.language p) (w ∈ h.language q)

variable {g h k : Graph α} {p q r : StateId} {a : α} {v w : Word α}

theorem separates_iff : g.Separates p h q w ↔ g.acceptsFrom p w ≠ h.acceptsFrom q w := by
  rw [Separates, xor_iff_not_iff, mem_language, mem_language]
  exact not_congr Bool.eq_iff_iff.symm

theorem separates_comm : g.Separates p h q w ↔ h.Separates q g p w := by
  rw [separates_iff, separates_iff, ne_comm]

theorem language_eq_iff : g.language p = h.language q ↔ ∀ w, ¬ g.Separates p h q w := by
  rw [Set.ext_iff]
  refine forall_congr' fun w => ?_
  rw [Separates, xor_iff_not_iff, not_not]

/-! ### What the search meets -/

/-- Where a word leads on both sides, as far as each accepts it. -/
def joint (g : Graph α) (p : StateId) (h : Graph α) (q : StateId) (w : Word α) : Joint :=
  ⟨g.liveRun p w, h.liveRun q w⟩

theorem joint_nil : joint g p h q [] = ⟨g.live (some p), h.live (some q)⟩ := by
  rw [joint, liveRun_nil, liveRun_nil]

theorem isApart_joint : (joint g p h q w).isApart = true ↔ g.Separates p h q w := by
  rw [separates_iff, joint, Joint.isApart, liveRun_isSome, liveRun_isSome, bne_iff_ne]

theorem ascending_jointSteps (g h : Graph α) : Search.Ascending (jointSteps g h) := by
  intro s
  rw [jointSteps]
  split
  · rw [List.pairwise_map]
    exact distinctBy_pairwise compare _
  · exact List.Pairwise.nil

theorem joint_of_spells {s : Joint}
    (spells : Search.Spells (jointSteps g h) (joint g p h q []) w s) : s = joint g p h q w := by
  induction spells with
  | nil => rfl
  | @concat w s t a _ step ih =>
      rw [ih, jointSteps, joint] at step
      split at step
      · rename_i p' q' left right
        dsimp only at left right
        obtain ⟨b, _, same⟩ := List.mem_map.mp step
        obtain ⟨rfl, rfl⟩ := Prod.mk.inj same
        rw [joint, liveRun_concat, liveRun_concat, left, right]
        rfl
      · cases step

/-! ### The bound of the search -/

/-- All that two words can lead to. -/
def joints (g h : Graph α) : Finset Joint :=
  ((none :: g.stateIds.map some).toFinset ×ˢ (none :: h.stateIds.map some).toFinset).image
    fun pair => ⟨pair.1, pair.2⟩

omit [TransOrd α] in
theorem live_mem (g : Graph α) (s : Option StateId) :
    g.live s ∈ (none :: g.stateIds.map some).toFinset := by
  rw [List.mem_toFinset]
  cases live : g.live s with
  | none => exact List.mem_cons_self
  | some q =>
      obtain ⟨_, accepting⟩ := live_eq_some.mp live
      have mem : q ∈ g := accepting?_isSome.mp (by rw [accepting]; rfl)
      exact List.mem_cons_of_mem _ (List.mem_map.mpr ⟨q, mem_stateIds.mpr mem, rfl⟩)

omit [TransOrd α] in
theorem mem_joints (s t : Option StateId) : (⟨g.live s, h.live t⟩ : Joint) ∈ joints g h :=
  Finset.mem_image.mpr ⟨(g.live s, h.live t),
    Finset.mem_product.mpr ⟨live_mem g s, live_mem h t⟩, rfl⟩

omit [TransOrd α] in
theorem card_joints_le (g h : Graph α) : (joints g h).card ≤ (g.size + 1) * (h.size + 1) := by
  have side : ∀ g : Graph α, (none :: g.stateIds.map some).toFinset.card ≤ g.size + 1 := by
    intro g
    have le := List.toFinset_card_le (none :: g.stateIds.map some)
    rwa [List.length_cons, List.length_map, length_stateIds] at le
  calc (joints g h).card
      ≤ ((none :: g.stateIds.map some).toFinset ×ˢ
          (none :: h.stateIds.map some).toFinset).card := Finset.card_image_le
    _ = (none :: g.stateIds.map some).toFinset.card *
          (none :: h.stateIds.map some).toFinset.card := Finset.card_product _ _
    _ ≤ (g.size + 1) * (h.size + 1) := Nat.mul_le_mul (side g) (side h)

theorem mem_joints_of_leads {s t : Joint} (leads : Search.Leads (jointSteps g h) s t) :
    t ∈ joints g h := by
  obtain ⟨a, step⟩ := leads
  rw [jointSteps] at step
  split at step
  · obtain ⟨b, _, same⟩ := List.mem_map.mp step
    obtain ⟨rfl, rfl⟩ := Prod.mk.inj same
    exact mem_joints _ _
  · cases step

theorem room_joints (p q : StateId) :
    ((joints g h).erase (joint g p h q [])).card < (g.size + 1) * (h.size + 1) := by
  have mem : joint g p h q [] ∈ joints g h := by
    rw [joint_nil]
    exact mem_joints (some p) (some q)
  exact (Finset.card_erase_lt_of_mem mem).trans_le (card_joints_le g h)

/-! ### Following a word -/

variable [LawfulEqOrd α]

theorem spells_concat
    (spells : Search.Spells (jointSteps g h) (joint g p h q []) w (joint g p h q w))
    (left : g.acceptsFrom p w = true) (right : h.acceptsFrom q w = true)
    (label : a ∈ g.alphabet ∨ a ∈ h.alphabet) :
    Search.Spells (jointSteps g h) (joint g p h q []) (w ++ [a]) (joint g p h q (w ++ [a])) := by
  rw [← liveRun_isSome, Option.isSome_iff_exists] at left right
  obtain ⟨p', hp⟩ := left
  obtain ⟨q', hq⟩ := right
  refine spells.concat ?_
  rw [joint, joint, liveRun_concat, liveRun_concat, hp, hq]
  refine List.mem_map.mpr ⟨a, ?_, rfl⟩
  rwa [mem_distinctBy, List.mem_append]

/-- The search follows a word as long as both states accept it. -/
theorem spells_of_common (left : g.acceptsFrom p w = true) (right : h.acceptsFrom q w = true) :
    Search.Spells (jointSteps g h) (joint g p h q []) w (joint g p h q w) := by
  induction w using List.reverseRecOn with
  | nil => exact .nil
  | append_singleton w a ih =>
      have left' := acceptsFrom_of_append left
      have right' := acceptsFrom_of_append right
      have label := mem_alphabet_of_acceptsFrom left (List.mem_append_right w List.mem_cons_self)
      exact spells_concat (ih left' right') left' right' (.inl label)

/-- A word that separates two states has a prefix that the search meets and that separates them. -/
theorem exists_prefix_spells (separates : g.Separates p h q w) :
    ∃ v, v <+: w ∧ g.Separates p h q v ∧
      Search.Spells (jointSteps g h) (joint g p h q []) v (joint g p h q v) := by
  induction w using List.reverseRecOn with
  | nil => exact ⟨[], List.prefix_rfl, separates, .nil⟩
  | append_singleton w a ih =>
      by_cases earlier : g.Separates p h q w
      · obtain ⟨v, first, here, spells⟩ := ih earlier
        exact ⟨v, first.trans (List.prefix_append w [a]), here, spells⟩
      · refine ⟨w ++ [a], List.prefix_rfl, separates, ?_⟩
        rw [separates_iff, not_not] at earlier
        -- Whichever side accepts the whole word accepts what comes before its last label, and so
        -- does the other side.
        have either : g.acceptsFrom p (w ++ [a]) = true ∨ h.acceptsFrom q (w ++ [a]) = true := by
          rw [separates_iff] at separates
          by_contra neither
          simp_all
        have last : a ∈ w ++ [a] := List.mem_append_right w List.mem_cons_self
        rcases either with left | right
        · have left' := acceptsFrom_of_append left
          have right' := earlier ▸ left'
          exact spells_concat (spells_of_common left' right') left' right'
            (.inl (mem_alphabet_of_acceptsFrom left last))
        · have right' := acceptsFrom_of_append right
          have left' := earlier.symm ▸ right'
          exact spells_concat (spells_of_common left' right') left' right'
            (.inr (mem_alphabet_of_acceptsFrom right last))

/-! ### The outcome of the search -/

omit [LawfulEqOrd α] in
theorem separate_eq : g.separate p h q = ((Search.breadthFirst (jointSteps g h)
    ((g.size + 1) * (h.size + 1)) (joint g p h q [])).find? fun entry => entry.2.isApart).map
      (·.1) := by
  rw [joint_nil]
  rfl

/-- A word that separates comes no earlier than one that the search comes across. -/
theorem exists_apart (separates : g.Separates p h q v) :
    ∃ w s, (w, s) ∈ Search.breadthFirst (jointSteps g h) ((g.size + 1) * (h.size + 1))
      (joint g p h q []) ∧ s.isApart = true ∧ (Word.shortlex w v).isLE := by
  obtain ⟨u, first, apart, spells⟩ := exists_prefix_spells separates
  obtain ⟨w, met, le⟩ := Search.exists_mem_breadthFirst (fun _ _ => mem_joints_of_leads)
    (ascending_jointSteps g h) (room_joints p q) spells
  exact ⟨w, _, met, isApart_joint.mpr apart,
    TransCmp.isLE_trans le (Word.shortlex_isLE_of_prefix first)⟩

/-- The search finds a difference if there is one, and then the least one. -/
theorem separate_eq_some_iff : g.separate p h q = some w ↔ Word.Least (g.Separates p h q) w := by
  have sound : ∀ {w}, g.separate p h q = some w → Word.Least (g.Separates p h q) w := by
    intro w found
    rw [separate_eq] at found
    obtain ⟨⟨u, s⟩, first, same⟩ := Option.map_eq_some_iff.mp found
    obtain rfl : u = w := same
    have spells := Search.spells_of_mem_breadthFirst (List.mem_of_find?_eq_some first)
    have apart := List.find?_some first
    dsimp only at apart
    rw [joint_of_spells spells] at apart
    refine ⟨isApart_joint.mp apart, fun v separates => ?_⟩
    obtain ⟨u', t, met, apart, le⟩ := exists_apart separates
    by_cases same : (u', t) = (u, s)
    · rwa [← (Prod.mk.inj same).1]
    · have before := rel_of_find?_eq_some (Search.breadthFirst_pairwise (ascending_jointSteps g h))
        first _ met apart same
      exact TransCmp.isLE_trans (by rw [before]; rfl) le
  refine ⟨sound, fun least => ?_⟩
  cases found : g.separate p h q with
  | some v => rw [(sound found).unique least]
  | none =>
      obtain ⟨u, s, met, apart, _⟩ := exists_apart least.1
      rw [separate_eq, Option.map_eq_none_iff, List.find?_eq_none] at found
      exact absurd apart (found _ met)

theorem separate_eq_none_iff : g.separate p h q = none ↔ g.language p = h.language q := by
  rw [language_eq_iff]
  constructor
  · intro nothing w separates
    obtain ⟨u, s, met, apart, _⟩ := exists_apart separates
    rw [separate_eq, Option.map_eq_none_iff, List.find?_eq_none] at nothing
    exact nothing _ met apart
  · intro same
    rw [Option.eq_none_iff_forall_ne_some]
    exact fun w found => same w (separate_eq_some_iff.mp found).1

theorem separate_comm : g.separate p h q = h.separate q g p := by
  ext w
  rw [separate_eq_some_iff, separate_eq_some_iff]
  have same : g.Separates p h q = h.Separates q g p := funext fun _ => propext separates_comm
  rw [same]

theorem difference_eq_none_iff :
    g.difference h = none ↔ ∀ w, g.accepts w = h.accepts w := by
  rw [difference, separate_eq_none_iff, language_eq_iff]
  refine forall_congr' fun w => ?_
  rw [separates_iff, not_not]
  rfl

end Graph

variable [LawfulEqOrd α]

/-- Comparing two states finds the least word that just one of them accepts, and nothing if there is
none. So the comparison of graphs is an equivalence, it does not matter which of two comes first,
and a difference is a word that they classify differently. -/
theorem comparison_exact (g h k : Graph α) (p q : StateId) :
    (g.separate p h q = none ↔ g.language p = h.language q) ∧
      (∀ w, g.separate p h q = some w ↔
        Word.Least (fun v => Xor (v ∈ g.language p) (v ∈ h.language q)) w) ∧
      g.difference g = none ∧ g.difference h = h.difference g ∧
      (g.difference h = none → h.difference k = none → g.difference k = none) ∧
      ∀ w, g.difference h = some w → g.accepts w ≠ h.accepts w := by
  refine ⟨Graph.separate_eq_none_iff, fun w => Graph.separate_eq_some_iff, ?_,
    Graph.separate_comm, fun first second => ?_, fun w found => ?_⟩
  · exact Graph.difference_eq_none_iff.mpr fun w => rfl
  · rw [Graph.difference_eq_none_iff] at *
    exact fun w => (first w).trans (second w)
  · exact Graph.separates_iff.mp (Graph.separate_eq_some_iff.mp found).1

/-- Words in which no 1 follows a 1. The state that rejects has a transition all the same. -/
def spaced : Graph Nat :=
  let flags := ((Graph.single true).addState true).addState false
  ((((flags.setTarget ⟨0⟩ 0 ⟨0⟩).setTarget ⟨0⟩ 1 ⟨1⟩).setTarget ⟨1⟩ 0 ⟨0⟩).setTarget ⟨1⟩ 1
    ⟨2⟩).setTarget ⟨2⟩ 0 ⟨0⟩

/-- All words of the labels 0 and 1. -/
def unspaced : Graph Nat :=
  ((Graph.single true).setTarget ⟨0⟩ 0 ⟨0⟩).setTarget ⟨0⟩ 1 ⟨0⟩

theorem spaced_compared : spaced.difference unspaced = some [1, 1] ∧
    unspaced.difference spaced = some [1, 1] ∧ spaced.accepts [1, 1] ≠ unspaced.accepts [1, 1] ∧
    ∀ v, Xor (v ∈ spaced.language ⟨0⟩) (v ∈ unspaced.language ⟨0⟩) →
      (Word.shortlex [1, 1] v).isLE := by
  obtain ⟨_, least, _, comm, _, differ⟩ := comparison_exact spaced unspaced spaced ⟨0⟩ ⟨0⟩
  have found : spaced.difference unspaced = some [1, 1] := by decide +kernel
  exact ⟨found, comm ▸ found, differ _ found, ((least [1, 1]).mp found).2⟩

end BlueFringe
