import BlueFringe.Proofs.Evidence

/-!
# Hypotheses that keep to the evidence

The invariant of a search that is shown a characteristic sample: every state stands for a state of
the reference, and different red states stand for different ones. The cover need not lead to a red
state, as another state that stands for the same one may have been met first. Such a state is only
provisional. It has a twin on the frontier that is to be merged into it, and nothing behind it is
decided before that has happened.
-/

namespace BlueFringe.Graph

open Std

variable {α : Type} [Ord α] [TransOrd α]

section

variable (ref : Graph α) (cover seen : Set (Word α)) (meaning : StateId → Option StateId)
  (g : Graph α)

/-- The state stands for what a word of the cover leads to, but the word leads elsewhere. -/
def Provisional (v : Word α) (q : StateId) : Prop :=
  v ∈ cover ∧ ref.landing v = meaning q ∧ g.run v ≠ some q

/-- What holds of all states: they stand for states of the reference, and each of them was seen. -/
structure Grounded : Prop where
  labelled : ref.Labelled g meaning
  kept : ∀ w ∈ seen, ∃ q, g.run w = some q
  grounded : ∀ q ∈ g, ∃ w ∈ seen, g.run w = some q
  measured : g.Measured

/-- What holds of the red states in addition: they stand for different states, words of the kernel
lead to those that accept, and provisional ones wait for their twin. -/
structure Guided : Prop extends Grounded ref seen meaning g where
  distinct : ∀ q r, g.colour? q = some .red → g.colour? r = some .red → meaning q = meaning r →
    q = r
  stemmed : ∀ q s, g.colour? q = some .red → meaning q = some s →
    ∃ w ∈ kernel cover, g.run w = some q
  entered : ∀ v q, g.colour? q = some .red → Provisional ref cover meaning g v q →
    ∃ u a r, v = u ++ [a] ∧ g.run u = some r ∧ g.colour? r = some .red
  enclosed : ∀ v q a p, g.colour? q = some .red → Provisional ref cover meaning g v q →
    g.transition q a = some p → g.colour? p ≠ some .red

end

variable {ref g g' merged : Graph α} {cover seen : Set (Word α)}
  {meaning : StateId → Option StateId} {p q r b : StateId} {a : α} {u v w x : Word α}

/-! ### Provisional states -/

theorem Guided.exists_run_of_cover (guided : Guided ref cover seen meaning g)
    (char : ref.Characteristic cover seen) (mem : v ∈ cover) : ∃ q, g.run v = some q := by
  induction v using List.reverseRecOn with
  | nil => exact ⟨g.initial, rfl⟩
  | append_singleton u a _ =>
      exact guided.kept _ (char.extended u (char.closed u [a] mem) a (char.accepted _ mem))

theorem Guided.exists_twin [LawfulEqOrd α] (guided : Guided ref cover seen meaning g)
    (char : ref.Characteristic cover seen) (red : g.colour? q = some .red)
    (waits : Provisional ref cover meaning g v q) :
    ∃ b, g.run v = some b ∧ b ∈ g.frontier ∧ meaning b = meaning q := by
  obtain ⟨u, a, r, rfl, run, source⟩ := guided.entered v q red waits
  obtain ⟨b, hb⟩ := guided.exists_run_of_cover char waits.1
  have same : meaning b = meaning q := (guided.labelled.eq_landing hb).trans waits.2.1
  refine ⟨b, hb, mem_frontier.mpr ⟨⟨r, a, source, ?_⟩, fun confirmed => ?_⟩, same⟩
  · rwa [run_concat run] at hb
  · -- A red twin would be the provisional state itself.
    rw [guided.distinct b q confirmed red same] at hb
    exact waits.2.2 hb

/-- If no transition from a state leads to a red one, every word to a state behind it passes it. -/
theorem Fringed.exists_eq_append (fringed : g.Fringed)
    (inside : ∀ a p, g.transition q a = some p → g.colour? p ≠ some .red)
    (way : g.runFrom q x = some p) (run : g.run w = some p) :
    ∃ y, w = y ++ x ∧ g.run y = some q := by
  have behind : ∀ a t p, g.runFrom q (a :: t) = some p → g.colour? p ≠ some .red := by
    intro a t p way
    obtain ⟨r, step, rest⟩ := Option.bind_eq_some_iff.mp way
    exact fringed.not_red_of_reaches (inside a r step) ⟨t, rest⟩
  induction x using List.reverseRecOn generalizing w p with
  | nil =>
      obtain rfl := Option.some.inj way
      exact ⟨w, (List.append_nil w).symm, run⟩
  | append_singleton x a ih =>
      have white : g.colour? p ≠ some .red := by
        cases x with
        | nil => exact behind a [] p way
        | cons c x => exact behind c (x ++ [a]) p way
      obtain ⟨r, first, last⟩ := runFrom_concat_eq_some.mp way
      -- The words end with the same transition, as a state that is not red has just one.
      cases w using List.reverseRecOn with
      | nil =>
          obtain rfl := Option.some.inj run
          exact absurd fringed.rooted white
      | append_singleton w c =>
          obtain ⟨r', first', last'⟩ := runFrom_concat_eq_some.mp run
          obtain ⟨rfl, rfl⟩ := fringed.parent r a r' c p white last last'
          obtain ⟨y, rfl, hy⟩ := ih first first'
          exact ⟨y, List.append_assoc y x [a], hy⟩

/-! ### Behind a provisional state and behind its twin -/

section Twins

variable (guided : Guided ref cover seen meaning g) (char : ref.Characteristic cover seen)
  (fringed : g.Fringed) (red : g.colour? q = some .red)
  (waits : Provisional ref cover meaning g v q) (twin : g.run v = some b)
  (white : g.colour? b ≠ some .red)

include guided fringed red waits in
theorem Guided.exists_eq_append (way : g.runFrom q x = some p) (run : g.run w = some p) :
    ∃ y, w = y ++ x ∧ g.run y = some q :=
  fringed.exists_eq_append (fun a p => guided.enclosed v q a p red waits) way run

include guided char fringed red waits twin white

theorem Guided.not_reaches (reached : g.Reaches q p) : ¬ g.Reaches b p := by
  rintro ⟨z, way'⟩
  obtain ⟨x, way⟩ := reached
  have run : g.run (v ++ z) = some p := by
    rwa [Graph.run, runFrom_append, ← Graph.run, twin]
  obtain ⟨y, split, hy⟩ := guided.exists_eq_append fringed red waits way run
  obtain ⟨mem, lands, elsewhere⟩ := waits
  rcases List.append_eq_append_iff.mp split with ⟨t, rfl, -⟩ | ⟨t, rfl, -⟩
  · -- The word to the twin comes first, so the twin reaches the provisional state, which is red.
    obtain ⟨b', hb', rest⟩ := exists_runFrom_of_append hy
    obtain rfl : b = b' := Option.some.inj (twin.symm.trans hb')
    exact fringed.not_red_of_reaches white ⟨t, rest⟩ red
  · -- The word to the provisional state comes first, so it belongs to the cover.
    have same := (guided.labelled.eq_landing hy).symm.trans lands.symm
    rw [← char.single y (char.closed y t mem) (y ++ t) mem same] at elsewhere
    exact elsewhere hy

omit white in
theorem Guided.rank_lt (child : g.transition q a = some p) : g.rank b < g.rank p := by
  obtain ⟨w, -, way⟩ := guided.grounded p (fringed.closed q a p child)
  obtain ⟨w, way, depth, -⟩ := guided.measured w p way
  have step : g.runFrom q [a] = some p := by rw [runFrom_cons, child, Option.bind_some, runFrom_nil]
  obtain ⟨y, rfl, hy⟩ := guided.exists_eq_append fringed red waits step way
  -- The word to the twin belongs to the cover, so no word to the provisional state is shorter.
  have le := char.shortest v waits.1 y (waits.2.1.trans (guided.labelled.eq_landing hy))
  obtain ⟨z, -, depth', le'⟩ := guided.measured v b twin
  rw [rank, rank, Prod.Lex.toLex_lt_toLex, depth, depth']
  simp only [Option.getD_some, List.length_append, List.length_singleton]
  omega

variable [LawfulEqOrd α] {m m' : Identification} (folds' : g.Folds m') (pair : m'.pair = ⟨b, q⟩)
include folds' pair

/-- Whatever was seen behind the provisional state was also seen behind its twin, and takes its
place if the two are merged. -/
theorem Guided.exists_replaced (reached : g.Reaches q p) : ∃ s ∈ m'.replaced, m'.image s = p := by
  have beside := guided.not_reaches char fringed red waits twin white reached
  obtain ⟨x, way⟩ := reached
  have mem := fringed.closed.mem_of_reaches (mem_of_colour red) ⟨x, way⟩
  obtain ⟨w, met, run⟩ := guided.grounded p mem
  obtain ⟨y, rfl, hy⟩ := guided.exists_eq_append fringed red waits way run
  have same := waits.2.1.trans (guided.labelled.eq_landing hy)
  obtain ⟨s, hs⟩ := guided.kept _ (char.shifted v waits.1 y x same met)
  rw [Graph.run, runFrom_append, ← Graph.run, twin, Option.bind_some] at hs
  have kept : p ∉ m'.replaced := by
    intro h
    have below := folds'.reaches_of_replaced h
    rw [pair] at below
    exact beside below
  have image : m'.image s = p := by
    have forced : g.Forced b q s p := Forced.pair.runFrom hs way
    rw [← Identification.image_of_notMem kept]
    apply folds'.forced_iff.mp
    rwa [pair]
  refine ⟨s, ?_, image⟩
  by_contra fixed
  rw [Identification.image_of_notMem fixed] at image
  exact beside ⟨x, image ▸ hs⟩

/-- More states speak for the merge of the twin than for any merge of a state below the provisional
one. -/
theorem Guided.size_lt (folds : g.Folds m) (child : g.transition q a = some m.pair.blue) :
    m.size < m'.size := by
  have covered : insert q m.replaced.toFinset ⊆ m'.replaced.toFinset.image m'.image := by
    intro p hp
    have reached : g.Reaches q p := by
      rcases Finset.mem_insert.mp hp with rfl | hp
      · exact .refl g p
      · have below := folds.reaches_of_replaced (List.mem_toFinset.mp hp)
        exact ((Reaches.refl g q).tail child).trans below
    obtain ⟨s, hs, rfl⟩ := guided.exists_replaced char fringed red waits twin white folds' pair
      reached
    exact Finset.mem_image_of_mem _ (List.mem_toFinset.mpr hs)
  have outside : q ∉ m.replaced.toFinset := by
    intro h
    have below := folds.reaches_of_replaced (List.mem_toFinset.mp h)
    exact fringed.not_red_of_reaches (guided.enclosed v q a _ red waits child) below red
  calc m.size < (insert q m.replaced.toFinset).card := by
        rw [Finset.card_insert_of_notMem outside, ← folds.moved_eq, folds.card_moved]
        exact Nat.lt_succ_self _
    _ ≤ (m'.replaced.toFinset.image m'.image).card := Finset.card_le_card covered
    _ ≤ m'.replaced.toFinset.card := Finset.card_image_le
    _ = m'.size := by rw [← folds'.moved_eq, folds'.card_moved]

end Twins

/-! ### Other states -/

theorem Guided.exists_cover (guided : Guided ref cover seen meaning g)
    (char : ref.Characteristic cover seen) (settled : ∀ v, ¬ Provisional ref cover meaning g v q)
    (mem : q ∈ g) {s : StateId} (here : meaning q = some s) : ∃ v ∈ cover, g.run v = some q := by
  obtain ⟨w, -, run⟩ := guided.grounded q mem
  obtain ⟨v, cov, lands⟩ := char.reaches w s ((guided.labelled.eq_landing run).symm.trans here)
  refine ⟨v, cov, ?_⟩
  by_contra elsewhere
  exact settled v ⟨cov, lands.trans here.symm, elsewhere⟩

theorem Guided.exists_kernel (guided : Guided ref cover seen meaning g)
    (char : ref.Characteristic cover seen) (settled : ∀ v, ¬ Provisional ref cover meaning g v q)
    (child : g.transition q a = some b) : ∃ w ∈ kernel cover, g.run w = some b := by
  obtain ⟨s, here, -⟩ := guided.labelled.step q a b child
  obtain ⟨v, cov, run⟩ := guided.exists_cover char settled (mem_of_transition child) here
  exact ⟨v ++ [a], .inr ⟨v, cov, a, rfl⟩, (run_concat run).trans child⟩

theorem Guided.clashes (guided : Guided ref cover seen meaning g)
    (char : ref.Characteristic cover seen) (fringed : g.Fringed)
    (settled : ∀ v, ¬ Provisional ref cover meaning g v q) (child : g.transition q a = some b)
    (red : g.colour? r = some .red) (ne : meaning b ≠ meaning r) : g.Clashes ⟨b, r⟩ := by
  have labelled := guided.labelled
  by_cases flags : (meaning b).isSome = (meaning r).isSome
  · cases hr : meaning r with
    | none =>
        rw [hr, Option.isSome_none, Option.isSome_eq_false_iff, Option.isNone_iff_eq_none] at flags
        exact absurd (flags.trans hr.symm) ne
    | some t =>
        rw [hr, Option.isSome_some, Option.isSome_iff_exists] at flags
        obtain ⟨s, hb⟩ := flags
        obtain ⟨w, ker, first⟩ := guided.exists_kernel char settled child
        obtain ⟨z, ker', second⟩ := guided.stemmed r t red hr
        -- Words of the kernel lead to both states, so something that was seen tells them apart.
        obtain ⟨u, left, right, differ⟩ := char.apart w ker z ker' s t
          ((labelled.eq_landing first).symm.trans hb) ((labelled.eq_landing second).symm.trans hr)
          (fun same => ne (by rw [hb, hr, same]))
        obtain ⟨p, hp⟩ := guided.kept _ left
        obtain ⟨p', hp'⟩ := guided.kept _ right
        exact labelled.clashes_of_accepts_ne fringed.closed fringed.initial_mem first second hp hp'
          differ
  · exact labelled.clashes_of_isSome_ne .pair (fringed.closed q a b child) (mem_of_colour red) flags

theorem Fringed.exists_frontier (fringed : g.Fringed) (run : g.run w = some q)
    (white : g.colour? q ≠ some .red) : ∃ v p, v <+: w ∧ g.run v = some p ∧ g.OnFrontier p := by
  induction w using List.reverseRecOn generalizing q with
  | nil =>
      obtain rfl := Option.some.inj run
      exact absurd fringed.rooted white
  | append_singleton w a ih =>
      obtain ⟨r, first, last⟩ := runFrom_concat_eq_some.mp run
      by_cases source : g.colour? r = some .red
      · exact ⟨w ++ [a], q, List.prefix_rfl, run, ⟨r, a, source, last⟩, white⟩
      · obtain ⟨v, p, early, here, front⟩ := ih first source
        exact ⟨v, p, early.trans (List.prefix_append w [a]), here, front⟩

/-- If nothing is provisional, the cover leads to the foremost state over red states only: a state
of the frontier on the way would be nearer. -/
theorem Guided.red_of_foremost (guided : Guided ref cover seen meaning g)
    (char : ref.Characteristic cover seen) (fringed : g.Fringed)
    (front : g.Foremost g.OnFrontier b) (mem : u ++ [a] ∈ cover)
    (lands : ref.landing (u ++ [a]) = meaning b) (run : g.run u = some r) :
    g.colour? r = some .red := by
  by_contra white
  obtain ⟨v, p, early, here, before⟩ := fringed.exists_frontier run white
  have shorter : v.length < (u ++ [a]).length := by
    have le := early.length_le
    rw [List.length_append, List.length_singleton]
    exact Nat.lt_succ_of_le le
  by_cases same : p = b
  · obtain ⟨t, rfl⟩ := early
    have agree := lands.trans (same ▸ guided.labelled.eq_landing here)
    have cov : v ∈ cover := char.closed v (t ++ [a]) (by rwa [← List.append_assoc])
    rw [char.single _ mem v cov agree] at shorter
    exact Nat.lt_irrefl _ shorter
  · have nearer := front.2 p before same
    obtain ⟨⟨o, c, -, step⟩, -⟩ := front.1
    obtain ⟨w, -, way⟩ := guided.grounded b (fringed.closed o c b step)
    obtain ⟨w, way, depth, -⟩ := guided.measured w b way
    obtain ⟨z, -, depth', le⟩ := guided.measured v p here
    have long := char.shortest _ mem w (lands.trans (guided.labelled.eq_landing way))
    rw [rank, rank, Prod.Lex.toLex_lt_toLex, depth, depth'] at nearer
    simp only [Option.getD_some] at nearer
    omega

/-! ### Steps of the search -/

section Views

variable (initial : g'.initial = g.initial)
  (transition : ∀ q a, g'.transition q a = g.transition q a)
include initial transition

theorem Provisional.of_views (waits : Provisional ref cover meaning g' v q) :
    Provisional ref cover meaning g v q := by
  obtain ⟨mem, lands, elsewhere⟩ := waits
  rw [run_eq_of_transition initial transition] at elsewhere
  exact ⟨mem, lands, elsewhere⟩

variable (accepting : ∀ q, g'.accepting? q = g.accepting? q)
  (depth : ∀ q, g'.depth? q = g.depth? q)
include accepting depth

theorem Grounded.of_views (grounded : Grounded ref seen meaning g) :
    Grounded ref seen meaning g' := by
  have same := run_eq_of_transition initial transition
  refine ⟨grounded.labelled.of_views initial transition accepting, fun w hw => ?_, fun q hq => ?_,
    grounded.measured.of_views initial transition depth⟩
  · rw [same]
    exact grounded.kept w hw
  · have here : q ∈ g := by rwa [← accepting?_isSome, ← accepting, accepting?_isSome]
    obtain ⟨w, met, run⟩ := grounded.grounded q here
    exact ⟨w, met, (same w).trans run⟩

theorem Guided.repaint (guided : Guided ref cover seen meaning g)
    (red : ∀ q, g'.colour? q = some .red ↔ g.colour? q = some .red) :
    Guided ref cover seen meaning g' := by
  have same := run_eq_of_transition initial transition
  refine ⟨guided.toGrounded.of_views initial transition accepting depth, ?_, ?_, ?_, ?_⟩
  · intro q r hq hr agree
    exact guided.distinct q r ((red q).mp hq) ((red r).mp hr) agree
  · intro q s hq here
    obtain ⟨w, ker, run⟩ := guided.stemmed q s ((red q).mp hq) here
    exact ⟨w, ker, (same w).trans run⟩
  · intro v q hq waits
    obtain ⟨u, a, r, split, run, source⟩ :=
      guided.entered v q ((red q).mp hq) (waits.of_views initial transition)
    exact ⟨u, a, r, split, (same u).trans run, (red r).mpr source⟩
  · intro v q a p hq waits child
    rw [transition] at child
    rw [Ne, red]
    exact guided.enclosed v q a p ((red q).mp hq) (waits.of_views initial transition) child

theorem Grounded.begin (grounded : Grounded ref seen meaning g)
    (char : ref.Characteristic cover seen)
    (red : ∀ q, g'.colour? q = some .red ↔ q = g'.initial) : Guided ref cover seen meaning g' := by
  have grounded' := grounded.of_views initial transition accepting depth
  have settled : ∀ v q, g'.colour? q = some .red → ¬ Provisional ref cover meaning g' v q := by
    rintro v q hq ⟨mem, lands, elsewhere⟩
    rw [(red q).mp hq, grounded'.labelled.initial] at lands
    rw [(red q).mp hq, char.single v mem [] (char.closed [] v mem) lands] at elsewhere
    exact elsewhere rfl
  refine ⟨grounded', ?_, ?_, ?_, ?_⟩
  · intro q r hq hr _
    exact ((red q).mp hq).trans ((red r).mp hr).symm
  · intro q s hq here
    obtain rfl := (red q).mp hq
    rw [grounded'.labelled.initial] at here
    obtain ⟨v, mem, -⟩ := char.reaches [] s here
    exact ⟨[], .inl (char.closed [] v mem), rfl⟩
  · exact fun v q hq waits => absurd waits (settled v q hq)
  · exact fun v q a p hq waits => absurd waits (settled v q hq)

/-- The foremost state may turn red if it stands for something new and nothing is provisional. -/
theorem Guided.promote (guided : Guided ref cover seen meaning g)
    (char : ref.Characteristic cover seen) (fringed : g.Fringed)
    (settled : ∀ v q, g.colour? q = some .red → ¬ Provisional ref cover meaning g v q)
    (front : g.Foremost g.OnFrontier b)
    (new : ∀ r, g.colour? r = some .red → meaning b ≠ meaning r)
    (red : ∀ q, g'.colour? q = some .red ↔ q = b ∨ g.colour? q = some .red) :
    Guided ref cover seen meaning g' := by
  have same := run_eq_of_transition initial transition
  obtain ⟨⟨r, a, source, child⟩, white⟩ := front.1
  refine ⟨guided.toGrounded.of_views initial transition accepting depth, ?_, ?_, ?_, ?_⟩
  · intro q q' hq hq' agree
    rcases (red q).mp hq with rfl | hq <;> rcases (red q').mp hq' with rfl | hq'
    · rfl
    · exact absurd agree (new q' hq')
    · exact absurd agree.symm (new q hq)
    · exact guided.distinct q q' hq hq' agree
  · intro q s hq here
    have stem : ∃ w ∈ kernel cover, g.run w = some q := by
      rcases (red q).mp hq with rfl | hq
      · exact guided.exists_kernel char (fun v => settled v r source) child
      · exact guided.stemmed q s hq here
    obtain ⟨w, ker, run⟩ := stem
    exact ⟨w, ker, (same w).trans run⟩
  · intro v q hq waits
    have waits' := waits.of_views initial transition
    rcases (red q).mp hq with rfl | hq
    · obtain ⟨mem, lands, -⟩ := waits'
      obtain ⟨p, run⟩ := guided.exists_run_of_cover char mem
      cases v using List.reverseRecOn with
      | nil =>
          have agree := guided.labelled.eq_landing run
          obtain rfl := Option.some.inj run
          exact absurd (agree.trans lands).symm (new _ fringed.rooted)
      | append_singleton u c =>
          obtain ⟨o, first, -⟩ := runFrom_concat_eq_some.mp run
          have confirmed := guided.red_of_foremost char fringed front mem lands first
          exact ⟨u, c, o, rfl, (same u).trans first, (red o).mpr (.inr confirmed)⟩
    · exact absurd waits' (settled v q hq)
  · intro v q c p hq waits step confirmed
    rw [transition] at step
    rcases (red q).mp hq with rfl | hq
    · rcases (red p).mp confirmed with rfl | hp
      · obtain ⟨rfl, -⟩ := fringed.parent r a p c p white child step
        exact white source
      · exact white (fringed.outward q c p step hp)
    · exact settled v q hq (waits.of_views initial transition)

end Views

/-- A merge keeps the invariant if both states stand for the same and the blue one is no target of a
provisional state. -/
theorem Guided.merge [LawfulEqOrd α] {m : Identification}
    (guided : Guided ref cover seen meaning g) (merges : g.Merges m merged) (fringed : g.Fringed)
    (front : m.pair.blue ∈ g.frontier) (same : meaning m.pair.blue = meaning m.pair.red)
    (free : ∀ v q a, g.colour? q = some .red → Provisional ref cover meaning g v q →
      g.transition q a ≠ some m.pair.blue)
    (measured : merged.Measured) : Guided ref cover seen meaning merged := by
  have initial : g.initial ∈ merged := merges.mem_of_red fringed front fringed.rooted
  have red : ∀ q, merged.colour? q = some .red → g.colour? q = some .red := by
    intro q hq
    rwa [merges.colour q (mem_of_colour hq)] at hq
  have stays : ∀ {w q}, g.colour? q = some .red → g.run w = some q → merged.run w = some q := by
    intro w q hq run
    rw [merges.run_image initial run, merges.image_of_red fringed front hq]
  have waited : ∀ {v q}, merged.colour? q = some .red →
      Provisional ref cover meaning merged v q → Provisional ref cover meaning g v q := by
    rintro v q hq ⟨mem, lands, elsewhere⟩
    exact ⟨mem, lands, fun run => elsewhere (stays (red q hq) run)⟩
  refine ⟨⟨guided.labelled.merge merges same, fun w hw => ?_, fun q hq => ?_, measured⟩,
    ?_, ?_, ?_, ?_⟩
  · obtain ⟨q, run⟩ := guided.kept w hw
    exact ⟨m.image q, merges.run_image initial run⟩
  · obtain ⟨here, fixed⟩ := merges.mem_iff.mp hq
    obtain ⟨w, met, run⟩ := guided.grounded q here
    refine ⟨w, met, ?_⟩
    rw [merges.run_image initial run, fixed]
  · exact fun q r hq hr => guided.distinct q r (red q hq) (red r hr)
  · intro q s hq here
    obtain ⟨w, ker, run⟩ := guided.stemmed q s (red q hq) here
    exact ⟨w, ker, stays (red q hq) run⟩
  · intro v q hq waits
    obtain ⟨u, a, r, split, run, source⟩ := guided.entered v q (red q hq) (waited hq waits)
    exact ⟨u, a, r, split, stays source run, (merges.advances fringed front).red r source⟩
  · intro v q a p hq waits child confirmed
    -- A new transition was moved to the state from one that is replaced, and leads to one that is
    -- not red either.
    rcases merges.transition_cases child with old | ⟨old, -⟩ | ⟨s, replaced, -, step, -⟩
    · exact guided.enclosed v q a p (red q hq) (waited hq waits) old (red p confirmed)
    · exact free v q a (red q hq) (waited hq waits) old
    · have white := merges.not_red_of_replaced fringed front replaced
      exact fringed.not_red_of_reaches white ((Reaches.refl g s).tail step) (red p confirmed)

/-! ### The end of the search -/

section Red

variable (guided : Guided ref cover seen meaning g) (char : ref.Characteristic cover seen)
  (closed : g.Closed) (initial : g.initial ∈ g) (red : ∀ q ∈ g, g.colour? q = some .red)
include guided char closed initial red

theorem Guided.not_provisional (mem : q ∈ g) : ¬ Provisional ref cover meaning g v q := by
  rintro ⟨cov, lands, elsewhere⟩
  obtain ⟨p, run⟩ := guided.exists_run_of_cover char cov
  have here := closed.mem_of_reaches initial ⟨v, run⟩
  have agree := (guided.labelled.eq_landing run).trans lands
  rw [guided.distinct p q (red p here) (red q mem) agree] at run
  exact elsewhere run

theorem Guided.exists_run (accepted : ref.accepts w = true) : ∃ q, g.run w = some q := by
  induction w using List.reverseRecOn with
  | nil => exact ⟨g.initial, rfl⟩
  | append_singleton w a ih =>
      have before := acceptsFrom_of_append accepted
      obtain ⟨q, here⟩ := ih before
      rw [← accepts, ← isSome_landing, ← guided.labelled.eq_landing here,
        Option.isSome_iff_exists] at before
      obtain ⟨s, stands⟩ := before
      have mem := closed.mem_of_reaches initial ⟨w, here⟩
      obtain ⟨v, cov, way⟩ := guided.exists_cover char
        (fun v => guided.not_provisional char closed initial red mem) mem stands
      have agree := (guided.labelled.eq_landing way).symm.trans (guided.labelled.eq_landing here)
      have further : ref.accepts (v ++ [a]) = true := by
        rw [← isSome_landing, landing_append_congr agree, isSome_landing]
        exact accepted
      -- The words of the cover were followed by all labels.
      obtain ⟨p, next⟩ := guided.kept _ (char.extended v cov a further)
      refine ⟨p, ?_⟩
      rwa [run_concat way, ← run_concat here] at next

/-- So the hypothesis accepts what the reference accepts. -/
theorem Guided.accepts_eq (w : Word α) : g.accepts w = ref.accepts w := by
  have flag : ∀ {w q}, g.run w = some q → g.accepting? q = some (ref.accepts w) := by
    intro w q run
    have mem := closed.mem_of_reaches initial ⟨w, run⟩
    rw [guided.labelled.accepting q mem, guided.labelled.eq_landing run, isSome_landing]
  rw [Bool.eq_iff_iff]
  constructor
  · intro accepted
    obtain ⟨q, here, accept⟩ := acceptsFrom_iff.mp accepted w [] (List.append_nil w)
    exact Option.some.inj ((flag here).symm.trans accept)
  · intro accepted
    refine acceptsFrom_iff.mpr fun v u split => ?_
    have before : ref.accepts v = true := by
      rw [← split] at accepted
      exact acceptsFrom_of_append accepted
    obtain ⟨q, here⟩ := guided.exists_run char closed initial red before
    exact ⟨q, here, (flag here).trans (by rw [before])⟩

end Red

end BlueFringe.Graph
