import BlueFringe.Proofs.Offers

/-!
# The walk of a folding

A folding is a loop over entries with a loop over offers inside. `Walk` lists the steps that both
loops can make, along with the offers looked at so far; what holds along every walk is proved by
induction over it. Nothing here asks the states below the blue one to form a tree.
-/

namespace BlueFringe.Folding

open Std

variable {α : Type} [Ord α]

/-- The states that are identified with another one, in the order found. -/
def replaced (f : Folding α) : List StateId := f.entries.map (·.1)

section Views

variable {f : Folding α} {q r t : StateId} {a : α}

theorem identify_of_mem (h : q ∈ f.found) : f.identify q r = f := by
  rw [identify, if_pos h]

theorem entries_identify_of_notMem (h : q ∉ f.found) :
    (f.identify q r).entries = f.entries ++ [(q, r)] := by
  rw [identify, if_neg h]
  simp [entries]

theorem found_identify_of_notMem (h : q ∉ f.found) :
    (f.identify q r).found = f.found.insert q := by
  rw [identify, if_neg h]

@[simp] theorem clash_identify : (f.identify q r).clash = f.clash := by
  rw [identify]
  split <;> rfl

variable [TransOrd α]

@[simp] theorem inheritedTarget_identify :
    (f.identify q r).inheritedTarget t a = f.inheritedTarget t a := by
  rw [identify]
  split <;> rfl

theorem inheritedTarget_inherit [LawfulEqOrd α] {r' : StateId} {a' : α} :
    (f.inherit r a t).inheritedTarget r' a' =
      if r = r' ∧ compare a a' = .eq then some t else f.inheritedTarget r' a' := by
  simp only [inheritedTarget, inherit, ExtTreeMap.getElem?_alter, LawfulEqCmp.compare_eq_iff_eq]
  by_cases hr : r = r'
  · subst hr
    simp only [if_true, true_and, Option.bind_some, ExtTreeMap.getElem?_insert,
      LawfulEqCmp.compare_eq_iff_eq]
    by_cases ha : a = a'
    · simp [ha]
    · cases f.inherited[r]? <;> simp [ha]
  · simp [hr]

end Views

/-! ### Steps -/

variable [TransOrd α]

/-- What following an offer comes to. -/
theorem follow_cases {g : Graph α} {pair : StatePair} {below : ExtTreeSet StateId compare}
    {r p : StateId} {a : α} {f f' : Folding α} (h : follow g pair below r f (a, p) = .ok f') :
    (∃ t, (g.transition r a).or (f.inheritedTarget r a) = some t ∧
        f' = f.identify p (pair.redirect t)) ∨
      (g.transition r a = none ∧ f.inheritedTarget r a = none ∧ f' = f.inherit r a p) := by
  simp only [follow] at h
  split at h
  · cases h
  · split at h <;> cases h
    · rename_i t ht
      exact Or.inl ⟨t, ht, rfl⟩
    · rename_i hn
      exact Or.inr ⟨(Option.or_eq_none_iff.mp hn).1, (Option.or_eq_none_iff.mp hn).2, rfl⟩

/-- What following an offer identifies is the target of the offer with the state that its taker
moves to. -/
theorem mem_entries_follow {g : Graph α} {pair : StatePair} {below : ExtTreeSet StateId compare}
    {r p : StateId} {a : α} {f f' : Folding α} (h : follow g pair below r f (a, p) = .ok f')
    {e : StateId × StateId} (he : e ∈ f'.entries) : e ∈ f.entries ∨
      ∃ t, (g.transition r a).or (f.inheritedTarget r a) = some t ∧ e = (p, pair.redirect t) := by
  rcases follow_cases h with ⟨t, ht, rfl⟩ | ⟨_, _, rfl⟩
  · by_cases hf : p ∈ f.found
    · rw [identify_of_mem hf] at he
      exact Or.inl he
    · rw [entries_identify_of_notMem hf, List.mem_append, List.mem_singleton] at he
      exact he.imp_right fun new => ⟨t, ht, new⟩
  · exact Or.inl he

/-- The foldings that a walk passes through, each with the offers that were looked at. -/
inductive Walk (g : Graph α) (pair : StatePair) (below : ExtTreeSet StateId compare) :
    List (Offer α) → Folding α → Prop where
  | start : Walk g pair below [] (Folding.start pair)
  | take {f : Folding α} {q r : StateId} {rest : List (StateId × StateId)} :
      Walk g pair below (g.offers f.settled.toList) f → f.pending = (q, r) :: rest →
      g.accepting? q = g.accepting? r →
      Walk g pair below (g.offers f.settled.toList)
        { f with settled := f.settled.push (q, r), pending := rest }
  | follow {done : List (Offer α)} {f f' : Folding α} {o : Offer α} :
      Walk g pair below done f → done ++ [o] <+: g.offers f.settled.toList →
      Folding.follow g pair below o.taker f (o.label, o.target) = .ok f' →
      Walk g pair below (done ++ [o]) f'

variable {g : Graph α} {pair : StatePair} {below : ExtTreeSet StateId compare}
  {done : List (Offer α)} {f f' : Folding α}

theorem Walk.foldlM {q r : StateId} {edges : List (α × StateId)}
    (walk : Walk g pair below done f)
    (all : done ++ edges.map (fun edge => ⟨q, r, edge.1, edge.2⟩) = g.offers f.settled.toList)
    (h : edges.foldlM (Folding.follow g pair below r) f = .ok f') :
    f'.settled = f.settled ∧ Walk g pair below (g.offers f'.settled.toList) f' := by
  induction edges generalizing done f with
  | nil =>
      cases h
      rw [List.map_nil, List.append_nil] at all
      exact ⟨rfl, all ▸ walk⟩
  | cons edge rest ih =>
      rw [List.foldlM_cons] at h
      cases hf : Folding.follow g pair below r f edge with
      | error e => rw [hf] at h; cases h
      | ok f₁ =>
          rw [hf] at h
          have kept := (exists_entries_follow hf).1
          have joined : done ++ [(⟨q, r, edge.1, edge.2⟩ : Offer α)] ++
              rest.map (fun edge => ⟨q, r, edge.1, edge.2⟩) = g.offers f.settled.toList := by
            rw [← all, List.map_cons, List.append_assoc, List.singleton_append]
          have next := Walk.follow (o := ⟨q, r, edge.1, edge.2⟩) walk ⟨_, joined⟩ hf
          obtain ⟨hs, hw⟩ := ih next (by rw [kept]; exact joined) h
          exact ⟨hs.trans kept, hw⟩

theorem offers_push (g : Graph α) (f : Folding α) (q r : StateId) :
    g.offers f.settled.toList ++ (g.edges q).map (fun edge => ⟨q, r, edge.1, edge.2⟩) =
      g.offers (f.settled.push (q, r)).toList := by
  rw [Array.toList_push, Graph.offers_append]
  simp [Graph.offers, Graph.offersOf]

/-- A walk ends when nothing is pending, when two states clash, or when the bound is used up. -/
theorem Walk.settle {bound : Nat} (walk : Walk g pair below (g.offers f.settled.toList) f)
    (h : Folding.settle g pair below bound f = .ok f') :
    ∃ f₀, Walk g pair below (g.offers f₀.settled.toList) f₀ ∧
      ((f' = f₀ ∧ (f₀.pending = [] ∨ f₀.settled.size = f.settled.size + bound)) ∨
        ∃ q r rest, f₀.pending = (q, r) :: rest ∧ g.accepting? q ≠ g.accepting? r ∧
          f' = { f₀ with clash := some (q, r) }) := by
  induction bound generalizing f with
  | zero =>
      cases h
      exact ⟨f', walk, Or.inl ⟨rfl, Or.inr rfl⟩⟩
  | succ bound ih =>
      rw [Folding.settle] at h
      split at h
      · rename_i hp
        cases h
        exact ⟨f', walk, Or.inl ⟨rfl, Or.inl hp⟩⟩
      · rename_i q r rest hp
        split at h
        · rename_i hne
          cases h
          exact ⟨f, walk, Or.inr ⟨q, r, rest, hp, hne, rfl⟩⟩
        · rename_i heq
          have taken := Walk.take walk hp (not_not.mp heq)
          cases hf : (g.edges q).foldlM (Folding.follow g pair below r)
              { f with settled := f.settled.push (q, r), pending := rest } with
          | error e => rw [hf] at h; cases h
          | ok f₁ =>
              rw [hf] at h
              obtain ⟨hs, hw⟩ := taken.foldlM (offers_push g f q r) hf
              obtain ⟨f₀, hw₀, hend⟩ := ih hw h
              refine ⟨f₀, hw₀, hend.imp_left (And.imp_right (Or.imp_right fun hc => ?_))⟩
              have : f₁.settled.size = f.settled.size + 1 := by rw [hs]; simp
              omega

/-! ### What holds along a walk -/

/-- The entries start with the pair, name each replaced state once, and agree in acceptance once
their transitions were followed. -/
structure Booked (g : Graph α) (pair : StatePair) (f : Folding α) : Prop where
  first : f.entries.head? = some (pair.blue, pair.red)
  found : ∀ q, q ∈ f.found ↔ q ∈ f.replaced
  distinct : f.replaced.Nodup
  agree : ∀ e ∈ f.settled.toList, g.accepting? e.1 = g.accepting? e.2
  unclashed : f.clash = none

omit [TransOrd α] in
theorem entries_take {q r : StateId} {rest : List (StateId × StateId)}
    (hp : f.pending = (q, r) :: rest) :
    ({ f with settled := f.settled.push (q, r), pending := rest } : Folding α).entries =
      f.entries := by
  simp [entries, hp]

theorem Walk.booked (walk : Walk g pair below done f) : Booked g pair f := by
  induction walk with
  | start =>
      refine ⟨rfl, fun q => ?_, by simp [replaced, entries, Folding.start], by simp [Folding.start],
        rfl⟩
      simp [replaced, entries, Folding.start, mem_collect]
  | @take f q r rest walk hp ha ih =>
      have same := entries_take hp
      refine ⟨same ▸ ih.first, fun p => ?_, ?_, ?_, ih.unclashed⟩
      · rw [replaced, same]
        exact ih.found p
      · rw [replaced, same]
        exact ih.distinct
      · intro e he
        rw [Array.toList_push, List.mem_append, List.mem_singleton] at he
        rcases he with he | rfl
        · exact ih.agree e he
        · exact ha
  | @follow done f f' o walk next h ih =>
      have kept := (exists_entries_follow h).1
      rcases follow_cases h with ⟨t, ht, rfl⟩ | ⟨hd, hi, rfl⟩
      · by_cases hf : o.target ∈ f.found
        · rw [identify_of_mem hf]
          exact ih
        · have grown := entries_identify_of_notMem (r := pair.redirect t) hf
          refine ⟨?_, fun p => ?_, ?_, by rw [kept]; exact ih.agree, by simp [ih.unclashed]⟩
          · rw [grown, List.head?_append, ih.first]
            rfl
          · rw [found_identify_of_notMem hf, replaced, grown, ExtTreeSet.mem_insert,
              LawfulEqCmp.compare_eq_iff_eq, ih.found]
            simp [replaced, or_comm, eq_comm]
          · rw [replaced, grown, List.map_append, List.map_singleton]
            refine ih.distinct.append (List.nodup_singleton _) ?_
            rw [List.disjoint_singleton]
            exact fun hm => hf ((ih.found _).mpr hm)
      · exact ⟨ih.first, ih.found, ih.distinct, ih.agree, ih.unclashed⟩

variable [LawfulEqOrd α]

/-- What a state has inherited is the first offer on a label that it lacks. -/
theorem Walk.inheritedTarget_eq (walk : Walk g pair below done f) (r : StateId) (a : α) :
    f.inheritedTarget r a = g.heir done r a := by
  induction walk with
  | start => simp [inheritedTarget, Folding.start, Graph.heir, firstOffer]
  | take walk hp ha ih => exact ih
  | @follow done f f' o walk next h ih =>
      cases hfit : o.fits r a with
      | false =>
          have apart : ¬ (o.taker = r ∧ compare o.label a = .eq) := by
            simpa [Offer.fits] using hfit
          rw [Graph.heir_concat_of_not_fits hfit, ← ih]
          rcases follow_cases h with ⟨t, _, rfl⟩ | ⟨_, _, rfl⟩
          · exact inheritedTarget_identify
          · rw [inheritedTarget_inherit, if_neg apart]
      | true =>
          obtain ⟨rfl, rfl⟩ := Offer.fits_iff.mp hfit
          rcases follow_cases h with ⟨t, ht, rfl⟩ | ⟨hd, hi, rfl⟩
          · rw [inheritedTarget_identify, ih]
            cases hd : g.transition o.taker o.label with
            | some p => rw [Graph.heir_of_transition hd, Graph.heir_of_transition hd]
            | none =>
                have ht : g.heir done o.taker o.label = some t := by simpa [hd, ih] using ht
                rw [ht, Graph.heir_append ht]
          · rw [Graph.heir_concat_of_none hd (ih.symm.trans hi), inheritedTarget_inherit,
              if_pos ⟨rfl, ReflCmp.compare_self⟩]

/-- An entry is the pair or goes back to an offer, and it names the state that the taker of the
offer moves to. -/
theorem Walk.exists_offer (walk : Walk g pair below done f) {e : StateId × StateId}
    (he : e ∈ f.entries) :
    e = (pair.blue, pair.red) ∨
      ∃ o ∈ done, o.target = e.1 ∧ g.foldedTarget pair done o.taker o.label = some e.2 := by
  induction walk with
  | start => exact Or.inl (by simpa [entries, Folding.start] using he)
  | take walk hp ha ih => exact ih (entries_take hp ▸ he)
  | @follow done f f' o walk next h ih =>
      have old : e ∈ f.entries → e = (pair.blue, pair.red) ∨ ∃ o' ∈ done ++ [o],
          o'.target = e.1 ∧ g.foldedTarget pair (done ++ [o]) o'.taker o'.label = some e.2 := by
        intro he
        refine (ih he).imp_right ?_
        rintro ⟨o', ho', ht, hs⟩
        exact ⟨o', List.mem_append_left _ ho', ht, Graph.foldedTarget_append hs⟩
      rcases mem_entries_follow h he with he | ⟨t, ht, rfl⟩
      · exact old he
      · refine Or.inr ⟨o, by simp, rfl, Graph.foldedTarget_append ?_⟩
        rw [walk.inheritedTarget_eq] at ht
        rw [Graph.foldedTarget_eq, ht, Option.map_some]

/-- The target of an offer is replaced, or its taker inherits it. -/
theorem Walk.replaced_or_inherited (walk : Walk g pair below done f) {o : Offer α} (ho : o ∈ done) :
    o.target ∈ f.replaced ∨ g.heir done o.taker o.label = some o.target := by
  induction walk with
  | start => cases ho
  | take walk hp ha ih =>
      rw [replaced, entries_take hp]
      exact ih ho
  | @follow done f f' o' walk next h ih =>
      obtain ⟨_, found, grown⟩ := exists_entries_follow h
      rw [List.mem_append, List.mem_singleton] at ho
      rcases ho with ho | rfl
      · refine (ih ho).imp (fun hm => ?_) Graph.heir_append
        rw [replaced, grown, List.map_append]
        exact List.mem_append_left _ hm
      · rcases follow_cases h with ⟨t, ht, rfl⟩ | ⟨hd, hi, rfl⟩
        · left
          by_cases hf : o.target ∈ f.found
          · rw [identify_of_mem hf]
            exact (walk.booked.found _).mp hf
          · rw [replaced, entries_identify_of_notMem hf]
            simp
        · right
          rw [walk.inheritedTarget_eq] at hi
          exact Graph.heir_concat_of_none hd hi

theorem Walk.reaches (walk : Walk g pair below done f) :
    ∀ e ∈ f.entries, g.Reaches pair.blue e.1 := by
  induction walk with
  | start =>
      intro e he
      have : e = (pair.blue, pair.red) := by simpa [entries, Folding.start] using he
      exact this ▸ Graph.Reaches.refl g pair.blue
  | take walk hp ha ih => exact entries_take hp ▸ ih
  | @follow done f f' o walk next h ih =>
      intro e he
      rcases mem_entries_follow h he with he | ⟨t, _, rfl⟩
      · exact ih e he
      · obtain ⟨hs, ho⟩ := Graph.mem_offers.mp (next.subset (by simp : o ∈ done ++ [o]))
        exact (ih _ (List.mem_append_left _ hs)).tail ho

theorem Walk.forced (walk : Walk g pair below done f) :
    ∀ e ∈ f.entries, g.Forced pair.blue pair.red e.1 e.2 := by
  have redirected : ∀ {q t}, g.Forced pair.blue pair.red q t →
      g.Forced pair.blue pair.red q (pair.redirect t) := by
    intro q t h
    unfold StatePair.redirect
    split
    · rename_i he
      exact (he ▸ h).trans Graph.Forced.pair
    · exact h
  induction walk with
  | start =>
      intro e he
      have : e = (pair.blue, pair.red) := by simpa [entries, Folding.start] using he
      exact this ▸ Graph.Forced.pair
  | take walk hp ha ih => exact entries_take hp ▸ ih
  | @follow done f f' o walk next h ih =>
      intro e he
      rcases mem_entries_follow h he with he | ⟨t, ht, rfl⟩
      · exact ih e he
      · have offered : ∀ o' ∈ done ++ [o], g.Forced pair.blue pair.red o'.source o'.taker ∧
            g.transition o'.source o'.label = some o'.target := by
          intro o' ho'
          obtain ⟨hs, ho⟩ := Graph.mem_offers.mp (next.subset ho')
          exact ⟨ih _ (List.mem_append_left _ hs), ho⟩
        obtain ⟨hs, ho⟩ := offered o (by simp)
        refine redirected ?_
        rcases Option.or_eq_some_iff.mp ht with hd | ⟨_, hi⟩
        · exact hs.step ho hd
        · rw [walk.inheritedTarget_eq] at hi
          obtain ⟨o', ho', hr, ha, rfl⟩ := exists_of_firstOffer (Graph.heir_eq_some.mp hi).2
          obtain ⟨hs', ht'⟩ := offered o' (List.mem_append_left _ ho')
          rw [hr] at hs'
          exact (hs.trans hs'.symm).step ho (ha ▸ ht')

/-! ### Where a walk ends -/

theorem length_entries_le (walk : Walk g pair below done f)
    (exact : ∀ q, q ∈ below ↔ g.Reaches pair.blue q) : f.entries.length ≤ below.size := by
  have sub : f.replaced ⊆ below.toList := by
    intro q hq
    obtain ⟨e, he, rfl⟩ := List.mem_map.mp hq
    exact ExtTreeSet.mem_toList.mpr ((exact e.1).mpr (walk.reaches e he))
  have short := (walk.booked.distinct.subperm sub).length_le
  rw [replaced, List.length_map, ExtTreeSet.length_toList] at short
  exact short

theorem ofPair_eq_ok : ofPair g pair = .ok f ↔
    pair.blue ∈ g ∧ pair.red ∈ g ∧ pair.blue ≠ pair.red ∧ ¬ g.Reaches pair.blue pair.red ∧
      Folding.settle g pair (collect compare (g.reachable pair.blue))
        (collect compare (g.reachable pair.blue)).size (Folding.start pair) = .ok f := by
  unfold ofPair
  by_cases blue : pair.blue ∈ g
  · by_cases red : pair.red ∈ g
    · by_cases distinct : pair.blue = pair.red
      · simp [red, distinct]
      · by_cases apart : g.Reaches pair.blue pair.red <;>
          simp [blue, red, distinct, apart, Graph.mem_reachable_set]
    · simp [blue, red]
  · simp [blue]

/-- A folding that does not fail walks until nothing is pending or two states clash. -/
theorem exists_walk_of_ofPair (h : ofPair g pair = .ok f) :
    ∃ f₀, Walk g pair (collect compare (g.reachable pair.blue)) (g.offers f₀.settled.toList) f₀ ∧
      ((f = f₀ ∧ f₀.pending = []) ∨
        ∃ q r rest, f₀.pending = (q, r) :: rest ∧ g.accepting? q ≠ g.accepting? r ∧
          f = { f₀ with clash := some (q, r) }) := by
  obtain ⟨_, _, _, _, settled⟩ := ofPair_eq_ok.mp h
  obtain ⟨f₀, walk, hend⟩ := Walk.settle Walk.start settled
  refine ⟨f₀, walk, hend.imp_left (And.imp_right fun hp => ?_)⟩
  rcases hp with hp | hp
  · exact hp
  · have short := length_entries_le walk fun q => Graph.mem_reachable_set
    have none_settled : (Folding.start pair : Folding α).settled.size = 0 := rfl
    rw [entries, List.length_append, Array.length_toList] at short
    exact List.length_eq_zero_iff.mp (by omega)

theorem exists_walk_entries (h : ofPair g pair = .ok f) :
    ∃ f₀, Walk g pair (collect compare (g.reachable pair.blue)) (g.offers f₀.settled.toList) f₀ ∧
      f.entries = f₀.entries := by
  obtain ⟨f₀, walk, ended⟩ := exists_walk_of_ofPair h
  refine ⟨f₀, walk, ?_⟩
  rcases ended with ⟨rfl, _⟩ | ⟨_, _, _, _, _, rfl⟩ <;> rfl

end BlueFringe.Folding
