import BlueFringe.Proofs.Traversals
import BlueFringe.Proofs.Walk
import BlueFringe.Scoring
import Mathlib.Data.Set.Card

/-!
# How far a folding goes

The loop of a folding takes one pending entry in each round. Here it is described without a bound on
the rounds. States below the blue one may be shared, and there may be cycles on both sides: a state
is entered at most once all the same, so there are no more rounds than states below the blue one,
and the bound of the loop never cuts it off. What is reported of a pair can be relied on for all
graphs too.
-/

namespace BlueFringe

open Std

variable {α : Type} [Ord α] [TransOrd α]

theorem Graph.ncard_reaches [LawfulEqOrd α] (g : Graph α) (q : StateId) :
    {p | g.Reaches q p}.ncard = (g.reachable q).length := by
  have found : {p | g.Reaches q p} = (g.reachable q).toFinset := by
    ext p
    simp [mem_reachable]
  rw [found, Set.ncard_coe_finset, List.toFinset_card_of_nodup (nodup_reachable g q)]

namespace Folding

/-- The loop goes on from a folding for so many rounds, and this is what it ends with. Each round
takes the entry in front. -/
inductive Rounds (g : Graph α) (pair : StatePair) (below : ExtTreeSet StateId compare) :
    Nat → Folding α → Except Violation (Folding α) → Prop where
  | done {f : Folding α} : f.pending = [] → Rounds g pair below 0 f (.ok f)
  | clash {f : Folding α} {q r : StateId} {rest : List (StateId × StateId)} :
      f.pending = (q, r) :: rest → g.accepting? q ≠ g.accepting? r →
      Rounds g pair below 1 f (.ok { f with clash := some (q, r) })
  | fail {f : Folding α} {q r : StateId} {rest : List (StateId × StateId)} {v : Violation} :
      f.pending = (q, r) :: rest → g.accepting? q = g.accepting? r →
      (g.edges q).foldlM (Folding.follow g pair below r)
        { f with settled := f.settled.push (q, r), pending := rest } = .error v →
      Rounds g pair below 1 f (.error v)
  | next {f f' : Folding α} {q r : StateId} {rest : List (StateId × StateId)} {n : Nat}
      {out : Except Violation (Folding α)} :
      f.pending = (q, r) :: rest → g.accepting? q = g.accepting? r →
      (g.edges q).foldlM (Folding.follow g pair below r)
        { f with settled := f.settled.push (q, r), pending := rest } = .ok f' →
      Rounds g pair below n f' out → Rounds g pair below (n + 1) f out

variable {g : Graph α} {pair : StatePair} {below : ExtTreeSet StateId compare}
  {done : List (Offer α)} {f f' : Folding α} {out : Except Violation (Folding α)} {n : Nat}

/-! ### The loop and its bound -/

/-- A bound that is not below the number of rounds makes no difference. -/
theorem settle_of_rounds (rounds : Rounds g pair below n f out) :
    ∀ bound, n ≤ bound → Folding.settle g pair below bound f = out := by
  induction rounds with
  | done empty =>
      intro bound _
      cases bound <;> simp [Folding.settle, empty]
  | clash front apart =>
      intro bound enough
      obtain ⟨bound, rfl⟩ := Nat.exists_eq_add_of_le' enough
      simp [Folding.settle, front, apart]
  | fail front agree failed =>
      intro bound enough
      obtain ⟨bound, rfl⟩ := Nat.exists_eq_add_of_le' enough
      simp only [Folding.settle, front, agree, ne_eq, not_true_eq_false, if_false, failed]
      rfl
  | next front agree followed _ ih =>
      intro bound enough
      cases bound with
      | zero => omega
      | succ bound =>
          simp only [Folding.settle, front, agree, ne_eq, not_true_eq_false, if_false, followed]
          exact ih bound (by omega)

variable [LawfulEqOrd α]

/-- Each round settles a further one of the states below the blue one, so there is a last round. -/
theorem Walk.exists_rounds (walk : Walk g pair below (g.offers f.settled.toList) f)
    (exact : ∀ q, q ∈ below ↔ g.Reaches pair.blue q) :
    ∃ n out, Rounds g pair below n f out ∧ n + f.settled.size ≤ below.size := by
  have room := length_entries_le walk exact
  rw [entries, List.length_append, Array.length_toList] at room
  -- The induction is on the number of states that are not settled yet.
  induction left : below.size - f.settled.size generalizing f with
  | zero =>
      have empty : f.pending = [] := List.length_eq_zero_iff.mp (by omega)
      exact ⟨0, .ok f, .done empty, by omega⟩
  | succ left ih =>
      cases front : f.pending with
      | nil => exact ⟨0, .ok f, .done front, by omega⟩
      | cons entry rest =>
          obtain ⟨q, r⟩ := entry
          by_cases agree : g.accepting? q = g.accepting? r
          · have taken := walk.take front agree
            cases followed : (g.edges q).foldlM (Folding.follow g pair below r)
                { f with settled := f.settled.push (q, r), pending := rest } with
            | error v => exact ⟨1, .error v, .fail front agree followed, by omega⟩
            | ok f' =>
                obtain ⟨kept, walk'⟩ := taken.foldlM (offers_push g f q r) followed
                have size : f'.settled.size = f.settled.size + 1 := by rw [kept]; simp
                have room' := length_entries_le walk' exact
                rw [entries, List.length_append, Array.length_toList] at room'
                obtain ⟨n, out, rounds, bounded⟩ := ih walk' room' (by omega)
                exact ⟨n + 1, out, .next front agree followed rounds, by omega⟩
          · exact ⟨1, _, .clash front agree, by omega⟩

/-! ### The folding of a pair -/

/-- Both states exist and differ, and the blue one does not lead to the red one. -/
def Admits (g : Graph α) (pair : StatePair) : Prop :=
  pair.blue ∈ g ∧ pair.red ∈ g ∧ pair.blue ≠ pair.red ∧ ¬ g.Reaches pair.blue pair.red

theorem exists_refusal (refused : ¬ Admits g pair) : ∃ v, ofPair g pair = .error v := by
  cases made : ofPair g pair with
  | error v => exact ⟨v, rfl⟩
  | ok f =>
      obtain ⟨blue, red, distinct, apart, _⟩ := ofPair_eq_ok.mp made
      exact absurd ⟨blue, red, distinct, apart⟩ refused

theorem ofPair_of_admits (admits : Admits g pair) :
    ofPair g pair = settle g pair (collect compare (g.reachable pair.blue))
      (collect compare (g.reachable pair.blue)).size (start pair) := by
  obtain ⟨blue, red, distinct, apart⟩ := admits
  simp [ofPair, blue, red, distinct, Graph.mem_reachable_set, apart]

theorem exists_rounds_of_admits (admits : Admits g pair) :
    ∃ n ≤ {q | g.Reaches pair.blue q}.ncard,
      Rounds g pair (collect compare (g.reachable pair.blue)) n (start pair) (ofPair g pair) := by
  have walk : Walk g pair (collect compare (g.reachable pair.blue))
      (g.offers (start pair : Folding α).settled.toList) (start pair) := Walk.start
  obtain ⟨n, out, rounds, bounded⟩ := walk.exists_rounds fun q => Graph.mem_reachable_set
  have short := size_collect_le compare (g.reachable pair.blue)
  refine ⟨n, by rw [Graph.ncard_reaches]; omega, ?_⟩
  rw [ofPair_of_admits admits, settle_of_rounds rounds _ (by omega)]
  exact rounds

/-! ### What is found -/

/-- Whatever the states below the blue one look like, each is identified at most once, and only if
determinism forces it. -/
theorem entries_of_ofPair (made : ofPair g pair = .ok f) :
    f.entries.head? = some (pair.blue, pair.red) ∧ f.replaced.Nodup ∧
      ∀ e ∈ f.entries, g.Reaches pair.blue e.1 ∧ g.Forced pair.blue pair.red e.1 e.2 := by
  obtain ⟨f₀, walk, same⟩ := exists_walk_entries made
  rw [replaced, same]
  exact ⟨walk.booked.first, walk.booked.distinct, fun e he => ⟨walk.reaches e he, walk.forced e he⟩⟩

theorem mem_of_entry (made : ofPair g pair = .ok f) (closed : g.Closed) {e : StateId × StateId}
    (he : e ∈ f.entries) : e.1 ∈ g ∧ e.2 ∈ g := by
  obtain ⟨blue, red, _⟩ := ofPair_eq_ok.mp made
  obtain ⟨reaches, forced⟩ := (entries_of_ofPair made).2.2 e he
  have source : e.1 ∈ g := closed.mem_of_reaches blue reaches
  rcases forced.eq_or_mem closed blue red with same | both
  · exact ⟨source, same ▸ source⟩
  · exact both

theorem length_entries (made : ofPair g pair = .ok f) : f.entries.length = f.matched + 1 := by
  have first := (entries_of_ofPair made).1
  have nonempty : 0 < f.entries.length :=
    List.length_pos_of_mem (List.mem_of_mem_head? first)
  unfold matched
  omega

theorem clash_eq_find? (made : ofPair g pair = .ok f) :
    f.clash = f.entries.find? fun e => g.accepting? e.1 != g.accepting? e.2 := by
  obtain ⟨f₀, walk, ended⟩ := exists_walk_of_ofPair made
  have agree : f₀.settled.toList.find? (fun e => g.accepting? e.1 != g.accepting? e.2) = none := by
    rw [List.find?_eq_none]
    intro e he
    simp [walk.booked.agree e he]
  rcases ended with ⟨rfl, empty⟩ | ⟨q, r, rest, front, apart, rfl⟩
  · rw [walk.booked.unclashed, entries, empty, List.append_nil, agree]
  · simp [entries, front, agree, apart]

end Folding

/-- Whether the walk of a pair is refused from the start or not, it takes no more entries than there
are states below the blue one, on any graph. An explanation lists different states below the blue
one, the blue one first, each with one that it is forced together with. The clash is the first
entry whose members differ in acceptance. -/
theorem walk_bounded [LawfulEqOrd α] (g : Graph α) (pair : StatePair) (strategy : Strategy) :
    (¬ Folding.Admits g pair ∧ (∃ v, Folding.ofPair g pair = .error v) ∨
      Folding.Admits g pair ∧ ∃ n ≤ {q | g.Reaches pair.blue q}.ncard,
        Folding.Rounds g pair (collect compare (g.reachable pair.blue)) n (Folding.start pair)
          (Folding.ofPair g pair)) ∧
      ∀ e, strategy.explain g pair = .ok e →
        e.entries.head? = some (pair.blue, pair.red) ∧ (e.entries.map (·.1)).Nodup ∧
        e.entries.length = e.matched + 1 ∧
        (∀ entry ∈ e.entries, g.Reaches pair.blue entry.1 ∧
          g.Forced pair.blue pair.red entry.1 entry.2 ∧
          (g.Closed → entry.1 ∈ g ∧ entry.2 ∈ g)) ∧
        (∀ entry, e.clash = some entry → entry ∈ e.entries ∧
          g.Forced pair.blue pair.red entry.1 entry.2 ∧
          g.accepting? entry.1 ≠ g.accepting? entry.2) ∧
        e.clash = e.entries.find? fun entry => g.accepting? entry.1 != g.accepting? entry.2 := by
  constructor
  · by_cases admits : Folding.Admits g pair
    · exact .inr ⟨admits, Folding.exists_rounds_of_admits admits⟩
    · exact .inl ⟨admits, Folding.exists_refusal admits⟩
  · intro e explained
    obtain ⟨f, made, built⟩ := bind_eq_ok.mp explained
    cases built
    obtain ⟨first, distinct, justified⟩ := Folding.entries_of_ofPair made
    have clash := Folding.clash_eq_find? made
    refine ⟨first, distinct, Folding.length_entries made, fun entry mem => ?_,
      fun entry found => ?_, clash⟩
    · obtain ⟨reaches, forced⟩ := justified entry mem
      exact ⟨reaches, forced, fun closed => Folding.mem_of_entry made closed mem⟩
    · change f.clash = some entry at found
      rw [clash] at found
      have mem := List.mem_of_find?_eq_some found
      exact ⟨mem, (justified entry mem).2, by simpa using List.find?_some found⟩

/-- Two states that lead to each other, entered from a state with a loop. The first of them leads to
the second on two labels. -/
def eddy : Graph Nat :=
  ((((((((Graph.single true).addState true).addState false).setTarget ⟨0⟩ 0 ⟨0⟩).setTarget ⟨0⟩ 1
    ⟨1⟩).setTarget ⟨1⟩ 0 ⟨2⟩).setTarget ⟨1⟩ 1 ⟨2⟩).setTarget ⟨2⟩ 0 ⟨1⟩)

theorem eddy_explained :
    let e : Explanation := ⟨.edsm, ⟨⟨1⟩, ⟨0⟩⟩, .incompatible, 1, 0, [(⟨1⟩, ⟨0⟩), (⟨2⟩, ⟨0⟩)],
      some (⟨2⟩, ⟨0⟩)⟩
    eddy.Closed ∧ Folding.Admits eddy ⟨⟨1⟩, ⟨0⟩⟩ ∧
      Strategy.edsm.explain eddy ⟨⟨1⟩, ⟨0⟩⟩ = .ok e ∧ eddy.Forced ⟨1⟩ ⟨0⟩ ⟨2⟩ ⟨0⟩ ∧
      eddy.accepting? ⟨2⟩ ≠ eddy.accepting? ⟨0⟩ ∧
      ∃ n ≤ {q | eddy.Reaches ⟨1⟩ q}.ncard,
        Folding.Rounds eddy ⟨⟨1⟩, ⟨0⟩⟩ (collect compare (eddy.reachable ⟨1⟩)) n
          (Folding.start ⟨⟨1⟩, ⟨0⟩⟩) (Folding.ofPair eddy ⟨⟨1⟩, ⟨0⟩⟩) := by
  intro e
  have closed : eddy.Closed := by decide +kernel
  have admits : Folding.Admits eddy ⟨⟨1⟩, ⟨0⟩⟩ := by
    unfold Folding.Admits
    decide +kernel
  have explained : Strategy.edsm.explain eddy ⟨⟨1⟩, ⟨0⟩⟩ = .ok e := by decide +kernel
  obtain ⟨ends, reports⟩ := walk_bounded eddy ⟨⟨1⟩, ⟨0⟩⟩ .edsm
  obtain ⟨_, _, _, _, clash, _⟩ := reports e explained
  obtain ⟨_, forced, differ⟩ := clash _ rfl
  exact ⟨closed, admits, explained, forced, differ,
    (ends.resolve_left fun refused => refused.1 admits).2⟩

end BlueFringe
