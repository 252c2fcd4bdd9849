import BlueFringe.Graph.Difference
import BlueFringe.Graph.Reach
import BlueFringe.Sample

/-!
# Conformance suites

Words that tell a reference from every graph that is not equivalent to it and has at most a given
number of states more. A test word leads to a state, goes on by some labels, and ends with a word
that separates states. The suite as a sample keeps of each word only what the reference does not
reject yet.
-/

namespace BlueFringe

open Std

/-- Two states of the reference accept the same words, so nothing separates them. -/
structure EquivalentStates where
  first : StateId
  second : StateId
deriving DecidableEq

/-- The text of the report that two states are equivalent. -/
def EquivalentStates.message (e : EquivalentStates) : String :=
  s!"states {render e.first} and {render e.second} accept the same language"

/-- What a suite is made for: a reference and how many states more a graph under test may have. -/
structure Conformance (α : Type) [Ord α] where
  reference : Graph α
  extraStates : Nat

namespace Conformance

variable {α : Type} [Ord α] [TransOrd α]

/-- The words of one label. -/
def letters (c : Conformance α) : List (Word α) := c.reference.alphabet.map fun a => [a]

/-- The least word that leads to each reachable state. -/
def stateCover (c : Conformance α) : List (Word α) :=
  Word.arrange ((c.reference.representatives c.reference.initial).map (·.1))

/-- The state cover and each of its words with every label. -/
def transitionCover (c : Conformance α) : List (Word α) :=
  Word.arrange (c.stateCover ++ Word.products c.stateCover c.letters)

/-- The least words that separate states of a list, for each two of them. -/
def separators (g : Graph α) : List StateId → Except EquivalentStates (List (Word α))
  | [] => .ok []
  | p :: rest => do
    let here ← rest.mapM fun q =>
      match g.separate p g q with
      | some w => .ok w
      | none => .error ⟨p, q⟩
    return here ++ (← separators g rest)

/-- The empty word and, for each two reachable states, the least word that separates them. -/
def characterisation (c : Conformance α) : Except EquivalentStates (List (Word α)) := do
  let states := sortBy compare (c.reference.reachable c.reference.initial)
  return Word.arrange ([] :: (← separators c.reference states))

/-- The words of a list, each with all that goes on by up to so many labels. -/
def extensions (c : Conformance α) : Nat → List (Word α) → List (Word α)
  | _, [] => []
  | 0, words => words
  | n + 1, words => words ++ c.extensions n (Word.products words c.letters)

/-- All words up to this length. -/
def powers (c : Conformance α) (n : Nat) : List (Word α) := c.extensions n [[]]

theorem extensions_nil (c : Conformance α) (n : Nat) : c.extensions n [] = [] := by
  cases n <;> rfl

theorem extensions_succ (c : Conformance α) (n : Nat) (words : List (Word α)) :
    c.extensions (n + 1) words = words ++ c.extensions n (Word.products words c.letters) := by
  cases words with
  | nil => simp [extensions_nil, Word.products]
  | cons w words => rfl

/-- The words up to a length are the empty one and each label with a shorter word behind it. -/
theorem mem_extensions {c : Conformance α} {n : Nat} {words : List (Word α)} {w : Word α} :
    w ∈ c.extensions n words ↔ ∃ stem ∈ words, ∃ v : Word α,
      v.length ≤ n ∧ (∀ a ∈ v, a ∈ c.reference.alphabet) ∧ stem ++ v = w := by
  induction n generalizing words with
  | zero => cases words <;> simp [extensions]
  | succ n ih =>
    rw [extensions_succ, List.mem_append, ih]
    constructor
    · rintro (member | ⟨stem, member, v, short, labels, rfl⟩)
      · exact ⟨w, member, [], by simp⟩
      · obtain ⟨first, h, letter, hl, rfl⟩ := Word.mem_products.mp member
        obtain ⟨a, ha, rfl⟩ := List.mem_map.mp hl
        refine ⟨first, h, a :: v, by simpa using short, ?_, by simp⟩
        exact List.forall_mem_cons.mpr ⟨ha, labels⟩
    · rintro ⟨stem, member, v, short, labels, rfl⟩
      cases v with
      | nil => exact .inl (by simpa using member)
      | cons a v =>
        obtain ⟨ha, labels⟩ := List.forall_mem_cons.mp labels
        refine .inr ⟨stem ++ [a], ?_, v, by simpa using short, labels, by simp⟩
        exact Word.mem_products.mpr ⟨stem, member, [a], List.mem_map.mpr ⟨a, ha, rfl⟩, rfl⟩

/-- The words of the state cover, each followed by every word of up to one label more than there are
extra states, and then by every word of the characterisation. -/
def testSet (c : Conformance α) : Except EquivalentStates (List (Word α)) := do
  let endings ← c.characterisation
  let stems := Word.products c.stateCover (c.powers (c.extraStates + 1))
  return Word.arrange (Word.products stems endings)

/-- The word up to its first prefix that the reference rejects. -/
def truncate (c : Conformance α) (w : Word α) : Word α :=
  c.reference.truncateFrom c.reference.initial w

/-- Whether the second word goes on after the first one. -/
def isExtendedBy (v w : Word α) : Bool :=
  v.length < w.length && compare (w.take v.length) v == .eq

/-- The truncated words of the test set that none of them extends, each as the reference classifies
it. -/
def sample (c : Conformance α) : Except EquivalentStates (Sample α) := do
  let words := Word.arrange ((← c.testSet).map c.truncate)
  let maximal := words.filter fun v => !words.any (isExtendedBy v)
  return .ofFlagged (maximal.map fun w => (w, c.reference.accepts w))

end Conformance

end BlueFringe
