import BlueFringe.Graph.Acceptance
import BlueFringe.Trace.Basic

/-!
# Prefix trees

A prefix tree has one state for each prefix of the words that were added, and each state accepts or
rejects. A trace is checked against the tree before anything is added, so one that contradicts the
tree leaves it as it was. The root counts as unlabelled until the first trace was added.
-/

namespace BlueFringe

open Std

/-- What becomes of a trace that contradicts the tree. -/
inductive ConflictPolicy where
  /-- Adding stops. -/
  | abort
  /-- The trace is skipped. -/
  | keepFirst
deriving DecidableEq

/-- A trace contradicts what is recorded: it passes through a rejecting state, or rejects a state
that has successors, or gives a labelled state the other outcome. -/
structure Conflict (α : Type) where
  /-- The position of the trace among all that were added. -/
  trace : Nat
  /-- The word that leads to the contested state. -/
  stem : Word α
  recorded : Outcome
  requested : Outcome
deriving DecidableEq

/-- The text of the conflict. -/
def Conflict.message {α : Type} [Render α] (c : Conflict α) : String :=
  s!"trace {c.trace} requests {c.requested.name} for prefix {render c.stem}, " ++
    s!"but {c.recorded.name} is recorded"

/-- A prefix tree that traces can be added to. -/
structure PrefixTree (α : Type) [Ord α] where
  graph : Graph α
  policy : ConflictPolicy
  /-- The number of traces so far, those with a conflict among them. -/
  traceCount : Nat
  rootLabelled : Bool
  /-- The conflicts of the traces that were skipped. -/
  skipped : List (Conflict α)

namespace PrefixTree

variable {α : Type} [Ord α] [TransOrd α]

/-- The tree of an accepting root that no trace has labelled. -/
def empty (policy : ConflictPolicy) : PrefixTree α :=
  ⟨.single true, policy, 0, false, []⟩

/-- What a trace demands of the state behind which some of its word is left. -/
def demand (outcome : Outcome) (unread : Word α) : Outcome :=
  if unread.isEmpty then outcome else .accept

/-- What the tree records for a state. -/
def recorded (t : PrefixTree α) (q : StateId) : Outcome :=
  .ofBool (t.graph.accepting? q == some true)

/-- The conflict at a state, if what is recorded there differs from what the trace demands. A root
that no trace has labelled conflicts with nothing. -/
def clash (t : PrefixTree α) (outcome : Outcome) (q : StateId) (stem unread : Word α) :
    Option (Conflict α) :=
  if t.recorded q = demand outcome unread || (stem.isEmpty && !t.rootLabelled) then none
  else some ⟨t.traceCount, stem, t.recorded q, demand outcome unread⟩

/-- Follows a word as far as the tree goes and checks every state on the way. The result is the last
state and the part of the word that the tree does not have. -/
def descend (t : PrefixTree α) (outcome : Outcome) (q : StateId) (stem : Word α) :
    Word α → Except (Conflict α) (StateId × Word α)
  | [] =>
    match t.clash outcome q stem [] with
    | some conflict => .error conflict
    | none => .ok (q, [])
  | a :: rest =>
    match t.clash outcome q stem (a :: rest) with
    | some conflict => .error conflict
    | none =>
      match t.graph.transition q a with
      | none => .ok (q, a :: rest)
      | some p => t.descend outcome p (stem ++ [a]) rest

/-- Adds a path of new states below a state at the given depth. All of them accept, apart from the
last one, which has the outcome of the trace. -/
def grow (outcome : Outcome) (g : Graph α) (q : StateId) (depth : Nat) : Word α → Graph α
  | [] => g
  | a :: rest =>
    grow outcome (g.sprout q (depth + 1) a (demand outcome rest).isAccept) g.fresh (depth + 1) rest

/-- Adds a trace that does not contradict the tree. -/
def extend (t : PrefixTree α) (trace : Trace α) : Except (Conflict α) (PrefixTree α) := do
  let (q, unread) ← t.descend trace.outcome t.graph.initial [] trace.word
  let graph :=
    if trace.word.isEmpty then t.graph.setAccepting q trace.outcome.isAccept else t.graph
  return { t with
    graph := grow trace.outcome graph q (trace.word.length - unread.length) unread
    traceCount := t.traceCount + 1
    rootLabelled := true }

/-- Adds a trace. If it contradicts the tree it is only counted. -/
def add (t : PrefixTree α) (trace : Trace α) : Option (Conflict α) × PrefixTree α :=
  match t.extend trace with
  | .ok extended => (none, extended)
  | .error conflict => (some conflict, { t with traceCount := t.traceCount + 1 })

/-- Adds traces in order. The policy decides what becomes of a conflict. -/
def addAll (t : PrefixTree α) : List (Trace α) → Option (Conflict α) × PrefixTree α
  | [] => (none, t)
  | trace :: rest =>
    match t.add trace with
    | (none, t) => t.addAll rest
    | (some conflict, t) =>
      match t.policy with
      | .abort => (some conflict, t)
      | .keepFirst => { t with skipped := t.skipped ++ [conflict] }.addAll rest

/-- The prefix tree of traces. -/
def ofTraces (policy : ConflictPolicy) (traces : List (Trace α)) :
    Except (Conflict α) (PrefixTree α) :=
  match (empty policy).addAll traces with
  | (none, t) => .ok t
  | (some conflict, _) => .error conflict

/-- The state that a word leads to. -/
def stateOf (t : PrefixTree α) (w : Word α) : Option StateId := t.graph.run w

end PrefixTree

end BlueFringe
