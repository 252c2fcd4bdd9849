import BlueFringe.Graph.Difference
import BlueFringe.Random.Draws
import BlueFringe.Sample

/-!
# Random graphs and samples

Random graphs over small letters whose states all accept, apart from leaves, and samples of random
walks through a graph.
-/

namespace BlueFringe

/-- The first small letters. -/
def smallLetters (count : Nat) : List Char :=
  ((List.range 26).map fun i => Char.ofNat ('a'.toNat + i)).take count

namespace Random

variable {γ : Type} [Draws γ]

/-- What a random graph is to be like. -/
structure Shape where
  /-- The number of labels. -/
  labels : Nat
  /-- The number of states at which no more are added. -/
  maxStates : Nat
  /-- The probability that a transition leads back to an accepting state. -/
  loopChance : Float
  /-- The probability that a state rejects a label. -/
  rejectChance : Float

/-- A random graph in the making. -/
structure Growth (γ : Type) where
  graph : Graph Char
  /-- The accepting states in the order in which they were added. -/
  accepting : List StateId
  /-- The accepting states that have no transitions yet. -/
  waiting : List StateId
  draws : γ

namespace Growth

/-- One accepting state. -/
def start (draws : γ) : Growth γ :=
  let graph := Graph.single true
  ⟨graph, [graph.initial], [graph.initial], draws⟩

/-- Lets a state reject a label, by a new leaf if there is room and a coin says so. -/
def addRejection (shape : Shape) (q : StateId) (depth : Nat) (s : Growth γ) (a : Char) : Growth γ :=
  if s.graph.size < shape.maxStates then
    let (leaf, draws) := Draws.flip s.draws
    let graph := if leaf then s.graph.sprout q (depth + 1) a false else s.graph
    { s with graph, draws }
  else s

/-- Adds a transition to some accepting state. -/
def addLoop (q : StateId) (s : Growth γ) (a : Char) : Growth γ :=
  match Draws.pick s.accepting s.draws with
  | (none, draws) => { s with draws }
  | (some target, draws) => { s with graph := s.graph.setTarget q a target, draws }

/-- Adds a transition to a new accepting state. -/
def addChild (q : StateId) (depth : Nat) (s : Growth γ) (a : Char) : Growth γ :=
  { s with
    graph := s.graph.sprout q (depth + 1) a true
    accepting := s.accepting ++ [s.graph.fresh]
    waiting := s.waiting ++ [s.graph.fresh] }

/-- Decides what becomes of a label that the state does not reject. -/
def addAcceptance (shape : Shape) (q : StateId) (depth : Nat) (s : Growth γ) (a : Char) :
    Growth γ :=
  if s.graph.size < shape.maxStates then
    match Draws.chance shape.loopChance s.draws with
    | (true, draws) => { s with draws }.addLoop q a
    | (false, draws) => { s with draws }.addChild q depth a
  else s.addLoop q a

/-- Decides what becomes of a label. -/
def addLabel (shape : Shape) (q : StateId) (depth : Nat) (s : Growth γ) (a : Char) : Growth γ :=
  match Draws.chance shape.rejectChance s.draws with
  | (true, draws) => { s with draws }.addRejection shape q depth a
  | (false, draws) => { s with draws }.addAcceptance shape q depth a

/-- Gives transitions to waiting states, at most as many as the bound allows. -/
def grow (shape : Shape) : Nat → Growth γ → Growth γ
  | 0, s => s
  | bound + 1, s =>
    match s.waiting with
    | [] => s
    | q :: waiting =>
      let depth := (s.graph.depth? q).getD 0
      grow shape bound ((smallLetters shape.labels).foldl (fun s a => s.addLabel shape q depth a)
        { s with waiting })

end Growth

/-- A random graph. No more states wait than there may be. -/
def acceptor (shape : Shape) (draws : γ) : Graph Char × γ :=
  let s := (Growth.start draws).grow shape (max 1 shape.maxStates)
  (s.graph, s.draws)

/-- A random walk of at most so many labels. It ends behind the first label that the graph
rejects. -/
def walk (g : Graph Char) (labels : List Char) : Nat → StateId → γ → Word Char × γ
  | 0, _, draws => ([], draws)
  | steps + 1, q, draws =>
    match Draws.pick labels draws with
    | (none, draws) => ([], draws)
    | (some a, draws) =>
      match g.live (g.transition q a) with
      | none => ([a], draws)
      | some p =>
        let (w, draws) := walk g labels steps p draws
        (a :: w, draws)

/-- The trace of a random walk of a random length up to the bound. -/
def trace (g : Graph Char) (labels : List Char) (maxLength : Nat) (draws : γ) : Trace Char × γ :=
  let (length, draws) := Draws.index maxLength draws
  let (w, draws) := walk g labels length.val g.initial draws
  (⟨w, .ofBool (g.accepts w)⟩, draws)

/-- Random traces, one after the other. -/
def traces (g : Graph Char) (labels : List Char) (maxLength : Nat) :
    Nat → γ → List (Trace Char) × γ
  | 0, draws => ([], draws)
  | count + 1, draws =>
    let (first, draws) := trace g labels maxLength draws
    let (rest, draws) := traces g labels maxLength count draws
    (first :: rest, draws)

/-- A sample of random walks through a graph. -/
def sample (g : Graph Char) (labels : List Char) (count maxLength : Nat) (draws : γ) :
    Sample Char × γ :=
  let (traces, draws) := traces g labels maxLength count draws
  (⟨traces⟩, draws)

end Random

end BlueFringe
