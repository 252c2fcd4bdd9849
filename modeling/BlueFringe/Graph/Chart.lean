import BlueFringe.Graph.Basic
import BlueFringe.Text.Grid
import BlueFringe.Text.Literal

/-!
# Charts and listings

Two texts that show a whole graph. The chart is a table with a row for each state and a column for
each label; the initial state is marked, red and blue states are painted, and a missing transition
is a dim dash. The listing has one line for each state with its transitions behind it.
-/

namespace BlueFringe.Graph

open Std Text

variable {α : Type} [Ord α] [TransOrd α]

/-- The name of a state in a chart. -/
def chartName (g : Graph α) (q : StateId) : String :=
  if q = g.initial then ">" ++ render q else render q

/-- The paint of a state's name. -/
def chartPaint : Colour → Paint
  | .uncoloured => .plain
  | .blue => .blue
  | .red => .boldRed

/-- The cell for the transition of a state on a label. -/
def chartTarget (g : Graph α) (q : StateId) (a : α) : String :=
  match g.transition q a with
  | some target => render target
  | none => Paint.dim.apply "-"

/-- The row of a state. -/
def chartRow (g : Graph α) (alphabet : List α) (q : StateId) (s : State α) : List String :=
  (chartPaint s.colour).apply (g.chartName q) :: render s.accepting ::
    alphabet.map (g.chartTarget q)

/-- The transition table as a grid. -/
def chart [Render α] (g : Graph α) : String :=
  let alphabet := g.alphabet
  let header := "" :: "acc" :: alphabet.map render
  Grid.draw (header :: g.states.toList.map fun entry => g.chartRow alphabet entry.1 entry.2)

instance [Render α] : Render (Graph α) where
  render g := g.chart

/-- One line of a listing. -/
def listingLine [Literal α] (q : StateId) (s : State α) : String :=
  let edges := s.edges.toList.map fun edge => literal edge.1 ++ "->" ++ render edge.2
  s!"{render q}[{render s.accepting}|{s.colour.name}] " ++ ", ".intercalate edges ++ "\n"

/-- The initial state and then each state on a line of its own. -/
def listing [Literal α] (g : Graph α) : String :=
  s!"initial: {render g.initial}\n" ++
    String.join (g.states.toList.map fun entry => listingLine entry.1 entry.2)

end BlueFringe.Graph
