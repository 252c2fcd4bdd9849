import BlueFringe.Text.Blank
import BlueFringe.Text.Columns
import BlueFringe.Text.Escape

/-!
# Styles

The style of a text is what the control sequences before it have switched on: effects such as bold,
a font and colours. When a text is cut into lines, each line gets the sequences that bring up the
style at its start and those that end the style at its end, so the lines can be shown apart from
each other.
-/

namespace BlueFringe.Text

/-- The codes that switch effects on, each with the code that switches the effect off. -/
def effects : List (Nat × Nat) :=
  [(1, 22), (2, 22), (3, 23), (4, 24), (5, 25), (6, 25), (7, 27), (8, 28), (9, 29), (20, 23),
   (21, 24), (26, 50), (51, 54), (52, 54), (53, 55), (60, 65), (61, 65), (62, 65), (63, 65),
   (64, 65), (73, 75), (74, 75)]

/-- The codes that end parts of a style, in the order in which they are written. -/
def endCodes : List Nat := [10, 22, 23, 24, 25, 27, 28, 29, 39, 49, 50, 54, 55, 65, 59, 75]

/-- The effect that no code but 0 switches off, though one is written for it where a style ends. -/
def lastingEffect : Nat := 20

/-- What control sequences have switched on. -/
structure Style where
  /-- The codes of the effects. -/
  effects : List Nat := []
  /-- The code of a font other than the default one. -/
  font : Option Nat := none
  /-- The codes of the colour of the characters. -/
  foreground : Option (List Nat) := none
  /-- The codes of the colour behind the characters. -/
  background : Option (List Nat) := none
  /-- The codes of the colour of underlines. -/
  underline : Option (List Nat) := none
  /-- Whether a code without a meaning was met. -/
  unknown : Bool := false
  /-- Whether everything was switched off at some time. -/
  reset : Bool := false
deriving DecidableEq

/-- The number that a parameter of a control sequence stands for. -/
def decimal (parameter : List Char) : Nat :=
  parameter.foldl (fun n c => 10 * n + (c.toNat - '0'.toNat)) 0

/-- The code that a parameter stands for; there is one way to write it. -/
def code? (parameter : List Char) : Option Nat :=
  if !parameter.isEmpty && parameter.all Char.isDigit &&
      (parameter = ['0'] || parameter.head? != some '0') then
    some (decimal parameter)
  else none

/-- The share of a colour that a parameter stands for; what is no share counts as zero. -/
def share (parameter : List Char) : Nat :=
  if parameter.all Char.isDigit && decimal parameter < 256 then decimal parameter else 0

/-- The parameters of a control sequence that changes the rendition. -/
def parameters : List Char → List (List Char)
  | '\x1b' :: '[' :: cs => pieces (· == ';') cs.dropLast
  | _ => []

namespace Style

/-- The style after one code. -/
def set (s : Style) (code : Nat) : Style :=
  if code = 0 then { reset := true }
  else if code = 10 then { s with font := none }
  else if 11 ≤ code && code ≤ 19 then { s with font := some code }
  else if Text.effects.any (·.1 = code) then
    { s with effects := code :: s.effects.filter (· ≠ code) }
  else if Text.effects.any (·.2 = code) then
    { s with
      effects := s.effects.filter fun on =>
        on = lastingEffect || List.lookup on Text.effects ≠ some code }
  else if 30 ≤ code && code ≤ 37 || 90 ≤ code && code ≤ 97 then { s with foreground := some [code] }
  else if code = 39 then { s with foreground := none }
  else if 40 ≤ code && code ≤ 47 || 100 ≤ code && code ≤ 107 then
    { s with background := some [code] }
  else if code = 49 then { s with background := none }
  else if code = 59 then { s with underline := none }
  else { s with unknown := true }

/-- The style after one of the codes 38, 48 and 58 and the colour behind it. -/
def setColour (s : Style) (code : Nat) (colour : List Nat) : Style :=
  if code = 38 then { s with foreground := some (code :: colour) }
  else if code = 48 then { s with background := some (code :: colour) }
  else { s with underline := some (code :: colour) }

/-- The code of a parameter that is followed by a colour. -/
def colourCode? (parameter : List Char) : Option Nat :=
  (code? parameter).filter fun code => code = 38 || code = 48 || code = 58

/-- The style after a list of parameters. A colour of neither kind is passed over; one that is cut
short, with all that follows it. -/
def apply (s : Style) : List (List Char) → Style
  | [] => s
  | parameter :: rest =>
    match colourCode? parameter, rest with
    | some code, ['5'] :: n :: rest => (s.setColour code [5, share n]).apply rest
    | some code, ['2'] :: r :: g :: b :: rest =>
      (s.setColour code [2, share r, share g, share b]).apply rest
    | some _, kind :: rest => if kind = ['5'] || kind = ['2'] then s else s.apply rest
    | some _, [] => s
    | none, rest =>
      match code? parameter with
      | some code => (s.set code).apply rest
      | none => { s with unknown := true }.apply rest

/-- The style behind a text. -/
def after (s : Style) (cs : List Char) : Style :=
  (parts cs).foldl (fun s part => match part with
    | .sequence cs true => s.apply (parameters cs)
    | _ => s) s

/-- Whether nothing that sets characters off was met. A font and codes without a meaning do not. -/
def isBare (s : Style) : Bool :=
  s.effects.isEmpty && s.foreground.isNone && s.background.isNone && s.underline.isNone && !s.reset

/-- The codes from a first to a last one that switch on effects of the style. -/
def effectsBetween (s : Style) (first last : Nat) : List Nat :=
  (Text.effects.map Prod.fst).filter fun on => first ≤ on && on ≤ last && on ∈ s.effects

/-- The codes that bring the style up. -/
def openings (s : Style) : List (List Nat) :=
  if s.isBare then []
  else
    (s.effectsBetween 1 9 ++ s.font.toList ++ s.effectsBetween 20 26).map ([·]) ++
      s.foreground.toList ++ s.background.toList ++ s.underline.toList ++
      (s.effectsBetween 51 74).map ([·])

/-- Whether a code ends a part of the style. -/
def isEndedBy (s : Style) (code : Nat) : Bool :=
  if code = 10 then s.font.isSome
  else if code = 39 then s.foreground.isSome
  else if code = 49 then s.background.isSome
  else if code = 59 then s.underline.isSome
  else s.effects.any fun on => List.lookup on Text.effects = some code

/-- The codes that end the style. With a code of unknown meaning, everything is switched off at
last, and also at first if it was before. -/
def closings (s : Style) : List (List Nat) :=
  if s.isBare then []
  else
    ((if s.unknown && s.reset then [0] else []) ++ endCodes.filter s.isEndedBy ++
      if s.unknown then [0] else []).map ([·])

end Style

/-- The control sequence for codes. -/
def sequence (codes : List Nat) : List Char :=
  ("\x1b[" ++ ";".intercalate (codes.map toString) ++ "m").toList

/-- Lets each line bring up the style that the lines before it have left on, and end its own. An
empty line stays empty. -/
def carryStyle : Style → List (List Char) → List (List Char)
  | _, [] => []
  | s, line :: rest =>
    if line.isEmpty then [] :: carryStyle s rest
    else
      let next := s.after line
      (s.openings.flatMap sequence ++ line ++ next.closings.flatMap sequence) ::
        carryStyle next rest

/-- The lines of a text that can be shown apart from each other. A text of one line is left as it
is. -/
def styledLines (cs : List Char) : List (List Char) :=
  match lines cs with
  | [line] => [line]
  | many => carryStyle {} many

/-- The number of columns that a line takes up; sequences take up none. -/
def width (cs : List Char) : Nat :=
  (parts cs).foldl (fun sum part => match part with
    | .run cs => sum + runColumns cs
    | _ => sum) 0

/-- How the text of a cell is set off. -/
inductive Paint where
  | plain
  | boldRed
  | blue
  | dim

/-- The control sequences that switch the paint on and off. -/
def Paint.marks : Paint → String × String
  | .plain => ("", "")
  | .boldRed => ("\x1b[1m\x1b[31m", "\x1b[39m\x1b[0m")
  | .blue => ("\x1b[34m", "\x1b[39m")
  | .dim => ("\x1b[2m", "\x1b[0m")

/-- The text with the paint switched on before it and off behind it. -/
def Paint.apply (paint : Paint) (text : String) : String :=
  paint.marks.1 ++ text ++ paint.marks.2

end BlueFringe.Text
