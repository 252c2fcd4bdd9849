/-!
# Text forms

Every value that appears in a message, a table or a report has one text form. A list has a form of
its own for each kind of member: characters join into one quoted word, strings into one quoted word
with blanks between them, everything else is listed in braces.
-/

namespace BlueFringe

/-- Values that have a text form. -/
class Render (β : Type) where
  /-- The text form of one value. -/
  render : β → String
  /-- The text form of a list of values. -/
  renderList : List β → String := fun xs =>
    "\x7b" ++ ", ".intercalate (xs.map render) ++ "\x7d"

export Render (render renderList)

/-- Numbers are written in decimal. -/
instance : Render Nat where
  render n := toString n

/-- A character is written as it is, a list of characters as one quoted word. -/
instance : Render Char where
  render c := String.singleton c
  renderList cs := "\"" ++ String.ofList cs ++ "\""

/-- A string is written as it is, a list of strings as one quoted word with blanks between. -/
instance : Render String where
  render s := s
  renderList words := "\"" ++ " ".intercalate words ++ "\""

/-- A flag is written as its sign. -/
instance : Render Bool where
  render flag := if flag then "+" else "-"

instance {β : Type} [Render β] : Render (List β) where
  render := renderList

instance {β γ : Type} [Render β] [Render γ] : Render (β × γ) where
  render pair := "(" ++ render pair.1 ++ ", " ++ render pair.2 ++ ")"

end BlueFringe
