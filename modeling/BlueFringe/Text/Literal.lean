import BlueFringe.Text.Unprintable

/-!
# Literals

The quoted form in which labels appear in listings: characters between single quotes, strings
between double quotes, with an escape for the quote itself, the backslash and the characters that
cannot be told apart there.
-/

namespace BlueFringe

namespace Text

/-- One character of a literal that stands between two marks `quote`. -/
def escape (quote c : Char) : String :=
  if c = '\t' then "\\t"
  else if c = '\n' then "\\n"
  else if c = '\r' then "\\r"
  else if c = '\x00' then "\\0"
  else if c = quote || c = '\\' then String.ofList ['\\', c]
  else if isUnprintable c then
    "\\u\x7b" ++ String.ofList (Nat.toDigits 16 c.toNat) ++ "\x7d"
  else String.singleton c

/-- A text between two marks `quote`, each character escaped as needed. -/
def quoted (quote : Char) (cs : List Char) : String :=
  String.singleton quote ++ String.join (cs.map (escape quote)) ++ String.singleton quote

end Text

/-- Labels that have a quoted form. -/
class Literal (β : Type) where
  /-- The quoted form. -/
  literal : β → String

export Literal (literal)

instance : Literal Char where
  literal c := Text.quoted '\x27' [c]

instance : Literal String where
  literal s := Text.quoted '\x22' s.toList

/-- Numbers need no quotes. -/
instance : Literal Nat where
  literal n := toString n

end BlueFringe
