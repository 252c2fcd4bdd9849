import BlueFringe.Text.Emoji
import BlueFringe.Text.Extender
import BlueFringe.Text.Wide

/-!
# Display width

The number of columns that a run of characters takes up on a terminal. Most characters have a width
of their own: two for wide ones, none for those that join or follow others, one for the rest. Some
sequences are narrower or wider than their members together: emoji with modifiers, selectors and
joiners, flags, and ligatures of some scripts. A run is measured from its end, so that each
character is met together with what stands behind it.
-/

namespace BlueFringe.Text

/-! ### Single characters -/

/-- The blocks of characters with the property Default_Ignorable_Code_Point. -/
def ignorableBlocks : List (Nat × Nat) :=
  [(0xAD, 0xAD), (0x34F, 0x34F), (0x61C, 0x61C), (0x115F, 0x1160), (0x17B4, 0x17B5),
   (0x180B, 0x180F), (0x200B, 0x200F), (0x202A, 0x202E), (0x2060, 0x206F), (0x3164, 0x3164),
   (0xFE00, 0xFE0F), (0xFEFF, 0xFEFF), (0xFFA0, 0xFFA0), (0xFFF0, 0xFFF8), (0x1BCA0, 0x1BCA3),
   (0x1D173, 0x1D17A), (0xE0000, 0xE0FFF)]

/-- The Hangul vowels and final consonants, which are drawn into the syllable before them. -/
def jamoBlocks : List (Nat × Nat) := [(0x1160, 0x11FF), (0xD7B0, 0xD7C6), (0xD7CB, 0xD7FB)]

/-- Marks that are drawn around the characters behind them, and the Devanagari caret. -/
def leadingMarkBlocks : List (Nat × Nat) :=
  [(0x605, 0x605), (0x70F, 0x70F), (0x890, 0x891), (0x8E2, 0x8E2), (0xD4E, 0xD4E),
   (0xA8FA, 0xA8FA), (0x111C2, 0x111C3), (0x1193F, 0x1193F), (0x11941, 0x11941),
   (0x11A3A, 0x11A3A), (0x11A84, 0x11A89), (0x11D46, 0x11D46), (0x11F02, 0x11F02)]

/-- Whether a character takes up no column of its own. The filler that stands for a first consonant
of Hangul does, since vowels are drawn into it, and the joiner of Tifinagh does unless it joins. -/
def isWidthless (c : Char) : Bool :=
  c != '\u115F' && c != '\u2D7F' &&
    (isExtender c || inBlocks ignorableBlocks c || inBlocks jamoBlocks c ||
      inBlocks leadingMarkBlocks c)

/-- The number of columns of a character that stands alone. Two Khmer signs stand for two and three
letters. -/
def columns (c : Char) : Nat :=
  if c.toNat ≤ 0xA0 then 1
  else if isWidthless c then 0
  else if c = '\u17D8' then 3
  else if c = '\u17A4' || isWide c then 2
  else 1

/-! ### Sequences -/

/-- The letters that form ligatures with characters before them. -/
inductive Ligature where
  /-- The Hebrew lamed, with an alef before it. -/
  | lamed
  /-- The Buginese ya, with a vowel sign and an a before it. -/
  | ya
  /-- The Buginese ya with the vowel sign. -/
  | vowelYa
  /-- A Tifinagh consonant, with another one before it. -/
  | consonant
  /-- A Tifinagh consonant with the joiner of the script. -/
  | joinedConsonant
  /-- A Lisu tone letter, with another one before it. -/
  | tone
  /-- The Old Turkic i, with an ec before it. -/
  | orkhonI
  /-- A Khmer letter, with the sign before it that makes it subscript. -/
  | coeng
deriving DecidableEq

/-- What stands behind a character. -/
inductive Sequel where
  /-- Nothing that bears on the character. -/
  | nothing
  /-- A modifier of an emoji. -/
  | modifier
  /-- Half of a flag. -/
  | indicator
  /-- Several halves of flags. -/
  | indicators
  /-- An emoji. -/
  | picture
  /-- A joiner and an emoji. -/
  | joined
  /-- A keycap mark, a joiner and an emoji. -/
  | joinedKeycap
  /-- Half of a flag, a joiner and an emoji. -/
  | joinedIndicator
  /-- Whole flags, a joiner and an emoji. -/
  | joinedFlags
  /-- Half of a flag, whole flags, a joiner and an emoji. -/
  | joinedFlagsOdd
  /-- So many tag letters, the end of the tag, a joiner and an emoji. -/
  | tagLetters (count : Nat)
  /-- So many tag digits, more of a tag, a joiner and an emoji. -/
  | tagDigits (count : Nat)
  /-- An Arabic alef. -/
  | alef
  /-- A letter that forms ligatures, with or without a joiner before it. -/
  | letter (ligature : Ligature) (joiner : Bool)
deriving DecidableEq

/-- What stands behind a character, and the variation selectors that come in between. -/
structure Context where
  sequel : Sequel := .nothing
  /-- Whether a selector asks for a picture. -/
  asPicture : Bool := false
  /-- Whether a selector asks for text. -/
  asText : Bool := false
deriving DecidableEq

namespace Context

/-- Whether the sequel stays in effect across variation selectors. -/
def isLasting (next : Context) : Bool :=
  match next.sequel with
  | .alef | .letter _ _ => true
  | _ => false

/-- Whether a joiner and an emoji follow, maybe with a keycap mark. -/
def isJoined (next : Context) : Bool := next.sequel = .joined || next.sequel = .joinedKeycap

/-- Puts the selector for pictures in front. -/
def selectPicture (next : Context) : Context :=
  if next.isLasting || next.isJoined then { next with asPicture := true }
  else { asPicture := true }

/-- Puts the selector for text in front. -/
def selectText (next : Context) : Context :=
  if next.isLasting then { next with asText := true } else { asText := true }

/-- Drops a selector for pictures that has no meaning behind the character at hand. -/
def dropPicture (next : Context) : Context :=
  if !next.asPicture then next
  else if next.isLasting then { next with asPicture := false }
  else {}

end Context

/-- The joiner of zero width. -/
def joiner : Char := '\u200D'

/-- Whether a character is a Tifinagh consonant. -/
def isTifinaghConsonant (c : Char) : Bool := inBlocks [(0x2D31, 0x2D65), (0x2D6F, 0x2D6F)] c

/-- The Khmer letters that have a subscript form. -/
def coengBlocks : List (Nat × Nat) :=
  [(0x1780, 0x1782), (0x1784, 0x1787), (0x1789, 0x178C), (0x178E, 0x1793), (0x1795, 0x1798),
   (0x179B, 0x179D), (0x17A0, 0x17A0), (0x17A2, 0x17A2), (0x17A7, 0x17A7), (0x17AB, 0x17AC),
   (0x17AF, 0x17AF)]

/-- The Arabic letters of the joining group Alef. -/
def alefBlocks : List (Nat × Nat) :=
  [(0x622, 0x623), (0x625, 0x625), (0x627, 0x627), (0x671, 0x673), (0x675, 0x675),
   (0x773, 0x774), (0x870, 0x882)]

/-- The Arabic letters of the joining group Lam. -/
def lamBlocks : List (Nat × Nat) :=
  [(0x644, 0x644), (0x6B5, 0x6B8), (0x76A, 0x76A), (0x8A6, 0x8A6), (0x8C7, 0x8C7)]

/-- The characters without width that interrupt the joining of Arabic letters. -/
def interruptingBlocks : List (Nat × Nat) :=
  [(0x605, 0x605), (0x890, 0x891), (0x8E2, 0x8E2), (0x9BE, 0x9BE), (0x9D7, 0x9D7), (0xB3E, 0xB3E),
   (0xB57, 0xB57), (0xBBE, 0xBBE), (0xBD7, 0xBD7), (0xCC0, 0xCC0), (0xCC2, 0xCC2), (0xCC7, 0xCC8),
   (0xCCA, 0xCCB), (0xCD5, 0xCD6), (0xD3E, 0xD3E), (0xD4E, 0xD4E), (0xD57, 0xD57), (0xDCF, 0xDCF),
   (0xDDF, 0xDDF), (0x1160, 0x11FF), (0x180E, 0x180E), (0x1B35, 0x1B35), (0x1B3B, 0x1B3B),
   (0x1B3D, 0x1B3D), (0x1B43, 0x1B43), (0x200C, 0x200D), (0x2065, 0x2069), (0x302E, 0x302F),
   (0x3164, 0x3164), (0xA8FA, 0xA8FA), (0xD7B0, 0xD7C6), (0xD7CB, 0xD7FB), (0xFF9E, 0xFFA0),
   (0xFFF0, 0xFFF8), (0x111C2, 0x111C3), (0x1133E, 0x1133E), (0x11357, 0x11357), (0x114B0, 0x114B0),
   (0x114BD, 0x114BD), (0x115AF, 0x115AF), (0x11930, 0x11930), (0x1193F, 0x1193F),
   (0x11941, 0x11941), (0x11A3A, 0x11A3A), (0x11A84, 0x11A89), (0x11D46, 0x11D46),
   (0x11F02, 0x11F02), (0x1D165, 0x1D165), (0x1D16E, 0x1D172), (0xE0000, 0xE0000),
   (0xE0002, 0xE001F), (0xE0080, 0xE00FF), (0xE01F0, 0xE0FFF)]

/-- The marks that nothing shows of; they do not come between the parts of a ligature. -/
def silentMarkBlocks : List (Nat × Nat) :=
  [(0x34F, 0x34F), (0x17B4, 0x17B5), (0x180B, 0x180D), (0x180F, 0x180F), (0xFE00, 0xFE0F),
   (0xE0100, 0xE01EF)]

/-- Whether a character is a letter of a tag. -/
def isTagLetter (c : Char) : Bool := inBlocks [(0xE0061, 0xE007A)] c

/-- Whether a character is a digit of a tag. -/
def isTagDigit (c : Char) : Bool := inBlocks [(0xE0030, 0xE0039)] c

/-- What a character is to the one before it, as long as nothing behind it matters. -/
def sequelOf (c : Char) : Sequel :=
  if isModifier c then .modifier
  else if isIndicator c then .indicator
  else if isPicture c then .picture
  else if inBlocks alefBlocks c then .alef
  else if c = '\u05DC' then .letter .lamed false
  else if c = '\u1A10' then .letter .ya false
  else if isTifinaghConsonant c then .letter .consonant false
  else if c = '\uA4FC' || c = '\uA4FD' then .letter .tone false
  else if c.toNat = 0x10C03 then .letter .orkhonI false
  else if inBlocks coengBlocks c then .letter .coeng false
  else .nothing

/-- The columns that a character adds to a letter behind it with which it forms a ligature, and
what the two are to the character before. -/
def ligate (c : Char) : Ligature → Bool → Option (Int × Sequel)
  | .lamed, true => if c = '\u05D0' then some (0, .nothing) else none
  | .ya, true => if c = '\u1A17' then some (0, .letter .vowelYa true) else none
  | .vowelYa, _ => if c = '\u1A15' then some (0, .nothing) else none
  | .consonant, joined =>
    if c = '\u2D7F' then some (1, .letter .joinedConsonant true)
    else if joined && isTifinaghConsonant c then some (0, .nothing)
    else none
  | .joinedConsonant, _ => if isTifinaghConsonant c then some (-1, .nothing) else none
  | .tone, _ => if inBlocks [(0xA4F8, 0xA4FB)] c then some (0, .nothing) else none
  | .orkhonI, true => if c.toNat = 0x10C32 then some (0, .nothing) else none
  | .coeng, _ => if c = '\u17D2' then some (-1, .nothing) else none
  | _, _ => none

/-- The columns that a character adds to a sequel with which it forms a unit, and what the two are
to the character before. -/
def combine (c : Char) : Sequel → Option (Int × Sequel)
  | .modifier =>
    if isModifiable c then some (0, .picture)
    else if c = joiner then some (0, .joined)
    else none
  | .indicator => if isIndicator c then some (1, .indicators) else none
  | .indicators =>
    if isIndicator c then some (1, .indicators)
    else if c = joiner then some (0, .joined)
    else none
  | .picture => if c = joiner then some (0, .joined) else none
  | .joined =>
    if c = '\u20E3' then some (0, .joinedKeycap)
    else if isIndicator c then some (1, .joinedIndicator)
    else if isModifier c then some (0, .modifier)
    else if c.toNat = 0xE007F then some (0, .tagLetters 0)
    else if isPicture c then some (0, .picture)
    else none
  | .joinedIndicator => if isIndicator c then some (-1, .joinedFlags) else none
  | .joinedFlags =>
    if isIndicator c then some (3, .joinedFlagsOdd)
    else if c = joiner then some (0, .joined)
    else none
  | .joinedFlagsOdd =>
    if isIndicator c then some (-1, .joinedFlags)
    else if c = joiner then some (0, .joined)
    else none
  | .tagLetters count =>
    if isTagLetter c && count < 6 then some (0, .tagLetters (count + 1))
    else if isTagDigit c && count < 5 then some (0, .tagDigits 1)
    else if c.toNat = 0x1F3F4 && 3 ≤ count then some (0, .picture)
    else none
  | .tagDigits count =>
    if isTagDigit c && count < 3 then some (0, .tagDigits (count + 1))
    else if c.toNat = 0x1F3F4 && count = 3 then some (0, .picture)
    else none
  | .alef =>
    if inBlocks lamBlocks c then some (0, .nothing)
    else if isWidthless c && !inBlocks interruptingBlocks c then some (0, .alef)
    else none
  | .letter ligature joined =>
    if c = joiner then some (0, .letter ligature true)
    else if inBlocks silentMarkBlocks c then some (0, .letter ligature joined)
    else ligate c ligature joined
  | .joinedKeycap | .nothing => none

/-- The columns that a character adds to what stands behind it, and the context of the character
before. -/
def precede (c : Char) (next : Context) : Int × Context :=
  if next.asPicture && isVariable c then (if next.isJoined then 0 else 2, { sequel := .picture })
  else if c.toNat ≤ 0xA0 then (1, {})
  else
    let next := next.dropPicture
    if c = '\uFE0F' then (0, next.selectPicture)
    else if c = '\uFE0E' then (0, next.selectText)
    else if next.asText && isVariable c && isPicture c && !inBlocks [(0x1F200, 0x1F2FF)] c then
      (1, {})
    else match combine c next.sequel with
      | some (more, sequel) => (more, { sequel })
      | none => (columns c, { sequel := sequelOf c })

/-- The columns of a run, and the context of a character before it. -/
def measure : List Char → Int × Context
  | [] => (0, {})
  | c :: cs =>
    let (sum, next) := measure cs
    let (more, context) := precede c next
    (sum + more, context)

/-- The number of columns of a run of characters. -/
def runColumns (cs : List Char) : Nat := (measure cs).1.toNat

end BlueFringe.Text
