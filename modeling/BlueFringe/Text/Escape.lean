/-!
# Escape sequences

A text for a terminal mixes characters that are shown with sequences that tell the terminal what to
do. A sequence starts with the escape character. The character behind it decides how the sequence
goes on: a bracket opens a control sequence of parameters and a final letter, some letters open a
command with a text of its own, all others are complete sequences. A control character inside a
sequence is carried out at once, as if it were shown; it pushes the start of the sequence back. A
sequence that never completes belongs to the characters shown before it, unless another sequence is
started later.
-/

namespace BlueFringe.Text

/-- A part of a text for a terminal. -/
inductive Part where
  /-- Characters that are shown one after the other. -/
  | run (cs : List Char)
  /-- A sequence, which shows nothing; it may change the rendition of what follows. -/
  | sequence (cs : List Char) (rendition : Bool)
deriving DecidableEq

/-- The characters of a part. -/
def Part.chars : Part → List Char
  | run cs => cs
  | sequence cs _ => cs

/-- The character that starts a sequence. -/
def escapeMark : Char := '\x1b'

/-- Whether a character lies between two others. -/
def isBetween (first last c : Char) : Bool := first ≤ c && c ≤ last

/-- Whether a character calls off the sequence that it occurs in. -/
def isCancel (c : Char) : Bool := c = '\x18' || c = '\x1a'

/-- Whether a character stands between two parameters. -/
def isSeparator (c : Char) : Bool := c = ';' || c = ':'

/-- Whether a character marks a control sequence as one for a special purpose. -/
def isPurpose (c : Char) : Bool := isBetween ' ' '/' c || isBetween '<' '?' c

/-- Whether a character closes the text of a command: one of its bytes does. -/
def closesString (c : Char) : Bool := 0x9C ∈ String.utf8EncodeChar c

/-! ### Reading characters -/

/-- How far the parameters of a sequence have come. -/
inductive Phase where
  | start
  | parameters
  /-- Behind the parameters. -/
  | intermediate
deriving DecidableEq

/-- What a character is among parameters. -/
inductive Place where
  /-- It fits, and the parameters go on. -/
  | fits (phase : Phase)
  /-- It does not belong where it stands. -/
  | misplaced
  /-- It ends the parameters. -/
  | final
deriving DecidableEq

/-- Reads a printable character of ASCII among parameters. -/
def Phase.read (c : Char) (phase : Phase) : Place :=
  if isBetween ' ' '/' c then .fits .intermediate
  else if isBetween '0' '?' c then
    match phase with
    | start => .fits .parameters
    | parameters => if isBetween '<' '?' c then .misplaced else .fits .parameters
    | intermediate => .misplaced
  else .final

/-- What a terminal is in the middle of. -/
inductive Mode where
  /-- Showing characters. -/
  | print
  /-- A sequence whose kind is not known yet. -/
  | escape
  /-- A sequence that ends with the next letter. -/
  | designation
  /-- A control sequence with so many separators and characters for a special purpose. -/
  | control (phase : Phase) (separators purposes : Nat)
  /-- A control sequence with a parameter out of place, which never completes. -/
  | faulty
  /-- A command for a device, before its text. -/
  | device (phase : Phase)
  /-- A command for the system, which the bell ends. -/
  | system
  /-- The text of any other command. -/
  | string
deriving DecidableEq

/-- What reading a character leads to. -/
structure Reading where
  next : Mode
  /-- Whether the character is shown or carried out. -/
  shown : Bool := false
  /-- Whether a sequence is complete, and if so, whether it changes the rendition. -/
  complete : Option Bool := none
deriving DecidableEq

/-- Reads a printable character of ASCII inside a sequence. A control sequence has at most 32
parameters and one character for a special purpose, or else it never completes. -/
def Mode.readPrintable (c : Char) : Mode → Reading
  | print => { next := .print, shown := true }
  | escape =>
    if c = '[' then { next := .control .start 0 0 }
    else if c = ']' then { next := .system }
    else if c = 'P' then { next := .device .start }
    else if c = 'X' || c = '^' || c = '_' then { next := .string }
    else if isBetween ' ' '/' c then { next := .designation }
    else { next := .print, complete := some false }
  | designation =>
    if isBetween ' ' '/' c then { next := .designation }
    else { next := .print, complete := some false }
  | control phase separators purposes =>
    match phase.read c with
    | .fits phase =>
      { next := .control phase (separators + (isSeparator c).toNat)
          (purposes + (isPurpose c).toNat) }
    | .misplaced => { next := .faulty }
    | .final =>
      if separators < 32 && purposes < 2 then
        { next := .print, complete := some (c = 'm' && purposes = 0) }
      else { next := .print }
  | faulty => { next := if isBetween ' ' '?' c then .faulty else .print }
  | device phase =>
    match phase.read c with
    | .fits phase => { next := .device phase }
    | .misplaced | .final => { next := .string }
  | system => { next := .system }
  | string => { next := .string }

/-- Reads one character. What has no place in a sequence is kept without effect. -/
def Mode.read (c : Char) (mode : Mode) : Reading :=
  let ended := if mode = .system then some false else none
  if c = escapeMark then { next := .escape, complete := ended }
  else if mode = .print || isCancel c then { next := .print, shown := true, complete := ended }
  else if isBetween ' ' '~' c then mode.readPrintable c
  else match mode with
    | .system => if c = '\x07' then { next := .print, complete := ended } else { next := .system }
    | .device phase => { next := .device phase }
    | .string => { next := if closesString c then .print else .string }
    | _ => { next := mode, shown := c < ' ' }

/-! ### Cutting a text into parts -/

/-- The characters that fit into a number of bytes, and those behind them. -/
def splitBytes : Nat → List Char → List Char × List Char
  | _, [] => ([], [])
  | bytes, c :: cs =>
    if c.utf8Size ≤ bytes then
      let (front, back) := splitBytes (bytes - c.utf8Size) cs
      (c :: front, back)
    else ([], c :: cs)

/-- What was read but not put into a part yet. -/
structure Pending where
  /-- The characters, the last one first. -/
  chars : List Char := []
  /-- The bytes of those that were shown. -/
  shown : Nat := 0
  /-- The bytes of the sequence that was started last. -/
  started : Nat := 0
  /-- The bytes of sequences before it that were never completed. -/
  dropped : Nat := 0
deriving DecidableEq

namespace Pending

/-- Adds a character that was read. -/
def add (p : Pending) (c : Char) (shown : Bool) : Pending :=
  if c = escapeMark then
    { p with
      chars := c :: p.chars
      started := c.utf8Size
      dropped := p.dropped + p.started }
  else if shown then { p with chars := c :: p.chars, shown := p.shown + c.utf8Size }
  else { p with chars := c :: p.chars, started := p.started + c.utf8Size }

/-- The parts when a sequence has just been completed. Sequences that were started before it and
never completed are no part of it. -/
def complete (p : Pending) (rendition : Bool) : List Part :=
  let (front, rest) := splitBytes p.shown p.chars.reverse
  let (middle, back) := splitBytes p.dropped rest
  [.run front, .sequence middle false, .sequence back rendition]

/-- The parts when the text ends. Where nothing was shown, nothing is. -/
def finish (p : Pending) : List Part :=
  if p.chars.isEmpty then []
  else if p.shown = 0 then [.sequence p.chars.reverse false]
  else
    let (back, front) := splitBytes p.dropped p.chars
    .run front.reverse :: if back.isEmpty then [] else [.sequence back.reverse false]

end Pending

/-- The parts of a text, read from a mode on, with what is pending. -/
def scan : Mode → Pending → List Char → List Part
  | _, p, [] => p.finish
  | mode, p, c :: cs =>
    let reading := mode.read c
    let p := p.add c reading.shown
    match reading.complete with
    | none => scan reading.next p cs
    | some rendition => p.complete rendition ++ scan reading.next {} cs

/-- The parts of a text. -/
def parts (cs : List Char) : List Part := scan .print {} cs

end BlueFringe.Text
