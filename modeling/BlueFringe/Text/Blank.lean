/-!
# Blank characters

The characters with the Unicode property White_Space, and the three ways in which text is cut at
them: `trim` takes them off both ends, `fields` gives the runs between them, and `lines` cuts at
line feeds alone.
-/

namespace BlueFringe.Text

/-- The characters with the property White_Space. -/
def isBlank (c : Char) : Bool :=
  let code := c.toNat
  (9 ≤ code && code ≤ 13) || code == 0x20 || code == 0x85 || code == 0xA0 || code == 0x1680 ||
    (0x2000 ≤ code && code ≤ 0x200A) || code == 0x2028 || code == 0x2029 || code == 0x202F ||
    code == 0x205F || code == 0x3000

/-- The text without the blanks at either end. -/
def trim (cs : List Char) : List Char :=
  ((cs.dropWhile isBlank).reverse.dropWhile isBlank).reverse

/-- The pieces between the characters at which the text is cut; `n` cuts give `n + 1` pieces. -/
def pieces (cut : Char → Bool) : List Char → List (List Char)
  | [] => [[]]
  | c :: cs =>
    if cut c then [] :: pieces cut cs
    else match pieces cut cs with
      | [] => [[c]]
      | piece :: rest => (c :: piece) :: rest

/-- The maximal runs without a blank. -/
def fields (cs : List Char) : List (List Char) :=
  (pieces isBlank cs).filter fun piece => !piece.isEmpty

/-- The pieces between line feeds. -/
def lines (cs : List Char) : List (List Char) :=
  pieces (· == '\n') cs

theorem pieces_ne_nil (cut : Char → Bool) (cs : List Char) : pieces cut cs ≠ [] := by
  cases cs with
  | nil => simp [pieces]
  | cons c rest =>
    simp only [pieces]
    split
    · simp
    · split <;> simp

/-- No piece holds a character at which the text is cut. -/
theorem not_cut_of_mem_pieces {cut : Char → Bool} {cs piece : List Char} {c : Char}
    (hp : piece ∈ pieces cut cs) (hc : c ∈ piece) : cut c = false := by
  induction cs generalizing piece with
  | nil => simp_all [pieces]
  | cons d rest ih =>
    simp only [pieces] at hp
    split at hp
    · rcases List.mem_cons.mp hp with rfl | later
      · simp at hc
      · exact ih later hc
    · rename_i keep
      split at hp
      · rename_i none
        exact absurd none (pieces_ne_nil cut rest)
      · rename_i head tail eq
        rcases List.mem_cons.mp hp with rfl | later
        · rcases List.mem_cons.mp hc with rfl | inHead
          · simpa using keep
          · exact ih (eq ▸ List.mem_cons_self) inHead
        · exact ih (eq ▸ List.mem_cons_of_mem _ later) hc

end BlueFringe.Text
