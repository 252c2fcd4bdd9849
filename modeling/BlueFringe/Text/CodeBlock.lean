/-!
# Blocks of code points

A property of characters is kept as the list of the blocks of code points that have it, first and
last code point of each.
-/

namespace BlueFringe.Text

/-- Whether a character lies in one of the blocks. -/
def inBlocks (blocks : List (Nat × Nat)) (c : Char) : Bool :=
  blocks.any fun block => block.1 ≤ c.toNat && c.toNat ≤ block.2

end BlueFringe.Text
