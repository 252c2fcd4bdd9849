import BlueFringe.Random.Draws

/-!
# A generator

The wyrand generator: a counter of 64 bits moves on by an odd step, and the two halves of a
product of 128 bits are combined to the result. The counter runs through all its values before one
comes again.
-/

namespace BlueFringe

/-- The state of the generator. -/
structure Wyrand where
  state : UInt64
deriving DecidableEq

namespace Wyrand

/-- The upper 64 bits of a product. -/
def high (x y : UInt64) : UInt64 := .ofNat (x.toNat * y.toNat / UInt64.size)

/-- The next 64 bits. -/
def next (g : Wyrand) : UInt64 × Wyrand :=
  let state := g.state + 0x2d358dccaa6c78a5
  let factor := state ^^^ 0x8bb84b93962eacc9
  (state * factor ^^^ high state factor, ⟨state⟩)

/-- The next bits that a test lets pass. The bound is the number of draws that fail before the
test no longer counts. -/
def nextPassing (passes : UInt64 → Bool) : Nat → Wyrand → UInt64 × Wyrand
  | 0, g => g.next
  | bound + 1, g =>
    let (bits, g) := g.next
    if passes bits then (bits, g) else nextPassing passes bound g

/-- After so many draws every state of the generator has occurred. -/
def period : Nat := UInt64.size

/-- The upper 63 bits as a number from zero to one; rounding can give one itself. -/
def fraction (bits : UInt64) : Float := (bits >>> 1).toFloat.scaleB (-63)

/-- A number below one. -/
def unit (g : Wyrand) : Float × Wyrand :=
  let (bits, g) := g.nextPassing (fun bits => fraction bits < 1) period
  (fraction bits, g)

/-- Whether the bits lead to a fair index below `n`. The lowest products are left out, so that all
indices have the same number of bits that lead to them. -/
def isFair (n : Nat) (bits : UInt64) : Bool :=
  UInt64.size % n ≤ bits.toNat * n % UInt64.size

/-- An index up to and including a bound. -/
def indexUpTo (bound : Nat) (g : Wyrand) : Fin (bound + 1) × Wyrand :=
  let (bits, g) := g.nextPassing (isFair (bound + 1)) period
  (Fin.ofNat (bound + 1) (bits.toNat * (bound + 1) / UInt64.size), g)

instance : Draws Wyrand where
  chance probability g :=
    let (x, g) := g.unit
    (x < probability, g)
  flip g :=
    let (bits, g) := g.next
    (bits &&& 1 == 0, g)
  index bound g := g.indexUpTo bound

end Wyrand

end BlueFringe
