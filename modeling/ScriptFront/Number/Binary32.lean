import ScriptFront.Number.Decimal

/-! # Numbers in the 32-bit binary format

A number is its bit pattern: a sign bit and 31 bits of magnitude. Magnitudes order the numbers;
below the infinite one, a magnitude of exponent field `e` and fraction field `f` stands for a whole
number of units of `2 ^ -149`. -/

namespace ScriptFront

structure Binary32 where
  bits : UInt32
  deriving DecidableEq, Repr

namespace Binary32

/-- The pattern without its sign bit. -/
def magnitude (x : Binary32) : Nat := x.bits.toNat % 2 ^ 31

def isNegative (x : Binary32) : Bool := 2 ^ 31 ≤ x.bits.toNat

/-- The magnitude of an infinity; those above are not numbers. -/
def infinite : Nat := 255 * 2 ^ 23

def isFinite (x : Binary32) : Bool := x.magnitude < infinite

def isNaN (x : Binary32) : Bool := infinite < x.magnitude

/-- Equality of numbers: the two zeros are equal, and what is not a number equals nothing. -/
def same (x y : Binary32) : Bool :=
  !x.isNaN && !y.isNaN && (x.bits = y.bits || (x.magnitude = 0 && y.magnitude = 0))

/-- How often the spacing of a magnitude doubles that of the smallest ones. -/
def scaleOf (magnitude : Nat) : Nat := magnitude / 2 ^ 23 - 1

/-- The significand: the fraction field, below the hidden bit where there is one. -/
def significandOf (magnitude : Nat) : Nat :=
  if magnitude / 2 ^ 23 = 0 then magnitude % 2 ^ 23 else magnitude % 2 ^ 23 + 2 ^ 23

/-- The quotient rounded to the nearest whole number, a half to the even one. -/
def roundQuotient (num den : Nat) : Nat :=
  let low := num / den
  let twice := 2 * (num % den)
  if twice < den ∨ (twice = den ∧ low % 2 = 0) then low else low + 1

/-- The magnitude nearest to `num / den`. A significand that rounds up to the next power of two
carries into the exponent field. -/
def nearest (num den : Nat) : Nat :=
  let units := num * 2 ^ 149
  let scale := (units / den).log2 - 23
  scale * 2 ^ 23 + roundQuotient units (den * 2 ^ scale)

/-- The number nearest to a decimal, unless that is infinite. -/
def ofDecimal? (d : Decimal) : Option Binary32 :=
  let magnitude := nearest d.digits (10 ^ d.places)
  if magnitude < infinite then some ⟨UInt32.ofNat magnitude⟩ else none

end Binary32

end ScriptFront
