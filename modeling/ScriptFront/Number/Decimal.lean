/-! # Decimal numerals

Digits with at most one point, read exactly. -/

namespace ScriptFront

-- a power of natural numbers is the core library's also where monoids have powers
attribute [instance (2000), default_instance 20000] instPowNat

/-- The number `digits / 10 ^ places`. -/
structure Decimal where
  digits : Nat
  places : Nat
  deriving DecidableEq, Repr

namespace Decimal

/-- The value of a run of digits; leading zeros do not count. -/
def natural (cs : List Char) : Nat := Nat.ofDigitChars 10 cs 0

/-- Digits, a point, and perhaps more digits. -/
def read (cs : List Char) : Decimal :=
  let whole := cs.takeWhile Char.isDigit
  let fraction := (cs.dropWhile Char.isDigit).drop 1
  ⟨natural (whole ++ fraction), fraction.length⟩

/-- The digits of `n / 10 ^ places` behind the point, up to the last that is not zero, for
`n < 10 ^ places`. -/
def fraction : Nat → Nat → List Char
  | 0, _ => []
  | places + 1, n =>
    if n = 0 then []
    else Nat.digitChar (n / 10 ^ places) :: fraction places (n % 10 ^ places)

/-- A decimal in full, with at least one digit on each side of its point. -/
def text (d : Decimal) : String :=
  let behind := fraction d.places (d.digits % 10 ^ d.places)
  toString (d.digits / 10 ^ d.places) ++ "." ++
    (if behind.isEmpty then "0" else String.ofList behind)

end Decimal

end ScriptFront
