import ScriptFront.Number.Binary32

/-! # The shortest decimal that reads back

All numbers that round to a given one fill an interval. Of the decimal grids, from coarse to fine,
the first that has a point in that interval gives the fewest digits; of its points the one nearest
to the number is taken, the upper one on a tie. -/

namespace ScriptFront

/-- The numbers that round to `value / unit`, as numerators: from `low` to `high`, with both ends
where `closed`. -/
structure Interval where
  low : Nat
  value : Nat
  high : Nat
  unit : Nat
  closed : Bool

namespace Interval

def contains (i : Interval) (n : Nat) : Bool :=
  if i.closed then i.low ≤ n * i.unit ∧ n * i.unit ≤ i.high
  else i.low < n * i.unit ∧ n * i.unit < i.high

/-- The point nearest to the value among the multiples of `step` that lie in the interval. Only
the two around the value can be nearest. -/
def onGrid? (i : Interval) (step : Nat) : Option Nat :=
  let below := i.value / (i.unit * step) * step
  let above := below + step
  match i.contains below, i.contains above with
  | true, true =>
    some (if i.value - below * i.unit < above * i.unit - i.value then below else above)
  | true, false => some below
  | false, true => some above
  | false, false => none

/-- The point on the coarsest of the grids of `10 ^ grid` and finer that has one. -/
def shortest (i : Interval) : Nat → Nat
  | 0 => (i.onGrid? 1).getD 0
  | grid + 1 =>
    match i.onGrid? (10 ^ (grid + 1)) with
    | some n => n
    | none => i.shortest grid

end Interval

namespace Binary32

/-- Decimals are sought among the multiples of `10 ^ -54`; the smallest numbers lie `10 ^ -45`
apart. -/
def decimalPlaces : Nat := 54

/-- The interval of a finite magnitude, in units of `10 ^ -54`. It reaches halfway to each
neighbour, and the ends round to an even significand. Below a power of two the numbers lie closer.
-/
def interval (magnitude : Nat) : Interval :=
  let m := significandOf magnitude
  let scaled (quarters : Nat) := quarters * 2 ^ scaleOf magnitude * 10 ^ decimalPlaces
  let gap := if magnitude % 2 ^ 23 = 0 ∧ 1 < magnitude / 2 ^ 23 then 1 else 2
  ⟨scaled (4 * m - gap), scaled (4 * m), scaled (4 * m + 2), 2 ^ 151, m % 2 = 0⟩

/-- The shortest decimal of a finite magnitude. No finite number reaches `10 ^ 39`. -/
def decimal (magnitude : Nat) : Decimal :=
  if magnitude = 0 then ⟨0, decimalPlaces⟩
  else ⟨(interval magnitude).shortest (decimalPlaces + 39), decimalPlaces⟩

/-- A number in full: never an exponent, always a point. -/
def text (x : Binary32) : String :=
  if x.isNaN then "NaN.0"
  else (if x.isNegative then "-" else "") ++
    if x.isFinite then (decimal x.magnitude).text else "inf.0"

end Binary32

end ScriptFront
