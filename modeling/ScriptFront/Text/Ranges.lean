/-! # Tables of code points

A table lists closed ranges. -/

namespace ScriptFront.Text

def inRanges (ranges : List (Nat × Nat)) (n : Nat) : Bool :=
  ranges.any fun (low, high) => decide (low ≤ n ∧ n ≤ high)

end ScriptFront.Text
