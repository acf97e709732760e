import ScriptFront.Proofs.Number.Decimal
import ScriptFront.Proofs.Number.Nearest

/-! # Numbers read back

The finest grid has a point in the interval of every magnitude, so the search ends with a decimal
that rounds to the number it was made for. -/

namespace ScriptFront

namespace Interval

variable {i : Interval} {step n : Nat}

theorem contains_of_onGrid? (h : i.onGrid? step = some n) : i.contains n = true := by
  unfold onGrid? at h
  simp only at h
  split at h
  · rename_i hbelow habove
    cases h
    split
    · exact hbelow
    · exact habove
  · rename_i hbelow _
    cases h
    exact hbelow
  · rename_i _ habove
    cases h
    exact habove
  · cases h

/-- Where the interval reaches a unit above the value, the point above the value lies in it. -/
theorem isSome_onGrid?_one (hunit : 0 < i.unit) (hlow : i.low ≤ i.value)
    (hhigh : i.value + i.unit < i.high) : (i.onGrid? 1).isSome = true := by
  have habove : i.contains (i.value / (i.unit * 1) * 1 + 1) = true := by
    rw [Nat.mul_one, Nat.mul_one]
    have hsplit := Nat.div_add_mod i.value i.unit
    have hmod := Nat.mod_lt i.value hunit
    rw [Nat.mul_comm] at hsplit
    unfold contains
    rw [Nat.add_mul, Nat.one_mul]
    split <;> rw [decide_eq_true_eq] <;> omega
  unfold onGrid?
  simp only [habove]
  split <;> simp_all

theorem contains_shortest (h : (i.onGrid? 1).isSome = true) (grid : Nat) :
    i.contains (i.shortest grid) = true := by
  induction grid with
  | zero =>
    obtain ⟨n, hn⟩ := Option.isSome_iff_exists.mp h
    rw [shortest, hn]
    exact contains_of_onGrid? hn
  | succ grid ih =>
    rw [shortest]
    split
    · rename_i n hn
      exact contains_of_onGrid? hn
    · exact ih

end Interval

namespace Binary32

theorem contains_interval_shortest (magnitude grid : Nat) :
    (interval magnitude).contains ((interval magnitude).shortest grid) = true := by
  refine Interval.contains_shortest (Interval.isSome_onGrid?_one ?_ ?_ ?_) grid
  · exact Nat.pow_pos (by decide)
  · exact Nat.mul_le_mul_right _ (Nat.mul_le_mul_right _ (Nat.sub_le _ _))
  · have hscale : 1 ≤ 2 ^ scaleOf magnitude := Nat.pow_pos (by decide)
    have hunit : 2 ^ 151 < 2 * (1 * 10 ^ decimalPlaces) := by decide
    have := Nat.mul_le_mul_left 2 (Nat.mul_le_mul_right (10 ^ decimalPlaces) hscale)
    simp only [interval, Nat.add_mul, Nat.mul_assoc] at this ⊢
    omega

/-- The decimal of a magnitude rounds to it. -/
theorem nearest_decimal (magnitude : Nat) : nearest (decimal magnitude).digits
    (10 ^ (decimal magnitude).places) = magnitude := by
  unfold decimal
  split
  · rename_i hz
    subst hz
    decide
  · exact nearest_of_contains (contains_interval_shortest magnitude _)

theorem text_eq_decimal {x : Binary32} (hfinite : x.isFinite = true)
    (hsign : x.isNegative = false) : x.text = (decimal x.magnitude).text := by
  have hlt : x.magnitude < infinite := of_decide_eq_true hfinite
  have hnan : x.isNaN = false := by
    rw [isNaN, decide_eq_false_iff_not]
    omega
  simp [text, hnan, hsign, hfinite]

theorem toList_text {x : Binary32} (hfinite : x.isFinite = true) (hsign : x.isNegative = false) :
    x.text.toList =
      Nat.toDigits 10 ((decimal x.magnitude).digits / 10 ^ (decimal x.magnitude).places) ++
        '.' :: (decimal x.magnitude).behind := by
  rw [text_eq_decimal hfinite hsign, Decimal.toList_text]

/-- A finite number that is not negative is read back from its text. -/
theorem ofDecimal?_text {x : Binary32} (hfinite : x.isFinite = true)
    (hsign : x.isNegative = false) : ofDecimal? (.read x.text.toList) = some x := by
  have hmagnitude : x.magnitude = x.bits.toNat := by
    rw [isNegative, decide_eq_false_iff_not, Nat.not_le] at hsign
    exact Nat.mod_eq_of_lt hsign
  have hnearest : nearest (Decimal.read x.text.toList).digits
      (10 ^ (Decimal.read x.text.toList).places) = x.magnitude := by
    rw [text_eq_decimal hfinite hsign, ← nearest_decimal x.magnitude]
    exact nearest_eq_of_ratio (Nat.pow_pos (by decide)) (Nat.pow_pos (by decide))
      (by rw [nearest_decimal]; exact Decimal.read_text _)
  unfold ofDecimal?
  simp only [hnearest]
  rw [if_pos (of_decide_eq_true hfinite), hmagnitude, UInt32.ofNat_toNat]

end Binary32

end ScriptFront
