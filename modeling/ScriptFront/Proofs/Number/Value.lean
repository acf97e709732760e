import Mathlib.Algebra.Order.Ring.Rat
import Mathlib.Data.Nat.Digits.Defs
import Mathlib.Tactic.Linarith
import Mathlib.Tactic.NormNum
import Mathlib.Tactic.Positivity
import ScriptFront.Proofs.Number.Decimal
import ScriptFront.Proofs.Number.Nearest

/-! # The nearest number

A magnitude stands for a whole number of units of `2 ^ -149`, and the next magnitude for the next
number there is. Rounding takes a ratio to the number whose midpoints with its two neighbours lie
around it, so no other number is nearer. -/

namespace ScriptFront

namespace Binary32

variable {num den units m : Nat}

/-- The units a magnitude stands for. The infinite one stands for the power of two behind the
largest finite number. -/
def unitsOf (magnitude : Nat) : Nat := significandOf magnitude * 2 ^ scaleOf magnitude

/-- The next number lies one spacing further on. -/
theorem unitsOf_succ (m : Nat) : unitsOf (m + 1) = unitsOf m + 2 ^ scaleOf m := by
  unfold unitsOf
  by_cases hcarry : (m + 1) / 2 ^ 23 = m / 2 ^ 23
  · have hscale : scaleOf (m + 1) = scaleOf m := by
      unfold scaleOf
      rw [hcarry]
    have hsignificand : significandOf (m + 1) = significandOf m + 1 := by
      unfold significandOf
      rw [hcarry]
      split <;> omega
    rw [hscale, hsignificand, Nat.succ_mul]
  · have hfield : (m + 1) / 2 ^ 23 = m / 2 ^ 23 + 1 := by omega
    have hsignificand : significandOf (m + 1) = 2 ^ 23 := by
      unfold significandOf
      rw [hfield]
      split <;> omega
    by_cases hzero : m / 2 ^ 23 = 0
    · have hscale : scaleOf (m + 1) = 0 ∧ scaleOf m = 0 := by
        unfold scaleOf
        omega
      have hlast : significandOf m = 2 ^ 23 - 1 := by
        unfold significandOf
        rw [if_pos hzero]
        omega
      rw [hscale.1, hscale.2, hsignificand, hlast]
    · have hscale : scaleOf (m + 1) = scaleOf m + 1 := by
        unfold scaleOf
        omega
      have hlast : significandOf m = 2 ^ 24 - 1 := by
        unfold significandOf
        rw [if_neg hzero]
        omega
      rw [hscale, hsignificand, hlast, Nat.pow_succ]
      omega

theorem unitsOf_strictMono : StrictMono unitsOf :=
  strictMono_nat_of_lt_succ fun m => by
    rw [unitsOf_succ]
    exact Nat.lt_add_of_pos_right (Nat.pow_pos (by decide))

/-- A significand of 24 bits is told apart from the scale it stands behind. -/
theorem fields_mul_add {s r : Nat} (hr : r < 2 ^ 24) (hs : 0 < s → 2 ^ 23 ≤ r) :
    scaleOf (s * 2 ^ 23 + r) = s ∧ significandOf (s * 2 ^ 23 + r) = r := by
  have hfield : (s * 2 ^ 23 + r) / 2 ^ 23 = s + r / 2 ^ 23 := by omega
  unfold scaleOf significandOf
  rw [hfield]
  split <;> omega

/-- A significand that carries into the next scale stands for the same number there. -/
theorem unitsOf_mul_add {s r : Nat} (hr : r ≤ 2 ^ 24) (hs : 0 < s → 2 ^ 23 ≤ r) :
    unitsOf (s * 2 ^ 23 + r) = r * 2 ^ s := by
  rcases Nat.lt_or_eq_of_le hr with hr | rfl
  · obtain ⟨hscale, hsignificand⟩ := fields_mul_add hr hs
    rw [unitsOf, hscale, hsignificand]
  · have hcarry : s * 2 ^ 23 + 2 ^ 24 = (s + 1) * 2 ^ 23 + 2 ^ 23 := by omega
    obtain ⟨hscale, hsignificand⟩ :=
      fields_mul_add (s := s + 1) (r := 2 ^ 23) (by decide) fun _ => Nat.le_refl _
    have hdouble : 2 ^ (s + 1) = 2 * 2 ^ s := Nat.pow_succ'
    rw [hcarry, unitsOf, hscale, hsignificand, hdouble]
    omega

theorem roundQuotient_spec (num : Nat) (hden : 0 < den) :
    let r := roundQuotient num den
    2 * r * den ≤ 2 * num + den ∧ 2 * num ≤ (2 * r + 1) * den ∧
      (r % 2 = 0 ∨ (2 * r * den < 2 * num + den ∧ 2 * num < (2 * r + 1) * den)) := by
  have hsplit := Nat.div_add_mod num den
  have hmod := Nat.mod_lt num hden
  unfold roundQuotient
  simp only
  rw [Nat.mul_comm] at hsplit
  generalize num / den = low at *
  split
  · simp only [Nat.add_mul, Nat.mul_assoc, Nat.one_mul]
    omega
  · simp only [Nat.add_mul, Nat.mul_assoc, Nat.mul_add, Nat.one_mul]
    omega

/-- Where units lie between the midpoints of a magnitude with its neighbours, and on one of them
only if the magnitude is even. -/
structure Between (units den m : Nat) : Prop where
  low : ∀ k, k + 1 = m → (unitsOf k + unitsOf m) * den ≤ 2 * units
  high : 2 * units ≤ (unitsOf m + unitsOf (m + 1)) * den
  odd : m % 2 = 1 → (∀ k, k + 1 = m → (unitsOf k + unitsOf m) * den < 2 * units) ∧
    2 * units < (unitsOf m + unitsOf (m + 1)) * den

/-- The rounded significand has 24 bits or carries, and above the first scale it has them all. -/
theorem significand_of_scale (units : Nat) (hden : 0 < den) :
    let s := (units / den).log2 - 23
    units < 2 ^ 24 * (den * 2 ^ s) ∧ (0 < s → 2 ^ 23 * (den * 2 ^ s) ≤ units) := by
  simp only
  have hspacing (k s : Nat) : 2 ^ k * (den * 2 ^ s) = 2 ^ (k + s) * den := by
    rw [Nat.pow_add, Nat.mul_assoc, Nat.mul_comm den]
  rw [hspacing, hspacing]
  constructor
  · rw [← Nat.div_lt_iff_lt_mul hden]
    refine Nat.lt_of_lt_of_le Nat.lt_log2_self (Nat.pow_le_pow_right (by decide) ?_)
    omega
  · intro hs
    rw [← Nat.le_div_iff_mul_le hden]
    have hne : units / den ≠ 0 := by
      intro hzero
      rw [hzero] at hs
      exact absurd hs (by decide)
    refine Nat.le_trans (Nat.pow_le_pow_right (by decide) ?_) (Nat.log2_self_le hne)
    omega

/-- So does the significand that is rounded. -/
theorem roundQuotient_of_scale (units : Nat) (hden : 0 < den) :
    let s := (units / den).log2 - 23
    let r := roundQuotient units (den * 2 ^ s)
    r ≤ 2 ^ 24 ∧ (0 < s → 2 ^ 23 ≤ r) := by
  obtain ⟨hupper, hlower⟩ := significand_of_scale units hden
  simp only
  generalize (units / den).log2 - 23 = s at *
  have hspacing : 0 < den * 2 ^ s := Nat.mul_pos hden (Nat.pow_pos (by decide))
  obtain ⟨hlow, hhigh, -⟩ := roundQuotient_spec units hspacing
  generalize roundQuotient units (den * 2 ^ s) = r at *
  constructor
  · by_contra hlarge
    have := Nat.mul_le_mul_right (den * 2 ^ s) (show 2 * (2 ^ 24 + 1) ≤ 2 * r by omega)
    omega
  · intro hs
    by_contra hsmall
    have := Nat.mul_le_mul_right (den * 2 ^ s) (show 2 * r + 1 ≤ 2 ^ 24 - 1 by omega)
    have := hlower hs
    omega

section Neighbours

variable {s r k : Nat}

theorem unitsOf_mul_den (hr : r ≤ 2 ^ 24) (hs : 0 < s → 2 ^ 23 ≤ r) :
    unitsOf (s * 2 ^ 23 + r) * den = r * (den * 2 ^ s) := by
  rw [unitsOf_mul_add hr hs, Nat.mul_assoc, Nat.mul_comm den]

/-- The next number lies at least one spacing further on. -/
theorem le_unitsOf_succ (hr : r ≤ 2 ^ 24) (hs : 0 < s → 2 ^ 23 ≤ r) :
    r * (den * 2 ^ s) + den * 2 ^ s ≤ unitsOf (s * 2 ^ 23 + r + 1) * den := by
  have hscale : s ≤ scaleOf (s * 2 ^ 23 + r) := by
    unfold scaleOf
    omega
  rw [unitsOf_succ, Nat.add_mul, unitsOf_mul_den hr hs, Nat.mul_comm _ den]
  exact Nat.add_le_add_left
    (Nat.mul_le_mul_left den (Nat.pow_le_pow_right (by decide) hscale)) _

/-- The number before lies one spacing back, or less where the spacing halves below a power of
two. -/
theorem unitsOf_pred_le (hden : 0 < den) (hr : r ≤ 2 ^ 24) (hs : 0 < s → 2 ^ 23 ≤ r)
    (hk : k + 1 = s * 2 ^ 23 + r) :
    unitsOf k * den + den * 2 ^ s ≤ r * (den * 2 ^ s) ∨
      0 < s ∧ r = 2 ^ 23 ∧ unitsOf k * den < r * (den * 2 ^ s) := by
  have hstep := congrArg (· * den) (unitsOf_succ k)
  simp only [hk, Nat.add_mul, unitsOf_mul_den hr hs] at hstep
  rcases Nat.lt_or_ge (scaleOf k) s with hbelow | hbelow
  · have hpower : r = 2 ^ 23 := by
      have := hs (Nat.zero_lt_of_lt hbelow)
      unfold scaleOf at hbelow
      omega
    have : 0 < 2 ^ scaleOf k * den := Nat.mul_pos (Nat.pow_pos (by decide)) hden
    exact .inr ⟨Nat.zero_lt_of_lt hbelow, hpower, by omega⟩
  · have := Nat.mul_le_mul_left den (Nat.pow_le_pow_right (show 0 < 2 by decide) hbelow)
    rw [Nat.mul_comm den (2 ^ scaleOf k)] at this
    exact .inl (by omega)

end Neighbours

/-- The number that units round to lies nearest to them. -/
theorem between_of_round (units : Nat) (hden : 0 < den) :
    let s := (units / den).log2 - 23
    Between units den (s * 2 ^ 23 + roundQuotient units (den * 2 ^ s)) := by
  obtain ⟨-, hlower⟩ := significand_of_scale units hden
  obtain ⟨hr, hs⟩ := roundQuotient_of_scale units hden
  simp only
  generalize (units / den).log2 - 23 = s at *
  obtain ⟨hlow, hhigh, heven⟩ :=
    roundQuotient_spec units (Nat.mul_pos hden (Nat.pow_pos (n := s) (show 0 < 2 by decide)))
  generalize roundQuotient units (den * 2 ^ s) = r at *
  have htwice : 2 * (r * (den * 2 ^ s)) = 2 * r * (den * 2 ^ s) := (Nat.mul_assoc _ _ _).symm
  have hpred (k : Nat) (hk : k + 1 = s * 2 ^ 23 + r) :
      (unitsOf k + unitsOf (s * 2 ^ 23 + r)) * den ≤ 2 * units ∧
        (r % 2 = 1 → (unitsOf k + unitsOf (s * 2 ^ 23 + r)) * den < 2 * units) := by
    rw [Nat.add_mul, unitsOf_mul_den hr hs]
    rcases unitsOf_pred_le hden hr hs hk with hle | ⟨hpos, rfl, hlt⟩
    · omega
    · -- no units of this scale are rounded up to the power of two below it
      have := hlower hpos
      omega
  have hsucc : (2 * r + 1) * (den * 2 ^ s) ≤
      (unitsOf (s * 2 ^ 23 + r) + unitsOf (s * 2 ^ 23 + r + 1)) * den := by
    have : r * (den * 2 ^ s) + den * 2 ^ s ≤ _ := le_unitsOf_succ hr hs
    rw [Nat.add_mul, Nat.add_mul, unitsOf_mul_den hr hs, Nat.one_mul]
    omega
  refine ⟨fun k hk => (hpred k hk).1, by omega, fun hodd => ⟨fun k hk => ?_, ?_⟩⟩
  · exact (hpred k hk).2 (by omega)
  · omega

theorem between_nearest (num : Nat) (hden : 0 < den) :
    Between (num * 2 ^ 149) den (nearest num den) :=
  between_of_round (num * 2 ^ 149) hden

/-- Halfway between the largest finite number and the one that would be next. -/
theorem unitsOf_infinite : unitsOf (infinite - 1) + unitsOf infinite =
    2 * ((2 ^ 128 - 2 ^ 103) * 2 ^ 149) := by
  decide

/-- Rounding stays finite up to halfway between the largest finite number and `2 ^ 128`. -/
theorem nearest_lt_infinite_iff (num : Nat) (hden : 0 < den) :
    nearest num den < infinite ↔ num < (2 ^ 128 - 2 ^ 103) * den := by
  obtain ⟨hlow, hhigh, hodd⟩ := between_nearest num hden
  generalize nearest num den = m at *
  constructor
  · intro hm
    have hlt : 2 * (num * 2 ^ 149) < (unitsOf (infinite - 1) + unitsOf infinite) * den := by
      rcases Nat.eq_or_lt_of_le (Nat.le_sub_one_of_lt hm) with rfl | hm
      · exact (hodd (by decide)).2
      · have hlast := unitsOf_strictMono hm
        have hnext := unitsOf_strictMono (Nat.add_lt_of_lt_sub hm)
        exact Nat.lt_of_le_of_lt hhigh
          (Nat.mul_lt_mul_of_pos_right (Nat.add_lt_add hlast hnext) hden)
    rw [unitsOf_infinite] at hlt
    omega
  · intro hnum
    by_contra hm
    obtain ⟨k, rfl⟩ : ∃ k, m = k + 1 := ⟨m - 1, by unfold infinite at hm; omega⟩
    have hlast := unitsOf_strictMono.monotone (show infinite - 1 ≤ k by omega)
    have hnext := unitsOf_strictMono.monotone (Nat.le_of_not_lt hm)
    have hle := Nat.le_trans (Nat.mul_le_mul_right den (Nat.add_le_add hlast hnext)) (hlow k rfl)
    rw [unitsOf_infinite] at hle
    omega

/-- The number a pattern stands for, if it is finite. -/
def toRat (x : Binary32) : ℚ :=
  (if x.isNegative then -1 else 1) * (unitsOf x.magnitude / 2 ^ 149)

/-- No other finite number is nearer, and of two that are nearest this is the even one. -/
structure IsNearest (q : ℚ) (x : Binary32) : Prop where
  isFinite : x.isFinite = true
  le : ∀ y : Binary32, y.isFinite = true → |q - x.toRat| ≤ |q - y.toRat|
  even : ∀ y : Binary32, y.isFinite = true → |q - x.toRat| = |q - y.toRat| →
    y.toRat ≠ x.toRat → significandOf x.magnitude % 2 = 0

section Distance

variable {q a b : ℚ}

/-- The midpoint of two numbers lies between `q` and the one that is further off. -/
def Nearer (q a b : ℚ) : Prop := b < a ∧ a + b ≤ 2 * q ∨ a < b ∧ 2 * q ≤ a + b

theorem Nearer.abs_le (h : Nearer q a b) : |q - a| ≤ |q - b| := by
  rcases h with ⟨hlt, hmid⟩ | ⟨hlt, hmid⟩
  · exact (abs_sub_le_iff.mpr ⟨by linarith, by linarith⟩).trans (le_abs_self (q - b))
  · exact (abs_sub_le_iff.mpr ⟨by linarith, by linarith⟩).trans (neg_le_abs (q - b))

theorem Nearer.ne (h : Nearer q a b) (hne : a + b ≠ 2 * q) : |q - a| ≠ |q - b| := by
  intro heq
  rcases abs_eq_abs.mp heq with heq | heq
  · have hab : a = b := by linarith
    rcases h with ⟨hlt, -⟩ | ⟨hlt, -⟩
    · exact absurd hab hlt.ne'
    · exact absurd hab hlt.ne
  · exact hne (by linarith)

end Distance

section Rounded

variable {a b k : Nat}

theorem mid_le_iff (hden : 0 < den) : (a / 2 ^ 149 + b / 2 ^ 149 : ℚ) ≤ 2 * (num / den) ↔
    (a + b) * den ≤ 2 * (num * 2 ^ 149) := by
  have hden' : (0 : ℚ) < den := Nat.cast_pos.mpr hden
  rw [← add_div, ← mul_div_assoc, div_le_div_iff₀ (by positivity) hden', mul_assoc]
  norm_cast

theorem le_mid_iff (hden : 0 < den) : 2 * (num / den : ℚ) ≤ a / 2 ^ 149 + b / 2 ^ 149 ↔
    2 * (num * 2 ^ 149) ≤ (a + b) * den := by
  have hden' : (0 : ℚ) < den := Nat.cast_pos.mpr hden
  rw [← add_div, ← mul_div_assoc, div_le_div_iff₀ hden' (by positivity), mul_assoc]
  norm_cast

/-- Every other magnitude stands for a number on the other side of a midpoint. -/
theorem Between.cases (h : Between units den m) (hk : k ≠ m) :
    k < m ∧ (unitsOf m + unitsOf k) * den ≤ 2 * units ∧
        (m % 2 = 1 → (unitsOf m + unitsOf k) * den < 2 * units) ∨
      m < k ∧ 2 * units ≤ (unitsOf m + unitsOf k) * den ∧
        (m % 2 = 1 → 2 * units < (unitsOf m + unitsOf k) * den) := by
  rcases Nat.lt_or_gt_of_ne hk with hlt | hlt
  · obtain ⟨j, rfl⟩ : ∃ j, m = j + 1 := ⟨m - 1, by omega⟩
    have hmono := unitsOf_strictMono.monotone (Nat.le_of_lt_succ hlt)
    have hmul := Nat.mul_le_mul_right den (Nat.add_le_add_right hmono (unitsOf (j + 1)))
    rw [Nat.add_comm (unitsOf (j + 1))]
    exact .inl ⟨hlt, hmul.trans (h.low j rfl),
      fun hodd => Nat.lt_of_le_of_lt hmul ((h.odd hodd).1 j rfl)⟩
  · have hmono := unitsOf_strictMono.monotone (Nat.succ_le_of_lt hlt)
    have hmul := Nat.mul_le_mul_right den (Nat.add_le_add_left hmono (unitsOf m))
    exact .inr ⟨hlt, h.high.trans hmul, fun hodd => Nat.lt_of_lt_of_le (h.odd hodd).2 hmul⟩

theorem unitsOf_div_lt (h : a < b) : (unitsOf a / 2 ^ 149 : ℚ) < unitsOf b / 2 ^ 149 := by
  have hunits : (unitsOf a : ℚ) < unitsOf b := Nat.cast_lt.mpr (unitsOf_strictMono h)
  exact div_lt_div_of_pos_right hunits (by positivity)

/-- Every other magnitude stands for a number that is further off. -/
theorem nearer_of_between (hden : 0 < den) (h : Between (num * 2 ^ 149) den m) (hk : k ≠ m) :
    Nearer ((num : ℚ) / den) (unitsOf m / 2 ^ 149) (unitsOf k / 2 ^ 149) ∧
      (m % 2 = 1 → (unitsOf m / 2 ^ 149 + unitsOf k / 2 ^ 149 : ℚ) ≠ 2 * (num / den)) := by
  rcases h.cases hk with ⟨hkm, hmid, hodd⟩ | ⟨hkm, hmid, hodd⟩
  · refine ⟨.inl ⟨unitsOf_div_lt hkm, (mid_le_iff hden).mpr hmid⟩, fun hm heq => ?_⟩
    exact absurd ((le_mid_iff hden).mp heq.ge) (Nat.not_le_of_lt (hodd hm))
  · refine ⟨.inr ⟨unitsOf_div_lt hkm, (le_mid_iff hden).mpr hmid⟩, fun hm heq => ?_⟩
    exact absurd ((mid_le_iff hden).mp heq.le) (Nat.not_le_of_lt (hodd hm))

theorem toRat_of_not_isNegative {x : Binary32} (h : x.isNegative = false) :
    x.toRat = unitsOf x.magnitude / 2 ^ 149 := by
  rw [toRat, h]
  norm_num

theorem toRat_of_isNegative {x : Binary32} (h : x.isNegative = true) :
    x.toRat = -(unitsOf x.magnitude / 2 ^ 149) := by
  rw [toRat, h]
  norm_num

/-- What rounds to a number is at least half of it. -/
theorem le_of_between (hden : 0 < den) (h : Between (num * 2 ^ 149) den m) :
    (unitsOf m / 2 ^ 149 : ℚ) ≤ 2 * (num / den) ∧
      (m % 2 = 1 → (unitsOf m / 2 ^ 149 : ℚ) ≠ 2 * (num / den)) := by
  have hzero : (unitsOf 0 / 2 ^ 149 : ℚ) = 0 := by
    rw [show unitsOf 0 = 0 from rfl, Nat.cast_zero, zero_div]
  rcases Nat.eq_zero_or_pos m with rfl | hm
  · rw [hzero]
    exact ⟨by positivity, nofun⟩
  · obtain ⟨hnearer, hodd⟩ := nearer_of_between hden h (Nat.ne_of_lt hm)
    rw [hzero] at hnearer hodd
    rw [add_zero] at hodd
    rcases hnearer with ⟨-, hmid⟩ | ⟨hlt, -⟩
    · exact ⟨by linarith, hodd⟩
    · exact absurd hlt (not_lt_of_ge (by positivity))

/-- Every other number, of either sign, is further off than the one that rounding comes to. -/
theorem nearer_of_nearest (num : Nat) (hden : 0 < den) {x y : Binary32}
    (hsign : x.isNegative = false) (hx : x.magnitude = nearest num den) (hy : y.toRat ≠ x.toRat) :
    Nearer ((num : ℚ) / den) x.toRat y.toRat ∧
      (x.magnitude % 2 = 1 → x.toRat + y.toRat ≠ 2 * (num / den)) := by
  have hbetween := between_nearest num hden
  rw [← hx] at hbetween
  have hxrat := toRat_of_not_isNegative hsign
  cases hysign : y.isNegative with
  | false =>
    have hyrat := toRat_of_not_isNegative hysign
    have hmagnitude : y.magnitude ≠ x.magnitude := by
      intro heq
      rw [hyrat, hxrat, heq] at hy
      exact hy rfl
    rw [hxrat, hyrat]
    exact nearer_of_between hden hbetween hmagnitude
  | true =>
    have hyrat : y.toRat ≤ 0 := by
      rw [toRat_of_isNegative hysign, Left.neg_nonpos_iff]
      positivity
    have hxpos : 0 ≤ x.toRat := by
      rw [hxrat]
      positivity
    obtain ⟨hle, hodd⟩ := le_of_between hden hbetween
    rw [← hxrat] at hle hodd
    refine ⟨.inl ⟨lt_of_le_of_ne (hyrat.trans hxpos) hy, by linarith⟩, fun hm heq => ?_⟩
    exact hodd hm (by linarith)

/-- A number that rounding comes to is the nearest one. -/
theorem isNearest_of_nearest (num : Nat) (hden : 0 < den) {x : Binary32}
    (hfinite : x.isFinite = true) (hsign : x.isNegative = false)
    (hx : x.magnitude = nearest num den) : IsNearest ((num : ℚ) / den) x := by
  refine ⟨hfinite, fun y _ => ?_, fun y _ heq hy => ?_⟩
  · by_cases hy : y.toRat = x.toRat
    · rw [hy]
    · exact (nearer_of_nearest num hden hsign hx hy).1.abs_le
  · obtain ⟨hdistance, hodd⟩ := nearer_of_nearest num hden hsign hx hy
    have hparity := scaleOf_mul_add x.magnitude
    by_contra hsignificand
    exact hdistance.ne (hodd (by omega)) heq

end Rounded

section Unique

variable {q : ℚ} {x y : Binary32}

theorem eq_of_magnitude (hx : x.isNegative = false) (hy : y.isNegative = false)
    (h : x.magnitude = y.magnitude) : x = y := by
  rw [isNegative, decide_eq_false_iff_not, Nat.not_le] at hx hy
  rw [magnitude, magnitude, Nat.mod_eq_of_lt hx, Nat.mod_eq_of_lt hy] at h
  cases x
  cases y
  exact congrArg mk (UInt32.toNat_inj.mp h)

theorem toRat_lt_toRat (hx : x.isNegative = false) (hy : y.isNegative = false)
    (h : x.magnitude < y.magnitude) : x.toRat < y.toRat := by
  rw [toRat_of_not_isNegative hx, toRat_of_not_isNegative hy]
  exact unitsOf_div_lt h

/-- Of two numbers at one distance either one is odd or a third lies between them. -/
theorem IsNearest.not_lt (hx : x.IsNearest q) (hy : y.IsNearest q) (hxs : x.isNegative = false)
    (hys : y.isNegative = false) : ¬x.magnitude < y.magnitude := by
  intro hlt
  have hxy := toRat_lt_toRat hxs hys hlt
  have hdistance := le_antisymm (hx.le y hy.isFinite) (hy.le x hx.isFinite)
  have hmid : x.toRat + y.toRat = 2 * q := by
    rcases abs_eq_abs.mp hdistance with heq | heq <;> linarith
  obtain ⟨z, hz, hzs, hxz, hzy⟩ : ∃ z : Binary32, z.isFinite = true ∧ z.isNegative = false ∧
      x.magnitude < z.magnitude ∧ z.magnitude < y.magnitude := by
    have hxeven := hx.even y hy.isFinite hdistance hxy.ne'
    have hyeven := hy.even x hx.isFinite hdistance.symm hxy.ne
    have := scaleOf_mul_add x.magnitude
    have := scaleOf_mul_add y.magnitude
    have hfinite : y.magnitude < infinite := of_decide_eq_true hy.isFinite
    obtain ⟨hmagnitude, hz, hzs⟩ := ofNat_of_lt_infinite (Nat.lt_of_le_of_lt hlt hfinite)
    exact ⟨_, hz, hzs, by omega, by omega⟩
  have hxz := toRat_lt_toRat hxs hzs hxz
  have hzy := toRat_lt_toRat hzs hys hzy
  have hle := (le_abs_self (q - x.toRat)).trans (hx.le z hz)
  exact absurd hle (not_le_of_gt (abs_sub_lt_iff.mpr ⟨by linarith, by linarith⟩))

/-- There is one nearest number without a sign bit. -/
theorem IsNearest.unique (hx : x.IsNearest q) (hy : y.IsNearest q) (hxs : x.isNegative = false)
    (hys : y.isNegative = false) : x = y := by
  have hge := hx.not_lt hy hxs hys
  have hle := hy.not_lt hx hys hxs
  exact eq_of_magnitude hxs hys (by omega)

end Unique

/-- A decimal is read as the nearest number, up to halfway to the first that there is none for. -/
theorem ofDecimal?_spec (d : Decimal) :
    ((d.digits / 10 ^ d.places : ℚ) < 2 ^ 128 - 2 ^ 103 → ∃ x, ofDecimal? d = some x ∧
      x.isNegative = false ∧ IsNearest (d.digits / 10 ^ d.places) x) ∧
    ((2 ^ 128 - 2 ^ 103 : ℚ) ≤ d.digits / 10 ^ d.places → ofDecimal? d = none) := by
  have hden : 0 < 10 ^ d.places := Nat.pow_pos (by decide)
  have hfinite : (d.digits / 10 ^ d.places : ℚ) < 2 ^ 128 - 2 ^ 103 ↔
      nearest d.digits (10 ^ d.places) < infinite := by
    rw [nearest_lt_infinite_iff _ hden, div_lt_iff₀ (by positivity)]
    norm_num
    norm_cast
  constructor
  · intro hlt
    have hm := hfinite.mp hlt
    obtain ⟨hmagnitude, hx, hsign⟩ := ofNat_of_lt_infinite hm
    refine ⟨_, if_pos hm, hsign, ?_⟩
    have hnearest := isNearest_of_nearest d.digits hden hx hsign hmagnitude
    rwa [Nat.cast_pow, Nat.cast_ofNat] at hnearest
  · intro hle
    exact if_neg fun hlt => absurd (hfinite.mpr hlt) (not_lt_of_ge hle)

end Binary32

namespace Decimal

/-- The number that digits stand for, the last of which counts ones. -/
def positional (cs : List Char) : ℕ := Nat.ofDigits 10 (cs.reverse.map fun c => c.toNat - '0'.toNat)

/-- The number that digits with a point between them stand for. -/
def pointed (whole fraction : List Char) : ℚ :=
  positional whole + positional fraction / 10 ^ fraction.length

theorem natural_eq_positional (cs : List Char) : natural cs = positional cs := by
  rw [positional, Nat.ofDigits_eq_foldr, List.foldr_map, List.foldr_reverse, natural,
    Nat.ofDigitChars]
  congr 1
  funext n c
  exact Nat.add_comm _ _

theorem positional_append (cs ds : List Char) :
    positional (cs ++ ds) = positional cs * 10 ^ ds.length + positional ds := by
  rw [positional, List.reverse_append, List.map_append, Nat.ofDigits_append, List.length_map,
    List.length_reverse, Nat.add_comm, Nat.mul_comm]
  rfl

/-- What is read of digits with a point is the number they stand for. -/
theorem read_pointed {whole : List Char} (hwhole : ∀ c ∈ whole, c.isDigit = true)
    (fraction : List Char) :
    ((read (whole ++ '.' :: fraction)).digits / 10 ^ (read (whole ++ '.' :: fraction)).places : ℚ) =
      pointed whole fraction := by
  rw [read_append_point hwhole]
  simp only
  rw [natural_eq_positional, positional_append, pointed, Nat.cast_add, Nat.cast_mul, Nat.cast_pow,
    Nat.cast_ofNat, add_div, mul_div_cancel_right₀]
  positivity

end Decimal

end ScriptFront
