import ScriptFront.Number.Shortest

/-! # The numbers that round to a magnitude

Rounding depends on the ratio alone, and what lies in the interval of a magnitude rounds to it. -/

namespace ScriptFront.Binary32

variable {num den m : Nat}

theorem roundQuotient_scale (num den : Nat) {k : Nat} (hk : 0 < k) :
    roundQuotient (num * k) (den * k) = roundQuotient num den := by
  unfold roundQuotient
  have hlt : 2 * (num % den * k) < den * k ↔ 2 * (num % den) < den := by
    rw [← Nat.mul_assoc, Nat.mul_lt_mul_right hk]
  have heq : 2 * (num % den * k) = den * k ↔ 2 * (num % den) = den := by
    rw [← Nat.mul_assoc, Nat.mul_left_inj (by omega)]
  simp only [Nat.mul_div_mul_right _ _ hk, Nat.mul_mod_mul_right, hlt, heq]

theorem nearest_scale (num den : Nat) {k : Nat} (hk : 0 < k) :
    nearest (num * k) (den * k) = nearest num den := by
  unfold nearest
  simp only [Nat.mul_right_comm num k, Nat.mul_right_comm den k, Nat.mul_div_mul_right _ _ hk,
    roundQuotient_scale _ _ hk]

theorem nearest_eq_of_ratio {num' den' : Nat} (hden : 0 < den) (hden' : 0 < den')
    (h : num * den' = num' * den) : nearest num den = nearest num' den' := by
  rw [← nearest_scale num den hden', h, Nat.mul_comm den, nearest_scale _ _ hden]

/-- What lies no further than a half from a whole number rounds to it, a half away only where that
is even. -/
theorem roundQuotient_eq (hden : 0 < den) (hlow : 2 * m * den ≤ 2 * num + den)
    (hhigh : 2 * num ≤ (2 * m + 1) * den)
    (htie : m % 2 = 0 ∨ (2 * m * den < 2 * num + den ∧ 2 * num < (2 * m + 1) * den)) :
    roundQuotient num den = m := by
  have hsplit := Nat.div_add_mod num den
  have hmod := Nat.mod_lt num hden
  have hm : m = num / den ∨ m = num / den + 1 := by
    rw [Nat.mul_assoc] at hlow
    rw [Nat.add_mul, Nat.mul_assoc, Nat.one_mul] at hhigh
    rcases Nat.lt_or_ge m (num / den) with h | h
    · have := Nat.mul_le_mul_right den h
      rw [Nat.succ_mul, Nat.mul_comm (num / den)] at this
      omega
    · rcases Nat.lt_or_ge (num / den + 1) m with h' | h'
      · have := Nat.mul_le_mul_right den h'
        rw [Nat.succ_mul, Nat.succ_mul, Nat.mul_comm (num / den)] at this
        omega
      · omega
  simp only [Nat.add_mul, Nat.mul_assoc, Nat.one_mul] at hlow hhigh htie
  unfold roundQuotient
  simp only
  generalize num / den = low at *
  rcases hm with rfl | rfl
  · have := Nat.mul_comm m den
    rw [if_pos (by omega)]
  · rw [Nat.add_mul, Nat.one_mul] at hlow hhigh htie
    have := Nat.mul_comm low den
    rw [if_neg (by omega)]

/-- The scale by the power of two below the number of units. -/
theorem scale_eq {s : Nat} (hden : 0 < den) (hlow : 2 ^ (23 + s) * den ≤ num)
    (hhigh : num < 2 ^ (24 + s) * den) : (num / den).log2 - 23 = s := by
  have hle := (Nat.le_div_iff_mul_le hden).mpr hlow
  have hne : num / den ≠ 0 := by
    have : 0 < 2 ^ (23 + s) := Nat.pow_pos (by decide)
    omega
  have hlog : (num / den).log2 = 23 + s :=
    (Nat.log2_eq_iff hne).mpr ⟨hle, by
      rw [Nat.div_lt_iff_lt_mul hden, show 23 + s + 1 = 24 + s by omega]
      exact hhigh⟩
  omega

theorem scale_eq_zero (hden : 0 < den) (hhigh : num < 2 ^ 24 * den) :
    (num / den).log2 - 23 = 0 := by
  by_cases hz : num / den = 0
  · simp [hz]
  · have := (Nat.log2_lt hz).mpr ((Nat.div_lt_iff_lt_mul hden).mpr hhigh)
    omega

/-- A magnitude below infinity from its scale and its significand. -/
theorem scaleOf_mul_add (magnitude : Nat) :
    scaleOf magnitude * 2 ^ 23 + significandOf magnitude = magnitude := by
  unfold scaleOf significandOf
  split <;> omega

theorem significandOf_lt (magnitude : Nat) : significandOf magnitude < 2 ^ 24 := by
  unfold significandOf
  split <;> omega

theorem le_significandOf {magnitude : Nat} (h : 0 < scaleOf magnitude) :
    2 ^ 23 ≤ significandOf magnitude := by
  unfold scaleOf at h
  unfold significandOf
  split <;> omega

/-- Units no further than half a spacing from a significand round to it. Below a power of two the
spacing is half as large, and what rounds up to the power carries. -/
theorem round_eq {units s : Nat} (hden : 0 < den) (hm : m < 2 ^ 24) (hs : 0 < s → 2 ^ 23 ≤ m)
    (hlow : 2 * m * (den * 2 ^ s) ≤ 2 * units + den * 2 ^ s)
    (hhigh : 2 * units ≤ (2 * m + 1) * (den * 2 ^ s))
    (htie : m % 2 = 0 ∨ (2 * m * (den * 2 ^ s) < 2 * units + den * 2 ^ s ∧
      2 * units < (2 * m + 1) * (den * 2 ^ s)))
    (hbelow : m = 2 ^ 23 → 0 < s → 4 * m * (den * 2 ^ s) ≤ 4 * units + den * 2 ^ s) :
    let scale := (units / den).log2 - 23
    scale * 2 ^ 23 + roundQuotient units (den * 2 ^ scale) = s * 2 ^ 23 + m := by
  have hspacing : 0 < den * 2 ^ s := Nat.mul_pos hden (Nat.pow_pos (by decide))
  have hpow (k : Nat) : 2 ^ (k + s) * den = 2 ^ k * (den * 2 ^ s) := by
    rw [Nat.pow_add, Nat.mul_assoc, Nat.mul_comm (2 ^ s)]
  have hupper : units < 2 ^ 24 * (den * 2 ^ s) := by
    have : (2 * m + 1) * (den * 2 ^ s) ≤ (2 ^ 25 - 1) * (den * 2 ^ s) :=
      Nat.mul_le_mul_right _ (by omega)
    omega
  simp only
  by_cases hreach : s = 0 ∨ 2 ^ 23 * (den * 2 ^ s) ≤ units
  · have hscale : (units / den).log2 - 23 = s := by
      rcases hreach with rfl | hreach
      · exact scale_eq_zero hden (by simpa using hupper)
      · exact scale_eq hden (hpow 23 ▸ hreach) (hpow 24 ▸ hupper)
    rw [hscale, roundQuotient_eq hspacing hlow hhigh htie]
  · rw [not_or, Nat.not_le] at hreach
    obtain ⟨r, rfl⟩ := Nat.exists_eq_add_one_of_ne_zero hreach.1
    have hspacing' : den * 2 ^ (r + 1) = 2 * (den * 2 ^ r) := by
      rw [Nat.pow_succ, ← Nat.mul_assoc, Nat.mul_comm]
    have hm' : m = 2 ^ 23 := by
      have hle := hs (Nat.succ_pos r)
      refine Nat.le_antisymm (Nat.le_of_not_lt fun hlt => ?_) hle
      have : (2 ^ 24 + 2) * (den * 2 ^ (r + 1)) ≤ 2 * m * (den * 2 ^ (r + 1)) :=
        Nat.mul_le_mul_right _ (by omega)
      omega
    subst hm'
    have hbelow := hbelow rfl (Nat.succ_pos r)
    have hpow' (k : Nat) : 2 ^ (k + r) * den = 2 ^ k * (den * 2 ^ r) := by
      rw [Nat.pow_add, Nat.mul_assoc, Nat.mul_comm (2 ^ r)]
    have hscale : (units / den).log2 - 23 = r := by
      refine scale_eq hden ?_ ?_
      · rw [hpow']
        omega
      · rw [hpow']
        omega
    have hround : roundQuotient units (den * 2 ^ r) = 2 ^ 24 :=
      roundQuotient_eq (Nat.mul_pos hden (Nat.pow_pos (by decide))) (by omega) (by omega)
        (.inl (by decide))
    rw [hscale, hround]
    omega

/-- The ends of the interval of a magnitude, in units of its spacing. -/
theorem bounds_of_contains {magnitude n : Nat} (h : (interval magnitude).contains n = true) :
    let m := significandOf magnitude
    let units := n * 2 ^ 149
    let spacing := 10 ^ decimalPlaces * 2 ^ scaleOf magnitude
    2 * m * spacing ≤ 2 * units + spacing ∧ 2 * units ≤ (2 * m + 1) * spacing ∧
      (m % 2 = 0 ∨ (2 * m * spacing < 2 * units + spacing ∧
        2 * units < (2 * m + 1) * spacing)) ∧
      (m = 2 ^ 23 → 0 < scaleOf magnitude → 4 * m * spacing ≤ 4 * units + spacing) := by
  unfold Interval.contains interval at h
  simp only [decide_eq_true_eq, Nat.mul_assoc _ (2 ^ scaleOf magnitude),
    Nat.mul_comm (2 ^ scaleOf magnitude)] at h
  generalize hg : (if magnitude % 2 ^ 23 = 0 ∧ 1 < magnitude / 2 ^ 23 then 1 else 2) = gap at h
  have hgap : gap = 1 ∨ gap = 2 := by
    rw [← hg]
    split
    · exact .inl rfl
    · exact .inr rfl
  have hone : significandOf magnitude = 2 ^ 23 → 0 < scaleOf magnitude → gap = 1 := by
    intro hm hs
    rw [← hg]
    refine if_pos ?_
    unfold significandOf at hm
    unfold scaleOf at hs
    split at hm <;> omega
  simp only
  generalize significandOf magnitude = m at *
  generalize 10 ^ decimalPlaces * 2 ^ scaleOf magnitude = spacing at *
  have hhigh : (4 * m + 2) * spacing = 2 * ((2 * m + 1) * spacing) := by
    rw [← Nat.mul_assoc]
    congr 1
    omega
  have hlow : 2 * (2 * m * spacing) ≤ (4 * m - gap) * spacing + gap * spacing := by
    rw [← Nat.add_mul, ← Nat.mul_assoc]
    exact Nat.mul_le_mul_right _ (by omega)
  have hfour : 4 * m * spacing = 2 * (2 * m * spacing) := by
    rw [← Nat.mul_assoc]
    congr 1
    omega
  rw [hhigh] at h
  rw [hfour]
  generalize (4 * m - gap) * spacing = low at *
  generalize (2 * m + 1) * spacing = high at *
  generalize 2 * m * spacing = middle at *
  rcases hgap with rfl | rfl <;> split at h <;> rw [decide_eq_true_eq] at h <;> omega

/-- What lies in the interval of a magnitude rounds to it. -/
theorem nearest_of_contains {magnitude n : Nat} (h : (interval magnitude).contains n = true) :
    nearest n (10 ^ decimalPlaces) = magnitude := by
  obtain ⟨hlow, hhigh, htie, hbelow⟩ := bounds_of_contains h
  have hround := round_eq (Nat.pow_pos (by decide)) (significandOf_lt magnitude) le_significandOf
    hlow hhigh htie hbelow
  rwa [scaleOf_mul_add] at hround

/-- A magnitude below the infinite one is a pattern without a sign bit. -/
theorem ofNat_of_lt_infinite (hm : m < infinite) : (⟨UInt32.ofNat m⟩ : Binary32).magnitude = m ∧
    (⟨UInt32.ofNat m⟩ : Binary32).isFinite = true ∧
    (⟨UInt32.ofNat m⟩ : Binary32).isNegative = false := by
  have hlt : m < 2 ^ 31 := Nat.lt_trans hm (by decide)
  have hbits : (UInt32.ofNat m).toNat = m :=
    UInt32.toNat_ofNat_of_lt' (Nat.lt_trans hlt (by decide))
  have hmagnitude : (⟨UInt32.ofNat m⟩ : Binary32).magnitude = m := by
    rw [magnitude, hbits, Nat.mod_eq_of_lt hlt]
  refine ⟨hmagnitude, ?_, ?_⟩
  · rw [isFinite, hmagnitude]
    exact decide_eq_true hm
  · rw [isNegative, hbits]
    exact decide_eq_false (Nat.not_le_of_lt hlt)

end ScriptFront.Binary32
