import ScriptFront.Number.Decimal

/-! # Decimals read back

A decimal in full is read as an equal number, which may have fewer places. -/

namespace ScriptFront.Decimal

/-- Digits up to a point, and all that stands behind it, are read as one number. -/
theorem read_append_point {whole : List Char} (hwhole : ∀ c ∈ whole, c.isDigit = true)
    (fraction : List Char) :
    read (whole ++ '.' :: fraction) = ⟨natural (whole ++ fraction), fraction.length⟩ := by
  have hpoint : Char.isDigit '.' = false := by decide
  simp only [read, List.takeWhile_append_of_pos hwhole, List.dropWhile_append_of_pos hwhole,
    List.takeWhile_cons, List.dropWhile_cons, hpoint, Bool.false_eq_true, if_false,
    List.append_nil, List.drop_succ_cons, List.drop_zero]

theorem natural_toDigits (n : Nat) : natural (Nat.toDigits 10 n) = n :=
  Nat.ofDigitChars_ten_toDigits

/-- An integer that is not negative is written in its digits. -/
theorem toList_integer {v : Int32} (h : 0 ≤ v) :
    (toString v.toInt).toList = Nat.toDigits 10 v.toNatClampNeg := by
  have hn : v.toInt = (v.toNatClampNeg : Int) :=
    (Int.toNat_of_nonneg (Int32.le_iff_toInt_le.mp h)).symm
  rw [hn]
  exact Nat.toList_repr

theorem any_isDigit_toDigits (n : Nat) (cs : List Char) :
    (Nat.toDigits 10 n ++ cs).head?.any Char.isDigit = true := by
  cases hn : Nat.toDigits 10 n with
  | nil => exact absurd hn Nat.toDigits_ne_nil
  | cons c ds =>
    exact Nat.isDigit_of_mem_toDigits (b := 10) (n := n) (by decide) (by decide) (by simp [hn])

theorem isDigit_of_mem_fraction {places n : Nat} (hn : n < 10 ^ places) :
    ∀ c ∈ fraction places n, c.isDigit = true := by
  induction places generalizing n with
  | zero => simp [fraction]
  | succ places ih =>
    unfold fraction
    split
    · simp
    · intro c hc
      have hpos : 0 < 10 ^ places := Nat.pow_pos (by decide)
      rcases List.mem_cons.mp hc with rfl | hc
      · rw [Nat.isDigit_digitChar, decide_eq_true_eq, Nat.div_lt_iff_lt_mul hpos]
        rw [Nat.pow_succ] at hn
        omega
      · exact ih (Nat.mod_lt _ hpos) c hc

/-- The digits behind the point, and only zeros are left out. -/
theorem natural_fraction {places n : Nat} (hn : n < 10 ^ places) :
    natural (fraction places n) * 10 ^ places = n * 10 ^ (fraction places n).length := by
  induction places generalizing n with
  | zero =>
    obtain rfl : n = 0 := by simpa using hn
    simp [fraction, natural]
  | succ places ih =>
    unfold fraction
    split
    · rename_i hz
      simp [hz, natural]
    · have hpos : 0 < 10 ^ places := Nat.pow_pos (by decide)
      have hdigit : n / 10 ^ places < 10 := by
        rw [Nat.div_lt_iff_lt_mul hpos]
        rw [Nat.pow_succ] at hn
        omega
      have hrest := ih (Nat.mod_lt n hpos)
      have hsplit := Nat.div_add_mod n (10 ^ places)
      unfold natural at hrest ⊢
      rw [Nat.ofDigitChars_cons_digitChar_of_lt_ten hdigit, Nat.mul_zero, Nat.zero_add,
        Nat.ofDigitChars_eq_ofDigitChars_zero, List.length_cons, Nat.pow_succ, Nat.pow_succ]
      generalize (fraction places (n % 10 ^ places)).length = k at *
      generalize Nat.ofDigitChars 10 (fraction places (n % 10 ^ places)) 0 = r at *
      calc (10 ^ k * (n / 10 ^ places) + r) * (10 ^ places * 10)
          = (10 ^ k * (10 ^ places * (n / 10 ^ places)) + r * 10 ^ places) * 10 := by
            rw [← Nat.mul_assoc, Nat.add_mul, Nat.mul_assoc (10 ^ k),
              Nat.mul_comm (n / 10 ^ places)]
        _ = (10 ^ k * n) * 10 := by
            rw [hrest, Nat.mul_comm (n % 10 ^ places), ← Nat.mul_add, hsplit]
        _ = n * (10 ^ k * 10) := by rw [Nat.mul_comm (10 ^ k), Nat.mul_assoc]

/-- What stands behind the point. -/
def behind (d : Decimal) : List Char :=
  let digits := fraction d.places (d.digits % 10 ^ d.places)
  if digits.isEmpty then ['0'] else digits

variable (d : Decimal)

theorem toList_text : d.text.toList =
    Nat.toDigits 10 (d.digits / 10 ^ d.places) ++ '.' :: d.behind := by
  unfold text behind
  simp only [String.toList_append]
  split <;> simp

theorem mod_lt_places : d.digits % 10 ^ d.places < 10 ^ d.places :=
  Nat.mod_lt _ (Nat.pow_pos (by decide))

theorem isDigit_of_mem_behind : ∀ c ∈ d.behind, c.isDigit = true := by
  unfold behind
  intro c hc
  simp only at hc
  split at hc
  · rw [List.mem_singleton] at hc
    subst hc
    decide
  · exact isDigit_of_mem_fraction d.mod_lt_places c hc

theorem behind_ne_nil : d.behind ≠ [] := by
  unfold behind
  simp only
  split
  · exact List.cons_ne_nil '0' []
  · rename_i hdigits
    exact fun hnil => hdigits (List.isEmpty_iff.mpr hnil)

/-- Digits stand on both sides of the point. -/
theorem isDigit_of_mem_text (c : Char)
    (hc : c ∈ Nat.toDigits 10 (d.digits / 10 ^ d.places) ++ d.behind) : c.isDigit = true := by
  rcases List.mem_append.mp hc with hc | hc
  · exact Nat.isDigit_of_mem_toDigits (by decide) (by decide) hc
  · exact d.isDigit_of_mem_behind c hc

theorem natural_behind :
    natural d.behind * 10 ^ d.places = d.digits % 10 ^ d.places * 10 ^ d.behind.length := by
  have h := natural_fraction d.mod_lt_places
  unfold behind
  simp only
  split
  · rename_i hempty
    rw [List.isEmpty_iff] at hempty
    rw [hempty] at h
    have hz : d.digits % 10 ^ d.places = 0 := by simpa [natural] using h.symm
    simp [hz, natural, Nat.ofDigitChars_cons]
  · exact h

/-- A decimal is read back as the same number. -/
theorem read_text : (read d.text.toList).digits * 10 ^ d.places =
    d.digits * 10 ^ (read d.text.toList).places := by
  have hwhole : ∀ c ∈ Nat.toDigits 10 (d.digits / 10 ^ d.places), c.isDigit = true :=
    fun c hc => Nat.isDigit_of_mem_toDigits (by decide) (by decide) hc
  rw [toList_text, read_append_point hwhole]
  simp only
  have hbehind := d.natural_behind
  have hsplit := Nat.div_add_mod d.digits (10 ^ d.places)
  have hnatural := natural_toDigits (d.digits / 10 ^ d.places)
  unfold natural at hbehind hnatural ⊢
  rw [Nat.ofDigitChars_append, hnatural, Nat.ofDigitChars_eq_ofDigitChars_zero]
  calc (10 ^ d.behind.length * (d.digits / 10 ^ d.places) +
        Nat.ofDigitChars 10 d.behind 0) * 10 ^ d.places
      = 10 ^ d.behind.length * (10 ^ d.places * (d.digits / 10 ^ d.places)) +
        Nat.ofDigitChars 10 d.behind 0 * 10 ^ d.places := by
          rw [Nat.add_mul, Nat.mul_assoc, Nat.mul_comm (d.digits / 10 ^ d.places)]
    _ = 10 ^ d.behind.length * d.digits := by
          rw [hbehind, Nat.mul_comm (d.digits % 10 ^ d.places), ← Nat.mul_add, hsplit]
    _ = d.digits * 10 ^ d.behind.length := Nat.mul_comm _ _

end ScriptFront.Decimal
