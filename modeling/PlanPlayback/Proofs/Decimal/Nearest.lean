import PlanPlayback.Decimal.Numeral
import PlanPlayback.Proofs.Binary64.Order

/-!
# Reading rounds to the nearest number

A numeral stands for a rational number, its `value`.  The number that is read from it is the value,
rounded to the nearest floating-point number: no digit of a numeral is lost before the one rounding
in the end, however long the numeral is and wherever its point stands.

## Strategy

Numerals with few digits and a small exponent are read with one multiplication or division of numbers
that are exact (`hasQuanta_ofScientific_short`), all others with a significand that has been given
enough binary digits (`hasQuanta_unpacked`).  The numerals that are told to be infinite or zero
by the number of their digits alone lie beyond the limit and below half a quantum.
-/

namespace PlanPlayback.Decimal

open Float.Model UnpackedFloat Binary64

/-- The rational number that a numeral stands for. -/
def Numeral.value (n : Numeral) : ℚ :=
  n.coefficient * 10 ^ n.exponent

theorem Numeral.value_nonneg (n : Numeral) : 0 ≤ n.value := by
  unfold Numeral.value
  positivity

/-- The exponent that a size and a sign stand for. -/
def signedExponent (negative : Bool) (size : ℕ) : ℤ :=
  if negative then -size else size

/-! ## Short numerals -/

theorem measure_powersOfTen :
    ∀ k : Fin 23, Float.exactlyRepresentablePowersOfTen[k].isFinite = true ∧
      Binary64.measure Float.exactlyRepresentablePowersOfTen[k] = size (10 ^ k.val) 0 := by
  decide +kernel

theorem cast_size_zero (m : ℕ) : (size m 0 : ℚ) = m * unity := by
  rw [cast_size m (by decide), zpow_zero, one_mul]

/-- A whole number with at most 53 digits is exact. -/
theorem measure_toFloat_of_lt {m : ℕ} (h : m < 2 ^ 53) :
    m.toUInt64.toFloat.isFinite = true ∧ Binary64.measure m.toUInt64.toFloat = size m 0 := by
  have hm : m.toUInt64.toNat = m := UInt64.toNat_ofNat_of_lt (h.trans (by decide))
  have hsmall : size m 0 < limit :=
    calc size m 0 < 2 ^ 53 * 2 ^ ((0 : ℤ) + 1074).toNat :=
          Nat.mul_lt_mul_of_pos_right h (by positivity)
      _ ≤ limit := two_pow_mul_le_limit (by decide)
  have hfits : rounded ((size m 0 : ℕ) : ℚ) = size m 0 := rounded_of_fits h _
  have hvalue : (((m.toUInt64.toNat : ℕ) : ℤ) : ℚ) * 2 ^ ((0 : ℤ) + 1074) = (size m 0 : ℕ) := by
    rw [hm, cast_size_zero, zero_add, Int.cast_natCast, unity]
  have hstored : IsNumber m.toUInt64.toFloat ∧
      Binary64.measure m.toUInt64.toFloat =
        outcome (((m.toUInt64.toNat : ℕ) : ℤ) * 2 ^ ((0 : ℤ) + 1074)) :=
    hasQuanta_normalize m.toUInt64.toNat 0 .positive
  rw [hvalue, outcome_of_nonneg (Nat.cast_nonneg _), hfits, min_eq_left hsmall.le] at hstored
  refine ⟨(isFinite_iff (isProper_parts _) hstored.1).mpr ?_, hstored.2⟩
  change -(limit : ℤ) < Binary64.measure m.toUInt64.toFloat ∧
    Binary64.measure m.toUInt64.toFloat < limit
  rw [hstored.2]
  have hlimit := limit_pos
  omega

theorem hasQuanta_ofScientific_short {m k : ℕ} (hm : m < 2 ^ 53) (hk : k ≤ 22) (negative : Bool) :
    HasQuanta (parts (Float.ofScientific m negative k))
      (outcome (m * 10 ^ signedExponent negative k * unity)) := by
  obtain ⟨hfinite, hmeasure⟩ := measure_toFloat_of_lt hm
  have hindex : k < 23 := Nat.lt_succ_of_le hk
  obtain ⟨hfinite', hmeasure'⟩ := measure_powersOfTen ⟨k, hindex⟩
  have hunity := unity_pos
  unfold Float.ofScientific
  rw [dif_pos ⟨hm, hk⟩]
  change Float.exactlyRepresentablePowersOfTen[k].isFinite = true at hfinite'
  generalize Float.exactlyRepresentablePowersOfTen[k] = power at *
  generalize m.toUInt64.toFloat = whole at *
  have hwhole : (quanta (parts whole) : ℚ) = m * unity := by
    rw [← cast_size_zero, ← Int.cast_natCast, ← hmeasure]
    rfl
  have hpower : (quanta (parts power) : ℚ) = 10 ^ k * unity := by
    rw [← Nat.cast_ofNat, ← Nat.cast_pow, ← cast_size_zero, ← Int.cast_natCast, ← hmeasure']
    rfl
  cases negative with
  | true =>
    have hne : quanta (parts power) ≠ 0 := by
      intro hzero
      rw [hzero, Int.cast_zero] at hpower
      have : (0 : ℚ) < 10 ^ k * unity := by positivity
      exact this.ne hpower
    have hquotient :=
      hasQuanta_div (isProper_parts whole) (isProper_parts power) hfinite hfinite' hne
    have hvalue : (m * unity / (10 ^ k * unity) * unity : ℚ) =
        m * 10 ^ signedExponent true k * unity := by
      rw [signedExponent, if_pos rfl, zpow_neg, zpow_natCast]
      field_simp
    rw [hwhole, hpower, hvalue] at hquotient
    exact hquotient
  | false =>
    have hproduct := hasQuanta_mul (isProper_parts whole) (isProper_parts power) hfinite hfinite'
    have hvalue : (m * unity * (10 ^ k * unity) / unity : ℚ) =
        m * 10 ^ signedExponent false k * unity := by
      rw [signedExponent, if_neg (by decide), zpow_natCast]
      field_simp
    rw [hwhole, hpower, hvalue] at hproduct
    exact hproduct

/-! ## All other numerals -/

/-- A significand with many binary digits is rounded only once. -/
theorem hasQuanta_product {shifted power : ℕ} (h : 0 < shifted) (hpower : 0 < power)
    (hlog : 52 ≤ shifted.log2) :
    HasQuanta (stored (mul Format.binary64 (.finite .positive shifted (-53) h)
        (.finite .positive power 0 hpower)))
      (outcome (shifted / 2 ^ 53 * power * unity)) := by
  have hplus : ((Sign.positive.apply 1 : ℤ) : ℚ) = 1 := Int.cast_one
  have hdigits : 52 ≤ (shifted * power).log2 := by
    rw [Nat.le_log2 (Nat.mul_pos h hpower).ne']
    exact ((Nat.le_log2 h.ne').mp hlog).trans (Nat.le_mul_of_pos_right _ hpower)
  have hproduct := @hasQuanta_mul_finite .positive .positive shifted power (-53) 0 h hpower
    (.inl hdigits)
  have hvalue : (1 : ℚ) * (shifted * (2 ^ (-53 : ℤ) * unity)) * (1 * (power * 2 ^ (0 : ℤ))) =
      shifted / 2 ^ 53 * power * unity := by
    rw [zpow_neg, zpow_zero, one_mul, one_mul, mul_one, div_eq_mul_inv]
    norm_cast
    ring
  rwa [hplus, hvalue] at hproduct

theorem hasQuanta_unpacked {m : ℕ} (hm : m ≠ 0) {e : ℤ} (hlow : -(2048 + (m.log2 : ℤ)) ≤ e)
    (hhigh : e ≤ 2048) :
    HasQuanta (stored (UnpackedFloat.ofScientific Format.binary64 m e))
      (outcome (m * 10 ^ e * unity)) := by
  have hbits : (2 : ℤ) ^ Format.binary64.exponentBits = 2048 := rfl
  have hpos : 0 < m := Nat.pos_of_ne_zero hm
  rw [UnpackedFloat.ofScientific, dif_neg hm, hbits, if_neg (by omega), if_neg (by omega)]
  by_cases hsign : 0 ≤ e
  · rw [if_pos hsign]
    have hlog : 52 ≤ (m <<< 53).log2 := (by omega : 52 ≤ m.log2 + 53).trans (log2_add_le hm 53)
    have hshifted : 0 < m <<< 53 := by
      rw [Nat.shiftLeft_eq]
      positivity
    have hproduct := hasQuanta_product hshifted (Nat.pow_pos (by decide) : 0 < 10 ^ e.toNat) hlog
    have hvalue : ((m <<< 53 : ℕ) / 2 ^ 53 * (10 ^ e.toNat : ℕ) * unity : ℚ) =
        m * 10 ^ e * unity := by
      have hpower : (10 : ℚ) ^ e = 10 ^ e.toNat := by
        rw [← zpow_natCast, Int.toNat_of_nonneg hsign]
      rw [hpower, Nat.shiftLeft_eq, Nat.cast_mul, Nat.cast_pow, Nat.cast_pow, Nat.cast_ofNat,
        mul_div_cancel_right₀ _ (by positivity)]
      rfl
    rw [hvalue] at hproduct
    exact hproduct
  · rw [if_neg hsign]
    have hplus : ((Sign.positive.apply 1 : ℤ) : ℚ) = 1 := Int.cast_one
    have hquotient := hasQuanta_div_finite .positive .positive 0 0 hpos
      (Nat.pow_pos (by decide) : 0 < 10 ^ (-e).toNat)
    have hvalue : (1 : ℚ) * (m * 2 ^ (0 : ℤ)) / (1 * ((10 ^ (-e).toNat : ℕ) * 2 ^ (0 : ℤ))) * unity =
        m * 10 ^ e * unity := by
      have hpower : (10 : ℚ) ^ e = (10 ^ (-e).toNat)⁻¹ := by
        rw [← zpow_natCast, Int.toNat_of_nonneg (by omega), zpow_neg, inv_inv]
      rw [hpower, zpow_zero, one_mul, one_mul, mul_one, mul_one, Nat.cast_pow, div_eq_mul_inv]
      rfl
    rw [hplus, hvalue] at hquotient
    exact hquotient

/-- Whatever is written with a power of ten that is not out of all proportion is rounded once. -/
theorem hasQuanta_ofScientific {m k : ℕ} (hm : m ≠ 0) (negative : Bool)
    (hlow : -(2048 + (m.log2 : ℤ)) ≤ signedExponent negative k)
    (hhigh : signedExponent negative k ≤ 2048) :
    HasQuanta (parts (Float.ofScientific m negative k))
      (outcome (m * 10 ^ signedExponent negative k * unity)) := by
  by_cases hshort : m < 2 ^ 53 ∧ k ≤ 22
  · exact hasQuanta_ofScientific_short hshort.1 hshort.2 negative
  · have hparts : parts (Float.ofScientific m negative k) =
        stored (UnpackedFloat.ofScientific Format.binary64 m (signedExponent negative k)) := by
      unfold Float.ofScientific
      rw [dif_neg hshort]
      cases negative with
      | true =>
        have hexponent : Int.negOfNat k = -(k : ℤ) := Int.negOfNat_eq
        rw [signedExponent, if_pos rfl, ← hexponent]
        rfl
      | false => rfl
    rw [hparts]
    exact hasQuanta_unpacked hm hlow hhigh

/-! ## All numerals -/

/-- How many decimal digits a number has says where it lies between the powers of ten. -/
theorem lt_pow_length_toDigits (n : ℕ) : n < 10 ^ (Nat.toDigits 10 n).length :=
  (Nat.length_toDigits_le_iff (by decide) Nat.length_toDigits_pos).mp le_rfl

theorem pow_length_toDigits_le {n : ℕ} (h : n ≠ 0) : 10 ^ ((Nat.toDigits 10 n).length - 1) ≤ n := by
  by_contra hlt
  rcases Nat.eq_zero_or_pos ((Nat.toDigits 10 n).length - 1) with hzero | hpos
  · rw [hzero] at hlt
    omega
  · have := (Nat.length_toDigits_le_iff (by decide) hpos).mpr (not_le.mp hlt)
    omega

theorem length_toDigits_le (n : ℕ) : (Nat.toDigits 10 n).length ≤ n.log2 + 1 := by
  rw [Nat.length_toDigits_le_iff (by decide) (Nat.succ_pos _)]
  calc n < 2 ^ (n.log2 + 1) := Nat.lt_log2_self
    _ ≤ 10 ^ (n.log2 + 1) := Nat.pow_le_pow_left (by decide) _

/-- Ten to the power of 320 is beyond every number. -/
theorem limit_le_pow : (limit : ℚ) ≤ 10 ^ (320 : ℤ) * unity := by
  have hpow : (2 : ℚ) ^ 1024 ≤ 10 ^ 320 :=
    calc (2 : ℚ) ^ 1024 = (2 ^ 16) ^ 64 := by rw [← pow_mul]
      _ ≤ (10 ^ 5) ^ 64 := pow_le_pow_left₀ (by norm_num) (by norm_num) 64
      _ = 10 ^ 320 := by rw [← pow_mul]
  calc (limit : ℚ) = 2 ^ 2098 := by rw [limit, Nat.cast_pow, Nat.cast_ofNat]
    _ = 2 ^ 1024 * 2 ^ 1074 := by rw [← pow_add]
    _ ≤ 10 ^ 320 * 2 ^ 1074 := mul_le_mul_of_nonneg_right hpow (by positivity)
    _ = 10 ^ (320 : ℤ) * unity := by rw [unity, ← zpow_natCast, ← zpow_natCast]; rfl

/-- Ten to the power of -331 is less than half a quantum. -/
theorem pow_le_quarter : (10 : ℚ) ^ (-331 : ℤ) * unity ≤ 1 / 4 := by
  have hpow : (2 : ℚ) ^ 1076 ≤ 10 ^ 331 :=
    calc (2 : ℚ) ^ 1076 ≤ 2 ^ 1081 := pow_le_pow_right₀ (by norm_num) (by norm_num)
      _ = (2 ^ 23) ^ 47 := by rw [← pow_mul]
      _ ≤ (10 ^ 7) ^ 47 := pow_le_pow_left₀ (by norm_num) (by norm_num) 47
      _ = 10 ^ 329 := by rw [← pow_mul]
      _ ≤ 10 ^ 331 := pow_le_pow_right₀ (by norm_num) (by norm_num)
  have hunity : unity = 2 ^ 1074 := by
    rw [unity, ← zpow_natCast]
    rfl
  have hsplit : (2 : ℚ) ^ 1076 = 4 * 2 ^ 1074 := by
    rw [show (4 : ℚ) = 2 ^ 2 by norm_num, ← pow_add]
  rw [hunity, zpow_neg, inv_mul_le_iff₀ (by positivity), mul_one_div, le_div_iff₀ (by norm_num),
    mul_comm, ← hsplit]
  exact hpow

/-- **Reading is rounding.**  What is read from a numeral is its value, rounded once. -/
theorem hasQuanta_toFloat (n : Numeral) :
    HasQuanta (parts n.toFloat) (outcome (n.value * unity)) := by
  rcases n with ⟨c, e⟩
  have hunity := unity_pos
  have hten : (1 : ℚ) ≤ 10 := by norm_num
  simp only [Numeral.toFloat, Numeral.value]
  split_ifs with hzero hlarge hsmall
  · rw [hzero, Nat.cast_zero, zero_mul, zero_mul, outcome_zero]
    exact ⟨nofun, rfl⟩
  -- the digits alone put the value beyond the limit
  · have hdigits : ((10 ^ ((Nat.toDigits 10 c).length - 1) : ℕ) : ℚ) ≤ c :=
      Nat.cast_le.mpr (pow_length_toDigits_le hzero)
    have hpos : 0 < (Nat.toDigits 10 c).length := Nat.length_toDigits_pos
    have hvalue : (10 : ℚ) ^ (320 : ℤ) ≤ c * 10 ^ e :=
      calc (10 : ℚ) ^ (320 : ℤ) ≤ 10 ^ ((((Nat.toDigits 10 c).length - 1 : ℕ) : ℤ) + e) :=
            zpow_le_zpow_right₀ hten (by omega)
        _ = (10 ^ ((Nat.toDigits 10 c).length - 1) : ℕ) * 10 ^ e := by
            rw [zpow_add₀ (by norm_num), zpow_natCast, Nat.cast_pow, Nat.cast_ofNat]
        _ ≤ c * 10 ^ e := mul_le_mul_of_nonneg_right hdigits (by positivity)
    rw [outcome_of_limit_le (limit_le_pow.trans (mul_le_mul_of_nonneg_right hvalue hunity.le))]
    exact ⟨nofun, rfl⟩
  -- the digits alone put the value below half a quantum
  · have hdigits : (c : ℚ) < (10 ^ (Nat.toDigits 10 c).length : ℕ) :=
      Nat.cast_lt.mpr (lt_pow_length_toDigits c)
    have hvalue : (c : ℚ) * 10 ^ e ≤ 10 ^ (-331 : ℤ) :=
      calc (c : ℚ) * 10 ^ e ≤ (10 ^ (Nat.toDigits 10 c).length : ℕ) * 10 ^ e :=
            mul_le_mul_of_nonneg_right hdigits.le (by positivity)
        _ = 10 ^ (((Nat.toDigits 10 c).length : ℤ) + e) := by
            rw [zpow_add₀ (by norm_num), zpow_natCast, Nat.cast_pow, Nat.cast_ofNat]
        _ ≤ 10 ^ (-331 : ℤ) := zpow_le_zpow_right₀ hten (by omega)
    rw [outcome_of_le_quarter (by positivity)
      ((mul_le_mul_of_nonneg_right hvalue hunity.le).trans pow_le_quarter)]
    exact ⟨nofun, rfl⟩
  · have hlength := length_toDigits_le c
    have hexponent : signedExponent (decide (e < 0)) e.natAbs = e := by
      unfold signedExponent
      split_ifs with h
      · have : e < 0 := of_decide_eq_true h
        omega
      · have : ¬e < 0 := of_decide_eq_false (Bool.eq_false_iff.mpr h)
        omega
    have hread := hasQuanta_ofScientific hzero (decide (e < 0)) (k := e.natAbs) (by omega)
      (by omega)
    rwa [hexponent] at hread

theorem Numeral.zero_le_toFloat (n : Numeral) : 0.0 ≤ n.toFloat := by
  obtain ⟨hnumber, hquanta⟩ := hasQuanta_toFloat n
  have hmeasure : Binary64.measure n.toFloat = (min (rounded (n.value * unity)) limit : ℕ) :=
    hquanta.trans (outcome_of_nonneg (mul_nonneg n.value_nonneg unity_pos.le))
  exact nonneg_iff.mpr ⟨hnumber, hmeasure ▸ Int.natCast_nonneg _⟩

end PlanPlayback.Decimal
