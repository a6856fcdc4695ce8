import PlanPlayback.Proofs.Binary64.Format

/-!
# Arithmetic on unpacked numbers

The operations on unpacked numbers compute a significand, an exponent and where the exact result
lies between the significand and the next one, and round that.  Here the exact result is a rational
number of quanta, and what is stored in the end is its `outcome`.

The rounding of a result shifts its significand to the right, one digit at a time, and keeps a bit
for the digit that was shifted out last and one for all digits before.  The two bits and the
significand make up the `place` of the exact result; a shift halves the exact result, and the
`place` goes along with it.

* `hasQuanta_roundWithAccuracy`: what is stored of a rounded result;
* `hasQuanta_add`, `hasQuanta_sub`, `hasQuanta_mul` and `hasQuanta_div`: the operations.
-/

namespace PlanPlayback.Binary64

open Float.Model UnpackedFloat

/-! ## The place of an extended significand -/

/-- The place that a significand and the two bits after it stand for. -/
def place (em : ExtendedMantissa) : ℕ :=
  4 * em.mantissa + 2 * em.roundBit.toNat + em.stickyBit.toNat

theorem place_div_four (em : ExtendedMantissa) : place em / 4 = em.mantissa := by
  have hround := Bool.toNat_le em.roundBit
  have hsticky := Bool.toNat_le em.stickyBit
  unfold place
  omega

theorem place_mod_four (em : ExtendedMantissa) :
    place em % 4 = 2 * em.roundBit.toNat + em.stickyBit.toNat := by
  have hround := Bool.toNat_le em.roundBit
  have hsticky := Bool.toNat_le em.stickyBit
  unfold place
  omega

theorem place_shiftRightOne (em : ExtendedMantissa) :
    place em.shiftRightOne = 2 * (place em / 4) + if place em % 4 = 0 then 0 else 1 := by
  rw [place_div_four, place_mod_four]
  rcases em with ⟨m, roundBit, stickyBit⟩
  have hlast : (m % 2 != 0).toNat = m % 2 := by
    rcases Nat.mod_two_eq_zero_or_one m with hm | hm <;> rw [hm] <;> rfl
  have hsticky : (roundBit || stickyBit).toNat =
      if 2 * roundBit.toNat + stickyBit.toNat = 0 then 0 else 1 := by
    cases roundBit <;> cases stickyBit <;> rfl
  rw [← hsticky]
  change 4 * (m / 2) + 2 * (m % 2 != 0).toNat + (roundBit || stickyBit).toNat =
    2 * m + (roundBit || stickyBit).toNat
  rw [hlast]
  omega

/-- Shifting the significand divides the exact result. -/
theorem place_shiftRight {em : ExtendedMantissa} {x : ℚ} (hx : 0 ≤ x) (h : place em = station x)
    (n : ℕ) : place (em >>> n) = station (x / 2 ^ n) := by
  change place (n.repeat ExtendedMantissa.shiftRightOne em) = _
  induction n with
  | zero => rw [pow_zero, div_one]; exact h
  | succ n ih =>
    have hquotient : 0 ≤ x / 2 ^ n := by positivity
    rw [Nat.repeat, place_shiftRightOne, ih, pow_succ, ← div_div, station_half hquotient]

theorem roundedMantissa_eq (em : ExtendedMantissa) : em.roundedMantissa = wholeAt (place em) := by
  rw [wholeAt, place_div_four, place_mod_four]
  rcases em with ⟨m, roundBit, stickyBit⟩
  cases roundBit <;> cases stickyBit <;> rfl

/-! ## Rounding -/

theorem targetExponent_eq (t : ℤ) :
    Format.binary64.targetExponent t = max (t - 53) (-1074) :=
  rfl

/-- The significand of an approximation is the whole part of the exact result. -/
theorem floor_of_place {m : ℕ} {accuracy : Accuracy} {x : ℚ} (hx : 0 ≤ x)
    (hplace : place (.ofMantissaAndAccuracy m accuracy) = station x) : ⌊x⌋₊ = m := by
  have hmantissa : (ExtendedMantissa.ofMantissaAndAccuracy m accuracy).mantissa = m := by
    rcases accuracy with _ | (_ | _ | _) <;> rfl
  rw [← (station_spec hx).1, ← hplace, place_div_four, hmantissa]

/-- The number of digits that an exact result loses, told from its significand and exponent. -/
theorem spacing_of_significand {m : ℕ} {e : ℤ} {x : ℚ} (hx : 0 ≤ x) (hfloor : ⌊x⌋₊ = m)
    (hdigits : 52 ≤ m.log2 ∨ e ≤ -1074) :
    (spacing (x * 2 ^ (e + 1074)) : ℤ) =
      Format.binary64.targetExponent (totalExponent m e) + 1074 := by
  rw [targetExponent_eq, totalExponent]
  obtain ⟨k, hk⟩ : ∃ k : ℕ, (k : ℤ) = max ((m.log2 : ℤ) + 1 + e - 53) (-1074) + 1074 :=
    ⟨_, Int.toNat_of_nonneg (by omega)⟩
  rw [← hk, Nat.cast_inj]
  -- the exact result has as many digits before the point as the significand
  have hlow : (m : ℚ) ≤ x := hfloor ▸ Nat.floor_le hx
  have hhigh : x < m + 1 := hfloor ▸ Nat.lt_floor_add_one x
  have hpos : (0 : ℚ) < 2 ^ (e + 1074) := zpow_pos two_pos _
  have hone : (1 : ℚ) ≤ 2 := by norm_num
  apply spacing_eq
  · have hsucc : ((m + 1 : ℕ) : ℚ) ≤ ((2 ^ (m.log2 + 1) : ℕ) : ℚ) :=
      Nat.cast_le.mpr Nat.lt_log2_self
    push_cast at hsucc
    calc x * 2 ^ (e + 1074) < 2 ^ (m.log2 + 1) * 2 ^ (e + 1074) :=
          mul_lt_mul_of_pos_right (hhigh.trans_le hsucc) hpos
      _ = 2 ^ (((m.log2 + 1 : ℕ) : ℤ) + (e + 1074)) := by
          rw [zpow_add₀ two_ne_zero ((m.log2 + 1 : ℕ) : ℤ), zpow_natCast]
      _ ≤ 2 ^ ((k + 53 : ℕ) : ℤ) := zpow_le_zpow_right₀ hone (by omega)
      _ = 2 ^ (k + 53) := zpow_natCast _ _
  · rcases Nat.eq_zero_or_pos k with hzero | hk_pos
    · exact Or.inl hzero
    · have hne : m ≠ 0 := by
        rintro rfl
        rw [Nat.log2_zero] at hdigits hk
        omega
      have hself : ((2 ^ m.log2 : ℕ) : ℚ) ≤ m := Nat.cast_le.mpr (Nat.log2_self_le hne)
      push_cast at hself
      right
      calc (2 : ℚ) ^ (k + 52) = 2 ^ ((k + 52 : ℕ) : ℤ) := (zpow_natCast _ _).symm
        _ ≤ 2 ^ ((m.log2 : ℤ) + (e + 1074)) := zpow_le_zpow_right₀ hone (by omega)
        _ = 2 ^ m.log2 * 2 ^ (e + 1074) := by
            rw [zpow_add₀ two_ne_zero (m.log2 : ℤ), zpow_natCast]
        _ ≤ x * 2 ^ (e + 1074) := mul_le_mul_of_nonneg_right (hself.trans hlow) hpos.le

/-- The first shift leaves a significand that, when it is rounded, is the rounded exact result. -/
theorem shift_rounds {m : ℕ} {e : ℤ} {accuracy : Accuracy} {x : ℚ} (hx : 0 ≤ x)
    (hplace : place (.ofMantissaAndAccuracy m accuracy) = station x)
    (hdigits : 52 ≤ m.log2 ∨ e ≤ -1074) :
    let shifted := shiftToTargetExponent Format.binary64 m e accuracy
    let X := x * 2 ^ (e + 1074)
    shifted.1.roundedMantissa = significand X ∧ shifted.2 = spacing X - 1074 := by
  intro shifted X
  set target := Format.binary64.targetExponent (totalExponent m e) with htarget
  have hspacing : (spacing X : ℤ) = target + 1074 :=
    spacing_of_significand hx (floor_of_place hx hplace) hdigits
  -- the shift never goes to the left
  obtain ⟨n, hn⟩ : ∃ n : ℕ, (n : ℤ) = target - e := by
    refine ⟨_, Int.toNat_of_nonneg ?_⟩
    rw [htarget, targetExponent_eq, totalExponent]
    omega
  have hamount : (target - e).toNat = n := by omega
  have hquotient : X / 2 ^ spacing X = x / 2 ^ n := by
    have hsplit : (2 : ℚ) ^ spacing X = 2 ^ n * 2 ^ (e + 1074) := by
      rw [← zpow_natCast, ← zpow_natCast, ← zpow_add₀ two_ne_zero, hspacing]
      congr 1
      omega
    rw [hsplit, mul_div_mul_right _ _ (zpow_ne_zero _ two_ne_zero)]
  have hshift : shifted.1 = ExtendedMantissa.ofMantissaAndAccuracy m accuracy >>> n := by
    rw [← hamount]
    rfl
  have hexponent : shifted.2 = e + (n : ℤ) := by
    rw [← hamount]
    rfl
  refine ⟨?_, by omega⟩
  rw [hshift, roundedMantissa_eq, place_shiftRight hx hplace, significand, hquotient, nearest]

/-- A rounded significand may have one digit too many, a power of two; the second shift takes it
away. -/
theorem shift_canonical {r : ℕ} {e : ℤ} (hr : r ≤ 2 ^ 53) (he : -1074 ≤ e)
    (hdigits : 2 ^ 52 ≤ r ∨ e = -1074) :
    let shifted := shiftToTargetExponent Format.binary64 r e .exact
    IsCanonical shifted.1.mantissa shifted.2 ∧ size shifted.1.mantissa shifted.2 = size r e := by
  intro shifted
  set target := Format.binary64.targetExponent (totalExponent r e) with htarget
  rw [targetExponent_eq, totalExponent] at htarget
  have hshifted : shifted =
      (ExtendedMantissa.ofMantissaAndAccuracy r .exact >>> (target - e).toNat,
        e + ((target - e).toNat : ℤ)) := rfl
  rcases hr.eq_or_lt with hcarry | hlt
  -- rounding has carried into a new digit
  · have hlog : r.log2 = 53 := by rw [hcarry, Nat.log2_two_pow]
    have hone : (target - e).toNat = 1 := by omega
    rw [hshifted, hone]
    change IsCanonical (r / 2) (e + 1) ∧ size (r / 2) (e + 1) = size r e
    refine ⟨⟨by omega, by omega, Or.inl (by omega)⟩, ?_⟩
    have hnext : (e + 1 + 1074).toNat = (e + 1074).toNat + 1 := by omega
    have heven : r / 2 * 2 = r := by omega
    rw [size, size, hnext, pow_succ', ← mul_assoc, heven]
  · have hlog : r.log2 < 53 := by
      rcases Nat.eq_zero_or_pos r with rfl | hpos
      · decide
      · exact (Nat.log2_lt hpos.ne').mpr hlt
    have hzero : (target - e).toNat = 0 := by omega
    rw [hshifted, hzero]
    change IsCanonical r (e + 0) ∧ size r (e + 0) = size r e
    rw [add_zero]
    exact ⟨⟨hlt, he, hdigits⟩, rfl⟩

/-- **What is stored of a rounded result.**  The significand is nonzero only if the rounded result
is, and the exponent may have become too large. -/
theorem hasQuanta_roundWithAccuracy (s : Sign) {m : ℕ} {e : ℤ} {accuracy : Accuracy} {x : ℚ}
    (hx : 0 ≤ x) (hplace : place (.ofMantissaAndAccuracy m accuracy) = station x)
    (hdigits : 52 ≤ m.log2 ∨ e ≤ -1074) :
    HasQuanta (stored (roundWithAccuracy Format.binary64 s m e accuracy))
      (s.apply (min (rounded (x * 2 ^ (e + 1074))) limit : ℕ)) := by
  obtain ⟨hsignificand, hexponent⟩ := shift_rounds hx hplace hdigits
  set X := x * 2 ^ (e + 1074)
  obtain ⟨hcanonical, hsame⟩ :=
    shift_canonical (e := spacing X - 1074) (significand_le X) (by omega)
    (by have := le_significand (x := X); omega)
  have hsize : size (significand X) (spacing X - 1074) = rounded X := by
    rw [size, sub_add_cancel, Int.toNat_natCast, rounded]
  unfold roundWithAccuracy
  rcases hfirst : shiftToTargetExponent Format.binary64 m e accuracy with ⟨first, e₁⟩
  rw [hfirst] at hsignificand hexponent
  simp only at hsignificand hexponent ⊢
  rw [hsignificand, hexponent]
  rcases hlast :
      shiftToTargetExponent Format.binary64 (significand X) (spacing X - 1074) .exact with
    ⟨last, e₂⟩
  rw [hlast] at hcanonical hsame
  simp only at hcanonical hsame ⊢
  rw [← hsize, ← hsame]
  split_ifs with hzero
  · rw [hzero, size, zero_mul, Nat.zero_min, Nat.cast_zero, apply_zero]
    exact hasQuanta_stored_zero s
  · exact hasQuanta_stored_finite s _ hcanonical

theorem place_exact (m : ℕ) : place (.ofMantissaAndAccuracy m .exact) = station (m : ℚ) := by
  rw [station_natCast]
  rfl

theorem log2_add_le {m : ℕ} (h : m ≠ 0) (k : ℕ) : m.log2 + k ≤ (m <<< k).log2 := by
  have hne : m <<< k ≠ 0 := by
    rw [Nat.shiftLeft_eq]
    positivity
  rw [Nat.le_log2 hne, Nat.shiftLeft_eq, pow_add]
  exact Nat.mul_le_mul_right _ (Nat.log2_self_le h)

/-- A significand that is too short is first given more digits. -/
theorem hasQuanta_round (s : Sign) {m : ℕ} (h : 0 < m) (e : ℤ) :
    HasQuanta (stored (round Format.binary64 s m e))
      (s.apply (min (rounded (m * 2 ^ (e + 1074))) limit : ℕ)) := by
  set target := Format.binary64.targetExponent (totalExponent m e) with htarget
  rw [targetExponent_eq, totalExponent] at htarget
  have hround : round Format.binary64 s m e = roundWithAccuracy Format.binary64 s
      (m <<< (e - target).toNat) (e - ((e - target).toNat : ℤ)) .exact := rfl
  obtain ⟨k, hk⟩ : ∃ k : ℕ, (e - target).toNat = k := ⟨_, rfl⟩
  rw [hround, hk]
  -- shifting to the left gives `k` zeros, which do not change the exact result
  have hlog : m.log2 + k ≤ (m <<< k).log2 := log2_add_le h.ne' k
  have hexact := hasQuanta_roundWithAccuracy s (e := e - k) (Nat.cast_nonneg (m <<< k))
    (place_exact (m <<< k)) (by omega)
  have hvalue : ((m <<< k : ℕ) : ℚ) * 2 ^ (e - k + 1074) = m * 2 ^ (e + 1074) := by
    rw [Nat.shiftLeft_eq, Nat.cast_mul, Nat.cast_pow, Nat.cast_ofNat, mul_assoc, ← zpow_natCast,
      ← zpow_add₀ two_ne_zero]
    congr 2
    omega
  rwa [hvalue] at hexact

theorem apply_eq_mul (s : Sign) (n : ℤ) : s.apply n = s.apply 1 * n := by
  cases s
  · exact (neg_one_mul n).symm
  · exact (one_mul n).symm

/-- The outcome of an exact result with a sign. -/
theorem outcome_apply (s : Sign) {x : ℚ} (hx : 0 ≤ x) :
    outcome ((s.apply 1 : ℤ) * x) = s.apply (min (rounded x) limit : ℕ) := by
  cases s
  · change outcome (((-1 : ℤ) : ℚ) * x) = -((min (rounded x) limit : ℕ) : ℤ)
    rw [Int.cast_neg, Int.cast_one, neg_one_mul, outcome_neg, outcome_of_nonneg hx]
  · change outcome (((1 : ℤ) : ℚ) * x) = ((min (rounded x) limit : ℕ) : ℤ)
    rw [Int.cast_one, one_mul, outcome_of_nonneg hx]

theorem hasQuanta_normalize (n : ℤ) (e : ℤ) (zeroSign : Sign) :
    HasQuanta (stored (UnpackedFloat.normalize Format.binary64 n e zeroSign))
      (outcome (n * 2 ^ (e + 1074))) := by
  have hpow : (0 : ℚ) ≤ 2 ^ (e + 1074) := zpow_nonneg two_pos.le _
  have hsigned : ∀ (s : Sign) (m : ℕ), 0 < m → n = s.apply 1 * m →
      HasQuanta (stored (round Format.binary64 s m e)) (outcome (n * 2 ^ (e + 1074))) := by
    intro s m hm hn
    rw [hn, Int.cast_mul, Int.cast_natCast, mul_assoc,
      outcome_apply s (mul_nonneg (Nat.cast_nonneg m) hpow)]
    exact hasQuanta_round s hm e
  unfold UnpackedFloat.normalize
  rcases lt_trichotomy n 0 with hn | rfl | hn
  · rw [compare_lt_iff_lt.mpr hn]
    exact hsigned .negative (-n).toNat (by omega) (by change n = -1 * _; omega)
  · rw [compare_eq_iff_eq.mpr rfl, Int.cast_zero, zero_mul, outcome_of_nonneg le_rfl,
      rounded_of_nonpos le_rfl, Nat.zero_min]
    exact hasQuanta_stored_zero zeroSign
  · rw [compare_gt_iff_gt.mpr hn]
    exact hsigned .positive n.toNat (by omega) (by change n = 1 * _; omega)

/-! ## The operations -/

/-- The number of quanta, from a significand that has been given more digits. -/
theorem apply_shiftLeft (s : Sign) (m : ℕ) {e least : ℤ} (he : least ≤ e) (hleast : -1074 ≤ least) :
    ((s.apply (m <<< (e - least).toNat : ℕ) : ℤ) : ℚ) * 2 ^ (least + 1074) =
      (s.apply (size m e) : ℤ) := by
  have hexponent : (e + 1074).toNat = (e - least).toNat + (least + 1074).toNat := by omega
  have hpow : (2 : ℚ) ^ (least + 1074) = ((2 ^ (least + 1074).toNat : ℕ) : ℤ) := by
    rw [Int.cast_natCast, Nat.cast_pow, Nat.cast_ofNat, ← zpow_natCast,
      Int.toNat_of_nonneg (by omega)]
  rw [hpow, ← Int.cast_mul, apply_eq_mul s, apply_eq_mul s (size m e), mul_assoc, ← Nat.cast_mul,
    Nat.shiftLeft_eq, mul_assoc, ← pow_add, ← hexponent, size]

@[simp] theorem outcome_zero : outcome 0 = 0 := by
  rw [outcome_of_nonneg le_rfl, rounded_of_nonpos le_rfl, Nat.zero_min]
  rfl

/-- What is stored of a number with its digits in place. -/
theorem hasQuanta_stored_outcome (s : Sign) {m : ℕ} {e : ℤ} (h : 0 < m)
    (hcanonical : IsCanonical m e) :
    HasQuanta (stored (.finite s m e h)) (outcome (s.apply (size m e) : ℤ)) := by
  have hfits : rounded ((size m e : ℕ) : ℚ) = size m e := rounded_of_fits hcanonical.1 _
  rw [apply_eq_mul, Int.cast_mul, Int.cast_natCast, outcome_apply s (Nat.cast_nonneg _), hfits]
  exact hasQuanta_stored_finite s h hcanonical

/-- A number with its digits in place is not changed. -/
theorem outcome_quanta {u : UnpackedFloat} (hu : IsProper u) (hfinite : u.isFinite = true) :
    outcome (quanta u) = quanta u := by
  cases u with
  | notANumber => cases hfinite
  | infinity s => cases hfinite
  | zero s => exact outcome_zero
  | finite s m e h =>
    rw [quanta, ← (hasQuanta_stored_outcome s h hu.1).2, (hasQuanta_stored_finite s h hu.1).2,
      min_eq_left (size_lt_limit hu.1 hu.2).le]

theorem hasQuanta_add {u v : UnpackedFloat} (hu : IsProper u) (hv : IsProper v)
    (hu' : u.isFinite = true) (hv' : v.isFinite = true) :
    HasQuanta (stored (add Format.binary64 u v)) (outcome (quanta u + quanta v)) := by
  cases u with
  | notANumber => cases hu'
  | infinity s₁ => cases hu'
  | zero s₁ =>
    cases v with
    | notANumber => cases hv'
    | infinity s₂ => cases hv'
    | zero s₂ =>
      rw [quanta, quanta, Int.cast_zero, add_zero, outcome_zero, UnpackedFloat.add]
      split <;> exact hasQuanta_stored_zero _
    | finite s₂ m₂ e₂ h₂ =>
      rw [quanta, quanta, Int.cast_zero, zero_add]
      exact hasQuanta_stored_outcome s₂ h₂ hv.1
  | finite s₁ m₁ e₁ h₁ =>
    cases v with
    | notANumber => cases hv'
    | infinity s₂ => cases hv'
    | zero s₂ =>
      rw [quanta, quanta, Int.cast_zero, add_zero]
      exact hasQuanta_stored_outcome s₁ h₁ hu.1
    | finite s₂ m₂ e₂ h₂ =>
      have hleast : -1074 ≤ min e₁ e₂ := le_min hu.1.2.1 hv.1.2.1
      rw [quanta, quanta, ← apply_shiftLeft s₁ m₁ (min_le_left e₁ e₂) hleast,
        ← apply_shiftLeft s₂ m₂ (min_le_right e₁ e₂) hleast, ← add_mul, ← Int.cast_add]
      exact hasQuanta_normalize _ _ _

theorem apply_neg (s : Sign) (n : ℤ) : (-s).apply n = -s.apply n := by
  cases s
  · exact (neg_neg n).symm
  · rfl

/-- To subtract a number is to add the opposite number. -/
theorem sub_eq_add (u v : UnpackedFloat) :
    sub Format.binary64 u v = add Format.binary64 u v.neg := by
  cases u with
  | notANumber => rfl
  | infinity s₁ => cases v <;> rfl
  | zero s₁ => cases v <;> rfl
  | finite s₁ m₁ e₁ h₁ =>
    cases v with
    | notANumber => rfl
    | infinity s₂ => rfl
    | zero s₂ => rfl
    | finite s₂ m₂ e₂ h₂ =>
      simp only [UnpackedFloat.neg, UnpackedFloat.sub, UnpackedFloat.add, apply_neg,
        Int.sub_eq_add_neg]

theorem isProper_neg {v : UnpackedFloat} (hv : IsProper v) : IsProper v.neg := by
  cases v <;> exact hv

@[simp] theorem quanta_neg (v : UnpackedFloat) : quanta v.neg = -quanta v := by
  cases v with
  | notANumber => rfl
  | infinity s => exact apply_neg s limit
  | zero s => rfl
  | finite s m e h => exact apply_neg s (size m e)

theorem hasQuanta_sub {u v : UnpackedFloat} (hu : IsProper u) (hv : IsProper v)
    (hu' : u.isFinite = true) (hv' : v.isFinite = true) :
    HasQuanta (stored (sub Format.binary64 u v)) (outcome (quanta u - quanta v)) := by
  have hneg : v.neg.isFinite = true := by
    cases v <;> exact hv'
  have hsum := hasQuanta_add hu (isProper_neg hv) hu' hneg
  rwa [quanta_neg, Int.cast_neg, ← sub_eq_add, ← sub_eq_add_neg] at hsum

/-- The number of quanta that make up one. -/
def unity : ℚ :=
  2 ^ (1074 : ℤ)

theorem unity_pos : 0 < unity :=
  zpow_pos two_pos _

theorem cast_size (m : ℕ) {e : ℤ} (he : -1074 ≤ e) : (size m e : ℚ) = m * (2 ^ e * unity) := by
  rw [size, Nat.cast_mul, Nat.cast_pow, Nat.cast_ofNat, unity, ← zpow_add₀ two_ne_zero,
    ← zpow_natCast, Int.toNat_of_nonneg (by omega)]

theorem cast_quanta_finite (s : Sign) (m : ℕ) {e : ℤ} (h : 0 < m) (he : -1074 ≤ e) :
    (quanta (.finite s m e h) : ℚ) = (s.apply 1 : ℤ) * (m * (2 ^ e * unity)) := by
  rw [quanta, apply_eq_mul, Int.cast_mul, Int.cast_natCast, cast_size m he]

theorem apply_mul (s₁ s₂ : Sign) : (s₁ * s₂).apply 1 = s₁.apply 1 * s₂.apply 1 := by
  cases s₁ <;> cases s₂ <;> rfl

theorem apply_div (s₁ s₂ : Sign) : (s₁ / s₂).apply 1 * s₂.apply 1 = s₁.apply 1 := by
  cases s₁ <;> cases s₂ <;> rfl

/-- The product of two numbers, if it has digits enough. -/
theorem hasQuanta_mul_finite (s₁ s₂ : Sign) {m₁ m₂ : ℕ} {e₁ e₂ : ℤ} (h₁ : 0 < m₁) (h₂ : 0 < m₂)
    (hdigits : 52 ≤ (m₁ * m₂).log2 ∨ e₁ + e₂ ≤ -1074) :
    HasQuanta (stored (mul Format.binary64 (.finite s₁ m₁ e₁ h₁) (.finite s₂ m₂ e₂ h₂)))
      (outcome ((s₁.apply 1 : ℤ) * (m₁ * (2 ^ e₁ * unity)) * ((s₂.apply 1 : ℤ) * (m₂ * 2 ^ e₂)))) := by
  have hvalue : ((s₁.apply 1 : ℤ) * (m₁ * (2 ^ e₁ * unity)) * ((s₂.apply 1 : ℤ) * (m₂ * 2 ^ e₂)) : ℚ) =
      ((s₁ * s₂).apply 1 : ℤ) * ((m₁ * m₂ : ℕ) * 2 ^ (e₁ + e₂ + 1074)) := by
    rw [apply_mul, zpow_add₀ two_ne_zero (e₁ + e₂), zpow_add₀ two_ne_zero, ← unity]
    push_cast
    ring
  rw [hvalue, outcome_apply _ (by positivity)]
  exact hasQuanta_roundWithAccuracy (s₁ * s₂) (Nat.cast_nonneg _) (place_exact _) hdigits

theorem hasQuanta_mul {u v : UnpackedFloat} (hu : IsProper u) (hv : IsProper v)
    (hu' : u.isFinite = true) (hv' : v.isFinite = true) :
    HasQuanta (stored (mul Format.binary64 u v)) (outcome (quanta u * quanta v / unity)) := by
  cases u with
  | notANumber => cases hu'
  | infinity s₁ => cases hu'
  | zero s₁ =>
    rw [quanta, Int.cast_zero, zero_mul, zero_div, outcome_zero]
    cases v with
    | notANumber => cases hv'
    | infinity s₂ => cases hv'
    | zero s₂ => exact hasQuanta_stored_zero _
    | finite s₂ m₂ e₂ h₂ => exact hasQuanta_stored_zero _
  | finite s₁ m₁ e₁ h₁ =>
    cases v with
    | notANumber => cases hv'
    | infinity s₂ => cases hv'
    | zero s₂ =>
      rw [quanta, quanta, Int.cast_zero, mul_zero, zero_div, outcome_zero]
      exact hasQuanta_stored_zero _
    | finite s₂ m₂ e₂ h₂ =>
      -- one factor with all its digits is enough for the product
      have hdigits : 52 ≤ (m₁ * m₂).log2 ∨ e₁ + e₂ ≤ -1074 := by
        rw [Nat.le_log2 (Nat.mul_pos h₁ h₂).ne']
        rcases hu.1.2.2 with hm₁ | he₁
        · exact Or.inl (hm₁.trans (Nat.le_mul_of_pos_right _ h₂))
        · rcases hv.1.2.2 with hm₂ | he₂
          · exact Or.inl (hm₂.trans (Nat.le_mul_of_pos_left _ h₁))
          · exact Or.inr (by omega)
      have hproduct := hasQuanta_mul_finite s₁ s₂ h₁ h₂ hdigits
      have hunity := unity_pos.ne'
      have hsame : (quanta (.finite s₁ m₁ e₁ h₁) * quanta (.finite s₂ m₂ e₂ h₂) / unity : ℚ) =
          (s₁.apply 1 : ℤ) * (m₁ * (2 ^ e₁ * unity)) * ((s₂.apply 1 : ℤ) * (m₂ * 2 ^ e₂)) := by
        rw [cast_quanta_finite s₁ m₁ h₁ hu.1.2.1, cast_quanta_finite s₂ m₂ h₂ hv.1.2.1]
        field_simp
      rwa [← hsame] at hproduct

/-- The place of a quotient, from its whole part and its remainder. -/
theorem place_accuracyOfFraction (n d : ℕ) (hd : 0 < d) :
    place (.ofMantissaAndAccuracy (n / d) (accuracyOfFraction (n % d) d)) =
      station (n / d : ℚ) := by
  have hsplit : (n / d : ℚ) = (n / d : ℕ) + (n % d : ℕ) / d := by
    have hne : (d : ℚ) ≠ 0 := Nat.cast_ne_zero.mpr hd.ne'
    rw [div_eq_iff hne, add_mul, div_mul_cancel₀ _ hne]
    exact_mod_cast (Nat.div_add_mod' n d).symm
  rw [hsplit, station_add_div _ _ _ (Nat.mod_lt n hd), accuracyOfFraction]
  split_ifs with hzero hbelow hhalf
  · rfl
  · rw [compare_lt_iff_lt.mpr hbelow]
    rfl
  · rw [compare_eq_iff_eq.mpr hhalf]
    rfl
  · rw [compare_gt_iff_gt.mpr (by omega)]
    rfl

/-- A quotient is computed to 53 digits or more, unless its exponent is the least one. -/
theorem digits_of_quotient {m₁ m₂ : ℕ} (h₁ : 0 < m₁) (h₂ : 0 < m₂) {k : ℕ}
    (hk : m₂.log2 + 53 ≤ m₁.log2 + k) : 52 ≤ (m₁ <<< k / m₂).log2 := by
  have hdividend : m₁ <<< k ≠ 0 := by
    rw [Nat.shiftLeft_eq]
    positivity
  have hle : 2 ^ 52 ≤ m₁ <<< k / m₂ := by
    rw [Nat.le_div_iff_mul_le h₂]
    calc 2 ^ 52 * m₂ ≤ 2 ^ 52 * 2 ^ (m₂.log2 + 1) := Nat.mul_le_mul_left _ Nat.lt_log2_self.le
      _ = 2 ^ (m₂.log2 + 53) := by rw [← pow_add]; congr 1; omega
      _ ≤ m₁ <<< k := (Nat.le_log2 hdividend).mp (hk.trans (log2_add_le h₁.ne' k))
  exact (Nat.le_log2 (by omega)).mpr hle

/-- The quotient of two numbers. -/
theorem hasQuanta_div_finite (s₁ s₂ : Sign) {m₁ m₂ : ℕ} (e₁ e₂ : ℤ) (h₁ : 0 < m₁) (h₂ : 0 < m₂) :
    HasQuanta (stored (div Format.binary64 (.finite s₁ m₁ e₁ h₁) (.finite s₂ m₂ e₂ h₂)))
      (outcome ((s₁.apply 1 : ℤ) * (m₁ * 2 ^ e₁) / ((s₂.apply 1 : ℤ) * (m₂ * 2 ^ e₂)) * unity)) := by
  set t := min (e₁ - e₂)
    (Format.binary64.targetExponent (totalExponent m₁ e₁ - totalExponent m₂ e₂)) with ht
  rw [targetExponent_eq, totalExponent, totalExponent] at ht
  obtain ⟨k, hk⟩ : ∃ k : ℕ, (e₁ - e₂ - t).toNat = k := ⟨_, rfl⟩
  have hdiv : div Format.binary64 (.finite s₁ m₁ e₁ h₁) (.finite s₂ m₂ e₂ h₂) =
      roundWithAccuracy Format.binary64 (s₁ / s₂) (m₁ <<< k / m₂) t
        (accuracyOfFraction (m₁ <<< k % m₂) m₂) := by
    rw [← hk]
    rfl
  have hdigits : 52 ≤ (m₁ <<< k / m₂).log2 ∨ t ≤ -1074 := by
    rcases le_or_gt t (-1074) with hleast | hgreater
    · exact Or.inr hleast
    · exact Or.inl (digits_of_quotient h₁ h₂ (by omega))
  have hvalue : ((s₁.apply 1 : ℤ) * (m₁ * 2 ^ e₁) / ((s₂.apply 1 : ℤ) * (m₂ * 2 ^ e₂)) * unity : ℚ) =
      ((s₁ / s₂).apply 1 : ℤ) * ((m₁ <<< k : ℕ) / m₂ * 2 ^ (t + 1074)) := by
    have hexponent : (2 : ℚ) ^ e₁ = 2 ^ k * 2 ^ t * 2 ^ e₂ := by
      rw [← zpow_natCast, ← zpow_add₀ two_ne_zero, ← zpow_add₀ two_ne_zero]
      congr 1
      omega
    have hsign : ((s₂.apply 1 : ℤ) : ℚ) ≠ 0 := by
      rw [Int.cast_ne_zero]
      cases s₂ <;> decide
    have hm₂ : (m₂ : ℚ) ≠ 0 := Nat.cast_ne_zero.mpr h₂.ne'
    rw [← apply_div s₁ s₂, hexponent, zpow_add₀ two_ne_zero t, ← unity, Nat.shiftLeft_eq]
    push_cast
    field_simp
  rw [hdiv, hvalue, outcome_apply _ (by positivity)]
  exact hasQuanta_roundWithAccuracy (s₁ / s₂) (by positivity) (place_accuracyOfFraction _ _ h₂)
    hdigits

theorem hasQuanta_div {u v : UnpackedFloat} (hu : IsProper u) (hv : IsProper v)
    (hu' : u.isFinite = true) (hv' : v.isFinite = true) (hne : quanta v ≠ 0) :
    HasQuanta (stored (div Format.binary64 u v)) (outcome (quanta u / quanta v * unity)) := by
  cases v with
  | notANumber => cases hv'
  | infinity s₂ => cases hv'
  | zero s₂ => exact absurd rfl hne
  | finite s₂ m₂ e₂ h₂ =>
    cases u with
    | notANumber => cases hu'
    | infinity s₁ => cases hu'
    | zero s₁ =>
      have hzero : quanta (.zero s₁) = 0 := rfl
      rw [hzero, Int.cast_zero, zero_div, zero_mul, outcome_zero]
      exact hasQuanta_stored_zero _
    | finite s₁ m₁ e₁ h₁ =>
      have hquotient := hasQuanta_div_finite s₁ s₂ e₁ e₂ h₁ h₂
      have hunity := unity_pos.ne'
      have hsign : ((s₂.apply 1 : ℤ) : ℚ) ≠ 0 := by
        rw [Int.cast_ne_zero]
        cases s₂ <;> decide
      have hsame : (quanta (.finite s₁ m₁ e₁ h₁) / quanta (.finite s₂ m₂ e₂ h₂) : ℚ) =
          (s₁.apply 1 : ℤ) * (m₁ * 2 ^ e₁) / ((s₂.apply 1 : ℤ) * (m₂ * 2 ^ e₂)) := by
        rw [cast_quanta_finite s₁ m₁ h₁ hu.1.2.1, cast_quanta_finite s₂ m₂ h₂ hv.1.2.1]
        field_simp
      rwa [← hsame] at hquotient

end PlanPlayback.Binary64
