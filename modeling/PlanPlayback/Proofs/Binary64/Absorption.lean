import PlanPlayback.Proofs.Binary64.Bits

/-!
# Sums that are larger than their parts

A sum is rounded, so adding a positive number may change nothing.  It does not if the number is more
than half as large as the distance to the next number.  A number with 53 binary digits is less than
`2 ^ 53` of these distances, and hence less than `2 ^ 53` summands of that kind.

* `lt_rounded_add` says so of quanta, `lt_add_of_lt` of floating-point numbers.
-/

namespace PlanPlayback.Binary64

open Float.Model UnpackedFloat

/-- A power of two is exact, too. -/
theorem rounded_of_le_two_pow {m : ℕ} (hm : m ≤ 2 ^ 53) (k : ℕ) :
    rounded ((m * 2 ^ k : ℕ) : ℚ) = m * 2 ^ k := by
  rcases hm.lt_or_eq with hlt | rfl
  · exact rounded_of_fits hlt k
  · have hpower : 2 ^ 53 * 2 ^ k = 1 * 2 ^ (53 + k) := by rw [one_mul, pow_add]
    rw [hpower]
    exact rounded_of_fits (by decide) _

/-- What is added to a number is not lost if the number is less than `2 ^ 53` times as large. -/
theorem lt_rounded_add {m k d : ℕ} (hm : m < 2 ^ 53) (hdigits : 2 ^ 52 ≤ m ∨ k = 0)
    (hd : m * 2 ^ k < 2 ^ 53 * d) : m * 2 ^ k < rounded ((m * 2 ^ k + d : ℕ) : ℚ) := by
  have hpow : 0 < 2 ^ k := by positivity
  have hnext : m * 2 ^ k < (m + 1) * 2 ^ k := Nat.mul_lt_mul_of_pos_right (Nat.lt_succ_self m) hpow
  by_cases hlarge : 2 ^ k ≤ d
  -- the sum lies beyond the next number, which is exact
  · calc m * 2 ^ k < (m + 1) * 2 ^ k := hnext
      _ = rounded (((m + 1) * 2 ^ k : ℕ) : ℚ) := (rounded_of_le_two_pow hm k).symm
      _ ≤ rounded ((m * 2 ^ k + d : ℕ) : ℚ) := by
          refine rounded_mono (Nat.cast_le.mpr ?_)
          rw [Nat.succ_mul]
          exact Nat.add_le_add_left hlarge _
  -- the sum lies before the next number, and nearer to it than to the number itself
  · have hdpos : 0 < d := Nat.pos_of_mul_pos_left (Nat.zero_lt_of_lt hd)
    have hlead : 2 ^ 52 ≤ m := hdigits.resolve_right (by rintro rfl; omega)
    have hhalf : 2 ^ k < 2 * d := by
      have hscaled : 2 ^ 52 * 2 ^ k < 2 ^ 52 * (2 * d) :=
        calc 2 ^ 52 * 2 ^ k ≤ m * 2 ^ k := Nat.mul_le_mul_right _ hlead
          _ < 2 ^ 53 * d := hd
          _ = 2 ^ 52 * (2 * d) := by ring
      exact Nat.lt_of_mul_lt_mul_left hscaled
    have hbelow : d < 2 ^ k := not_le.mp hlarge
    have hspacing : spacing ((m * 2 ^ k + d : ℕ) : ℚ) = k := by
      refine spacing_eq ?_ (Or.inr ?_)
      · have hle : m * 2 ^ k + d < 2 ^ (k + 53) :=
          calc m * 2 ^ k + d < (m + 1) * 2 ^ k := by rw [Nat.succ_mul]; omega
            _ ≤ 2 ^ 53 * 2 ^ k := Nat.mul_le_mul_right _ hm
            _ = 2 ^ (k + 53) := by rw [add_comm, pow_add]
        exact_mod_cast hle
      · have hle : 2 ^ (k + 52) ≤ m * 2 ^ k + d :=
          calc 2 ^ (k + 52) = 2 ^ 52 * 2 ^ k := by rw [add_comm, pow_add]
            _ ≤ m * 2 ^ k := Nat.mul_le_mul_right _ hlead
            _ ≤ m * 2 ^ k + d := Nat.le_add_right _ _
        exact_mod_cast hle
    have hhalf_cast : (2 ^ k : ℚ) < 2 * d := by exact_mod_cast hhalf
    have hbelow_cast : (d : ℚ) < 2 ^ k := by exact_mod_cast hbelow
    have hrounded : rounded ((m * 2 ^ k + d : ℕ) : ℚ) = (m + 1) * 2 ^ k := by
      push_cast at hspacing ⊢
      refine rounded_eq (Nat.succ_pos m) hspacing ?_ ?_ fun _ => ⟨?_, ?_⟩ <;> push_cast <;> linarith
    exact hnext.trans_eq hrounded.symm

/-- The quanta of a number that is not negative. -/
theorem measure_eq_size {x : Float} (hx : x.isFinite = true) (hnonneg : 0.0 ≤ x) :
    measure x = size (mantissa x) (exponent x) := by
  obtain ⟨hnumber, hmeasure⟩ := nonneg_iff.mp hnonneg
  rw [measure_eq_apply hnumber, height, if_pos (field_lt_of_isFinite hx)] at hmeasure ⊢
  cases hsign : signOf x with
  | positive => rfl
  | negative =>
    rw [hsign] at hmeasure
    change 0 ≤ -(size (mantissa x) (exponent x) : ℤ) at hmeasure
    change -(size (mantissa x) (exponent x) : ℤ) = size (mantissa x) (exponent x)
    omega

/-- Infinity is larger than everything that is added to. -/
theorem lt_add_of_infinite {t δ : Float} (ht : t.isFinite = true) (hδ : 0.0 ≤ δ)
    (hinfinite : δ.isFinite = false) : t < t + δ := by
  have ht_number := isNumber_of_finite ht
  have hlimit : measure δ = limit := congrArg quanta (parts_of_nonneg hδ hinfinite)
  obtain ⟨-, hbelow⟩ := (isFinite_iff (isProper_parts t) ht_number).mp ht
  obtain ⟨hsum, hcases⟩ := (computes_add ht).measure_eq (nonneg_iff.mp hδ).1
  have hpos := limit_pos
  refine lt_iff.mpr ⟨ht_number, hsum, ?_⟩
  change measure t < limit at hbelow
  omega

/-- A multiple by a power of two is exact, unless it is infinite. -/
theorem measure_mul_le {x : Float} (hx : x.isFinite = true) (hnonneg : 0.0 ≤ x) :
    measure (x * 9007199254740992.0) ≤ 2 ^ 53 * size (mantissa x) (exponent x) := by
  have hscale_quanta : measure 9007199254740992.0 = (size 1 53 : ℕ) := by decide +kernel
  have hscale : (measure 9007199254740992.0 : ℚ) = 2 ^ 53 * unity := by
    have hpow : (2 : ℚ) ^ (53 : ℤ) = 2 ^ 53 := zpow_natCast 2 53
    rw [hscale_quanta, Int.cast_natCast, cast_size 1 (by decide), Nat.cast_one, one_mul, hpow]
  have hfinite := (isFinite_iff (isProper_parts x) (nonneg_iff.mp hnonneg).1).mp hx
  obtain ⟨-, hcases⟩ := (computes_mul (z := 9007199254740992.0) (by decide) (by decide)).measure_eq
    (nonneg_iff.mp hnonneg).1
  have hexact : ((measure x : ℚ) * measure 9007199254740992.0 / unity) =
      ((mantissa x * 2 ^ ((exponent x + 1074).toNat + 53) : ℕ) : ℚ) := by
    rw [hscale, measure_eq_size hx hnonneg, ← mul_assoc, mul_div_cancel_right₀ _ unity_pos.ne',
      size]
    push_cast
    ring
  rw [hexact, outcome_of_nonneg (Nat.cast_nonneg _), rounded_of_fits (isCanonical_mantissa x).1,
    pow_add, ← mul_assoc] at hcases
  change -(limit : ℤ) < measure x ∧ measure x < limit at hfinite
  rw [size]
  push_cast at hcases ⊢
  omega

/-- **A sum is larger than its first part** if this lies before some number that is at most
`2 ^ 53` times as large as the second part. -/
theorem lt_add_of_lt {t total δ : Float} (htotal : total.isFinite = true) (ht : 0.0 ≤ t)
    (hlt : t < total) (hδ : 0.0 ≤ δ) (hle : total ≤ δ * 9007199254740992.0) : t < t + δ := by
  have htfinite : t.isFinite = true :=
    isFinite_of_between (by decide) htotal ht (Binary64.le_of_lt hlt)
  cases hfinite : δ.isFinite with
  | false => exact lt_add_of_infinite htfinite hδ hfinite
  | true =>
    have ht_number := isNumber_of_finite htfinite
    have hbelow := (isFinite_iff (isProper_parts t) ht_number).mp htfinite
    obtain ⟨-, hlow, hdigits⟩ := isCanonical_mantissa t
    have hratio : size (mantissa t) (exponent t) < 2 ^ 53 * size (mantissa δ) (exponent δ) := by
      have hchain : measure t < 2 ^ 53 * size (mantissa δ) (exponent δ) :=
        calc measure t < measure total := (lt_iff.mp hlt).2.2
          _ ≤ measure (δ * 9007199254740992.0) := (le_iff.mp hle).2.2
          _ ≤ 2 ^ 53 * size (mantissa δ) (exponent δ) := measure_mul_le hfinite hδ
      rw [measure_eq_size htfinite ht] at hchain
      exact_mod_cast hchain
    have hrounded := lt_rounded_add (isCanonical_mantissa t).1
      (hdigits.imp_right fun he => by rw [he]; rfl) hratio
    have hsum := hasQuanta_add (isProper_parts t) (isProper_parts δ) htfinite hfinite
    have hexact : (quanta (parts t) + quanta (parts δ) : ℚ) =
        ((size (mantissa t) (exponent t) + size (mantissa δ) (exponent δ) : ℕ) : ℚ) := by
      change (measure t + measure δ : ℚ) = _
      rw [measure_eq_size htfinite ht, measure_eq_size hfinite hδ]
      push_cast
      rfl
    rw [hexact, outcome_of_nonneg (Nat.cast_nonneg _)] at hsum
    have hmeasure : measure (t + δ) = _ := hsum.2
    refine lt_iff.mpr ⟨ht_number, hsum.1, ?_⟩
    change -(limit : ℤ) < measure t ∧ measure t < limit at hbelow
    rw [measure_eq_size htfinite ht] at hbelow ⊢
    rw [hmeasure, Nat.cast_lt]
    exact lt_min hrounded (by exact_mod_cast hbelow.2)

end PlanPlayback.Binary64
