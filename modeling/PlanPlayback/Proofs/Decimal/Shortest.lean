import PlanPlayback.Decimal.Shortest
import PlanPlayback.Proofs.Decimal.Nearest

/-!
# Shortest decimals read back

A decimal is taken for a floating-point number if it lies in the interval of rational numbers that
round to it.  That is shown to be what the test in `candidate?` says, and rounding is shown to lead
back from the interval to the number.

## Strategy

Everything is compared in the rational numbers.  The significand `m` of a number is the middle of its
interval, which reaches up by one half, and down by one half or, where the numbers below are denser,
by a quarter.

The grids are finer from one to the next, and on the last one, with 17 digits, the distance of two
neighbours is less than twice the distance from the middle of the interval to either end.  So one of
the two neighbours of the number lies inside (`isSome_candidate?`), and the search never comes to
its end without a result.
-/

namespace PlanPlayback.Decimal

open Binary64

/-- The rational number that a decimal stands for. -/
def Scaled.value (d : Scaled) : ℚ :=
  d.coefficient * 10 ^ d.exponent

/-- How far the interval of the rational numbers that round to `m · 2 ^ e` reaches down, in quarters
of `2 ^ e`.  Below a power of two the numbers are twice as dense. -/
def quartersBelow (m : ℕ) (e : ℤ) : ℕ :=
  if m = Nat.pow 2 52 ∧ -1074 < e then 1 else 2

/-- The same in units of `2 ^ e`. -/
def gapBelow (m : ℕ) (e : ℤ) : ℚ :=
  quartersBelow m e / 4

/-- The rational numbers that round to `m · 2 ^ e`. -/
structure RoundsTo (m : ℕ) (e : ℤ) (q : ℚ) : Prop where
  lower : (m - gapBelow m e) * 2 ^ e ≤ q
  upper : q ≤ (m + 1 / 2) * 2 ^ e
  inside_of_odd : m % 2 = 1 → (m - gapBelow m e) * 2 ^ e < q ∧ q < (m + 1 / 2) * 2 ^ e

theorem gapBelow_le (m : ℕ) (e : ℤ) : gapBelow m e ≤ 1 / 2 := by
  unfold gapBelow quartersBelow
  split_ifs <;> norm_num

/-- An interval that is measured in quanta. -/
theorem RoundsTo.scale {m k : ℕ} {e : ℤ} {q : ℚ} (h : RoundsTo m e q) (hk : (k : ℤ) = e + 1074) :
    (m - gapBelow m e) * 2 ^ k ≤ q * unity ∧ q * unity ≤ (m + 1 / 2) * 2 ^ k ∧
      (m % 2 = 1 →
        (m - gapBelow m e) * 2 ^ k < q * unity ∧ q * unity < (m + 1 / 2) * 2 ^ k) := by
  have hunity := unity_pos
  have hscale : (2 : ℚ) ^ k = 2 ^ e * unity := by
    rw [unity, ← zpow_add₀ two_ne_zero, ← hk, zpow_natCast]
  rw [hscale, ← mul_assoc, ← mul_assoc]
  exact ⟨mul_le_mul_of_nonneg_right h.lower hunity.le, mul_le_mul_of_nonneg_right h.upper hunity.le,
    fun hodd => ⟨mul_lt_mul_of_pos_right (h.inside_of_odd hodd).1 hunity,
      mul_lt_mul_of_pos_right (h.inside_of_odd hodd).2 hunity⟩⟩

/-- **Rounding leads back.**  Only at a power of two may a digit less have to be cut off, because the
numbers below are denser. -/
theorem RoundsTo.rounded_eq {m : ℕ} {e : ℤ} {q : ℚ} (h : RoundsTo m e q) (hm : 0 < m)
    (hcanonical : IsCanonical m e) : rounded (q * unity) = size m e := by
  obtain ⟨hlt, hleast, hdigits⟩ := hcanonical
  obtain ⟨k, hk⟩ : ∃ k : ℕ, (k : ℤ) = e + 1074 := ⟨_, Int.toNat_of_nonneg (by omega)⟩
  have hsize : size m e = m * 2 ^ k := by
    rw [size, ← hk, Int.toNat_natCast]
  obtain ⟨hlower, hupper, hinside⟩ := h.scale hk
  generalize q * unity = X at *
  have hpow : (0 : ℚ) < 2 ^ k := by positivity
  have hgap := gapBelow_le m e
  have hm_cast : (m : ℚ) + 1 ≤ 2 ^ 53 := by exact_mod_cast hlt
  have hX_high : X < 2 ^ (k + 53) :=
    calc X ≤ (m + 1 / 2) * 2 ^ k := hupper
      _ < 2 ^ 53 * 2 ^ k := mul_lt_mul_of_pos_right (by linarith) hpow
      _ = 2 ^ (k + 53) := by rw [← pow_add, add_comm]
  by_cases hX_low : k = 0 ∨ 2 ^ (k + 52) ≤ X
  · have hhalf : ((m : ℚ) - 1 / 2) * 2 ^ k ≤ (m - gapBelow m e) * 2 ^ k :=
      mul_le_mul_of_nonneg_right (by linarith) hpow.le
    rw [hsize]
    exact Binary64.rounded_eq hm (spacing_eq hX_high hX_low) (hhalf.trans hlower) hupper
      fun hodd => ⟨hhalf.trans_lt (hinside hodd).1, (hinside hodd).2⟩
  -- the number lies below the power of two to which it is rounded
  · obtain ⟨hk_ne, hX_lt⟩ := not_or.mp hX_low
    rw [not_le] at hX_lt
    obtain ⟨j, rfl⟩ : ∃ j, k = j + 1 := ⟨k - 1, by omega⟩
    have hm_low : 2 ^ 52 ≤ m := hdigits.resolve_right (by omega)
    have hm_eq : m = 2 ^ 52 := by
      by_contra hne
      have hm_next : (2 : ℚ) ^ 52 + 1 ≤ m := by exact_mod_cast lt_of_le_of_ne hm_low (Ne.symm hne)
      have : (2 : ℚ) ^ (j + 1 + 52) ≤ X :=
        calc (2 : ℚ) ^ (j + 1 + 52) = 2 ^ 52 * 2 ^ (j + 1) := by rw [← pow_add, add_comm]
          _ ≤ (m - gapBelow m e) * 2 ^ (j + 1) :=
              mul_le_mul_of_nonneg_right (by linarith) hpow.le
          _ ≤ X := hlower
      exact absurd hX_lt (not_lt.mpr this)
    have hpow' : (0 : ℚ) < 2 ^ j := by positivity
    have hlower' : (((2 ^ 53 : ℕ) : ℚ) - 1 / 2) * 2 ^ j ≤ X := by
      have hgap_eq : gapBelow m e = 1 / 4 := by
        rw [gapBelow, quartersBelow, if_pos ⟨hm_eq, by omega⟩, Nat.cast_one]
      refine le_of_eq_of_le ?_ hlower
      rw [hgap_eq, hm_eq, pow_succ]
      push_cast
      ring
    have hupper' : X < ((2 ^ 53 : ℕ) : ℚ) * 2 ^ j := by
      refine lt_of_lt_of_eq hX_lt ?_
      push_cast
      ring
    have hspacing : spacing X = j := by
      refine spacing_eq (lt_of_lt_of_eq hX_lt (by ring)) (.inr (le_trans ?_ hlower'))
      rw [add_comm, pow_add]
      exact mul_le_mul_of_nonneg_right (by norm_num) hpow'.le
    rw [Binary64.rounded_eq (by decide) hspacing hlower'
      (hupper'.le.trans (mul_le_mul_of_nonneg_right (by linarith) hpow'.le))
      fun hodd => absurd hodd (by decide), hsize, hm_eq, pow_succ]
    ring

/-! ## The test on a grid -/

theorem ratio_pos (s : ℕ) (e u : ℤ) : 0 < (ratio s e u).2 :=
  Nat.mul_pos (Nat.pow_pos (by decide)) (Nat.pow_pos (by decide))

/-- A quotient in whole numbers, in the unit that its denominator gives. -/
theorem cast_ratio (s : ℕ) (e u : ℤ) :
    ((ratio s e u).1 : ℚ) = s * 2 ^ e / 10 ^ u * (ratio s e u).2 := by
  have hsplit (b : ℚ) (hb : b ≠ 0) (n : ℤ) : b ^ n = b ^ n.toNat / b ^ (-n).toNat := by
    rw [← zpow_natCast, ← zpow_natCast, ← zpow_sub₀ hb]
    congr 1
    omega
  have hfst : (ratio s e u).1 = s * 2 ^ e.toNat * 10 ^ (-u).toNat := rfl
  have hsnd : (ratio s e u).2 = 2 ^ (-e).toNat * 10 ^ u.toNat := rfl
  rw [hfst, hsnd, hsplit 2 two_ne_zero e, hsplit 10 (by norm_num) u]
  push_cast
  field_simp

/-- Whether a multiple of `10 ^ u` is found to lie in the interval of `m · 2 ^ e`. -/
def readsBack (m : ℕ) (e u : ℤ) (c : ℕ) : Bool :=
  let one := (ratio (4 * m) (e - 2) u).2
  let least := (ratio (4 * m - quartersBelow m e) (e - 2) u).1
  let greatest := (ratio (4 * m + 2) (e - 2) u).1
  if m % 2 = 0 then least ≤ c * one && c * one ≤ greatest
  else least < c * one && c * one < greatest

theorem readsBack_iff {m : ℕ} (hm : 0 < m) (e u : ℤ) (c : ℕ) :
    readsBack m e u c = true ↔ RoundsTo m e (c * 10 ^ u) := by
  have hone : (0 : ℚ) < (ratio (4 * m) (e - 2) u).2 := Nat.cast_pos.mpr (ratio_pos _ _ _)
  have hgrid : (0 : ℚ) < 10 ^ u := by positivity
  have hquarter : (2 : ℚ) ^ (e - 2) = 2 ^ e / 4 := by
    rw [zpow_sub₀ two_ne_zero]
    norm_num
  set one := (ratio (4 * m) (e - 2) u).2 with hone_def
  -- both ends of the interval are compared in units of a quarter
  have hleast : ((ratio (4 * m - quartersBelow m e) (e - 2) u).1 : ℚ) =
      (m - gapBelow m e) * 2 ^ e / 10 ^ u * one := by
    rw [cast_ratio, hquarter]
    have hle : quartersBelow m e ≤ 4 * m := by
      unfold quartersBelow
      split_ifs <;> omega
    change _ * ((one : ℕ) : ℚ) = _
    rw [Nat.cast_sub hle, gapBelow]
    push_cast
    ring
  have hgreatest : ((ratio (4 * m + 2) (e - 2) u).1 : ℚ) = (m + 1 / 2) * 2 ^ e / 10 ^ u * one := by
    rw [cast_ratio, hquarter]
    change _ * ((one : ℕ) : ℚ) = _
    push_cast
    ring
  have hle_left (a : ℚ) : a / 10 ^ u * one ≤ c * one ↔ a ≤ c * 10 ^ u := by
    rw [mul_le_mul_iff_left₀ hone, div_le_iff₀ hgrid]
  have hle_right (a : ℚ) : c * one ≤ a / 10 ^ u * one ↔ c * 10 ^ u ≤ a := by
    rw [mul_le_mul_iff_left₀ hone, le_div_iff₀ hgrid]
  have hlt_left (a : ℚ) : a / 10 ^ u * one < c * one ↔ a < c * 10 ^ u := by
    rw [mul_lt_mul_iff_left₀ hone, div_lt_iff₀ hgrid]
  have hlt_right (a : ℚ) : c * one < a / 10 ^ u * one ↔ c * 10 ^ u < a := by
    rw [mul_lt_mul_iff_left₀ hone, lt_div_iff₀ hgrid]
  unfold readsBack
  simp only [← hone_def]
  by_cases hparity : m % 2 = 0
  · rw [if_pos hparity, Bool.and_eq_true, decide_eq_true_iff, decide_eq_true_iff,
      ← Nat.cast_le (α := ℚ), ← Nat.cast_le (α := ℚ), Nat.cast_mul, hleast, hgreatest, hle_left,
      hle_right]
    exact ⟨fun h => ⟨h.1, h.2, fun hodd => by omega⟩, fun h => ⟨h.lower, h.upper⟩⟩
  · rw [if_neg hparity, Bool.and_eq_true, decide_eq_true_iff, decide_eq_true_iff,
      ← Nat.cast_lt (α := ℚ), ← Nat.cast_lt (α := ℚ), Nat.cast_mul, hleast, hgreatest, hlt_left,
      hlt_right]
    exact ⟨fun h => ⟨h.1.le, h.2.le, fun _ => h⟩, fun h => h.inside_of_odd (by omega)⟩

/-- The neighbour below a number on a grid. -/
def neighbour (m : ℕ) (e u : ℤ) : ℕ :=
  (ratio (4 * m) (e - 2) u).1 / (ratio (4 * m) (e - 2) u).2

theorem candidate?_eq (tie : Tie) (m : ℕ) (e u : ℤ) :
    candidate? tie m e u =
      if readsBack m e u (neighbour m e u) then
        some (if readsBack m e u (neighbour m e u + 1) then
          tie.nearer (neighbour m e u) (ratio (4 * m) (e - 2) u).1 (ratio (4 * m) (e - 2) u).2
        else neighbour m e u)
      else if readsBack m e u (neighbour m e u + 1) then some (neighbour m e u + 1)
      else none :=
  rfl

theorem nearer_eq (tie : Tie) (down value one : ℕ) :
    tie.nearer down value one = down ∨ tie.nearer down value one = down + 1 := by
  unfold Tie.nearer
  cases tie <;> simp only <;> split_ifs <;> simp

/-- What is found on a grid reads back. -/
theorem roundsTo_of_candidate? {tie : Tie} {m c : ℕ} (hm : 0 < m) {e u : ℤ}
    (h : candidate? tie m e u = some c) : RoundsTo m e (c * 10 ^ u) := by
  rw [← readsBack_iff hm]
  rw [candidate?_eq] at h
  split_ifs at h with hdown hup hup
  · obtain rfl := Option.some.inj h
    rcases nearer_eq tie (neighbour m e u) (ratio (4 * m) (e - 2) u).1 (ratio (4 * m) (e - 2) u).2
      with hnearer | hnearer
    · rwa [hnearer]
    · rwa [hnearer]
  · exact Option.some.inj h ▸ hdown
  · exact Option.some.inj h ▸ hup

/-! ## The search over all grids -/

/-- One of the two neighbours is no further away than half the distance between them. -/
theorem isSome_candidate? (tie : Tie) {m : ℕ} (hm : 0 < m) {e u : ℤ}
    (hgrid : (10 : ℚ) ^ u / 2 < gapBelow m e * 2 ^ e) : (candidate? tie m e u).isSome := by
  have hten : (0 : ℚ) < 10 ^ u := by positivity
  have htwo : (0 : ℚ) < 2 ^ e := by positivity
  have hone : (0 : ℚ) < (ratio (4 * m) (e - 2) u).2 := Nat.cast_pos.mpr (ratio_pos _ _ _)
  have hgap : gapBelow m e * 2 ^ e ≤ 1 / 2 * 2 ^ e :=
    mul_le_mul_of_nonneg_right (gapBelow_le m e) htwo.le
  -- the number lies between the two neighbours
  have hplace : (m * 2 ^ e / 10 ^ u : ℚ) =
      (ratio (4 * m) (e - 2) u).1 / (ratio (4 * m) (e - 2) u).2 := by
    rw [eq_div_iff hone.ne', cast_ratio, zpow_sub₀ two_ne_zero]
    push_cast
    ring
  have hlow : (neighbour m e u : ℚ) * 10 ^ u ≤ m * 2 ^ e := by
    rw [← le_div_iff₀ hten, hplace]
    exact Nat.cast_div_le
  have hhigh : (m * 2 ^ e : ℚ) < (neighbour m e u + 1) * 10 ^ u := by
    rw [← div_lt_iff₀ hten, hplace, div_lt_iff₀ hone]
    have hlt : (ratio (4 * m) (e - 2) u).1 < (neighbour m e u + 1) * (ratio (4 * m) (e - 2) u).2 :=
      (Nat.lt_mul_div_succ _ (ratio_pos (4 * m) (e - 2) u)).trans_eq (Nat.mul_comm _ _)
    exact_mod_cast hlt
  have hsplit : ((neighbour m e u + 1 : ℕ) : ℚ) * 10 ^ u = neighbour m e u * 10 ^ u + 10 ^ u := by
    push_cast
    ring
  rw [candidate?_eq]
  by_cases hnear : (m * 2 ^ e : ℚ) - neighbour m e u * 10 ^ u ≤ 10 ^ u / 2
  · have hdown : readsBack m e u (neighbour m e u) = true := by
      rw [readsBack_iff hm]
      refine ⟨by linarith, by linarith, fun _ => ⟨by linarith, by linarith⟩⟩
    rw [if_pos hdown]
    rfl
  · have hup : readsBack m e u (neighbour m e u + 1) = true := by
      rw [readsBack_iff hm, hsplit]
      refine ⟨by linarith, by linarith, fun _ => ⟨by linarith, by linarith⟩⟩
    split_ifs <;> rfl

/-- The leading exponent puts a quotient between two powers of ten. -/
theorem leadingExponent_spec {m n : ℕ} (hm : 0 < m) (hn : 0 < n) :
    (10 : ℚ) ^ (leadingExponent m n - 1) ≤ m / n ∧ (m / n : ℚ) < 10 ^ leadingExponent m n := by
  have hm' : (0 : ℚ) < m := Nat.cast_pos.mpr hm
  have hn' : (0 : ℚ) < n := Nat.cast_pos.mpr hn
  have hquotient {a b : ℕ} (hb : 0 < b) (hle : b ≤ a) :
      (10 : ℚ) ^ ((digitCount (a / b) : ℤ) - 1) * b ≤ a ∧
        (a : ℚ) < 10 ^ (digitCount (a / b) : ℤ) * b := by
    have hpos : 0 < digitCount (a / b) := Nat.length_toDigits_pos
    have hcount : ((digitCount (a / b) : ℤ) - 1) = ((digitCount (a / b) - 1 : ℕ) : ℤ) := by omega
    rw [hcount, zpow_natCast, zpow_natCast]
    constructor
    · have hlow := pow_length_toDigits_le (Nat.div_pos hle hb).ne'
      exact_mod_cast (Nat.mul_le_mul_right b hlow).trans (Nat.div_mul_le_self a b)
    · exact_mod_cast (Nat.div_lt_iff_lt_mul hb).mp (lt_pow_length_toDigits (a / b))
  unfold leadingExponent
  split_ifs with hle
  · rw [le_div_iff₀ hn', div_lt_iff₀ hn']
    exact hquotient hn hle
  -- the quotient is the other way round, and a power of ten needs one digit less
  · obtain ⟨hlow, hhigh⟩ := hquotient hm (not_le.mp hle).le
    have hpos : 0 < digitCount (n / m) := Nat.length_toDigits_pos
    generalize digitCount (n / m) = c at *
    have hpower : (10 : ℚ) ^ ((c : ℤ) - 1) = 10 ^ (c - 1) := by
      rw [← zpow_natCast]
      congr 1
      omega
    have hnext : (10 : ℚ) ^ (c : ℤ) = 10 * 10 ^ (c - 1) := by
      rw [zpow_natCast, ← pow_succ']
      congr 1
      omega
    have hflip (k j : ℤ) (h : j = k - c) : (10 : ℚ) ^ j = 10 ^ k / (10 * 10 ^ (c - 1)) := by
      rw [h, zpow_sub₀ (by norm_num), hnext]
    have hscale : (0 : ℚ) < 10 ^ (c - 1) := by positivity
    rw [hpower] at hlow
    rw [hnext] at hhigh
    simp only
    split_ifs with hexact
    · have hexact' : (n : ℚ) = m * 10 ^ (c - 1) := by exact_mod_cast hexact.symm
      rw [hflip 1 _ (by ring), hflip 2 _ rfl, hexact']
      constructor
      · rw [div_le_div_iff₀ (by positivity) (by positivity)]
        nlinarith
      · rw [div_lt_div_iff₀ (by positivity) (by positivity)]
        nlinarith [mul_pos hm' hscale]
    · have hstrict : (10 : ℚ) ^ (c - 1) * m < n := by
        refine lt_of_le_of_ne hlow fun heq => hexact ?_
        rw [mul_comm] at heq
        exact_mod_cast heq
      rw [hflip 0 _ (by ring), hflip 1 _ rfl]
      constructor
      · rw [div_le_div_iff₀ (by positivity) hn']
        linarith
      · rw [div_lt_div_iff₀ hn' (by positivity)]
        linarith

/-- On a grid with 17 digits half the distance of two neighbours is less than the gap. -/
theorem half_grid_lt_gap {m : ℕ} {e lead : ℤ} (hcanonical : IsCanonical m e)
    (hlow : (10 : ℚ) ^ (lead - 1) ≤ m * 2 ^ e) :
    (10 : ℚ) ^ (lead - 1 - (16 : ℕ)) / 2 < gapBelow m e * 2 ^ e := by
  have htwo : (0 : ℚ) < 2 ^ e := by positivity
  have hdigits : (10 : ℚ) ^ (lead - 1 - (16 : ℕ)) = 10 ^ (lead - 1) / 10 ^ 16 := by
    rw [zpow_sub₀ (by norm_num), zpow_natCast]
  have hm_lt : (m : ℚ) < 2 ^ 53 := by exact_mod_cast hcanonical.1
  have hgrid : (10 : ℚ) ^ (lead - 1 - (16 : ℕ)) / 2 ≤ m / (2 * 10 ^ 16) * 2 ^ e := by
    rw [hdigits]
    linarith
  refine hgrid.trans_lt (mul_lt_mul_of_pos_right ?_ htwo)
  unfold gapBelow quartersBelow
  split_ifs with hpower
  · rw [hpower.1]
    norm_num
  · calc (m : ℚ) / (2 * 10 ^ 16) < 2 ^ 53 / (2 * 10 ^ 16) := by gcongr
      _ < ((2 : ℕ) : ℚ) / 4 := by norm_num

theorem value_dropZero (d : Scaled) : d.dropZero.value = d.value := by
  unfold Scaled.dropZero
  split_ifs with hzero
  · have hcoefficient : (d.coefficient : ℚ) = (d.coefficient / 10 : ℕ) * 10 := by
      exact_mod_cast (Nat.div_mul_cancel (Nat.dvd_of_mod_eq_zero hzero)).symm
    rw [Scaled.value, Scaled.value, hcoefficient, zpow_add₀ (by norm_num), zpow_one]
    ring
  · rfl

/-- **The shortest decimal reads back.** -/
theorem roundsTo_shortest (tie : Tie) {m : ℕ} {e : ℤ} (hm : 0 < m) (hcanonical : IsCanonical m e) :
    RoundsTo m e (shortest tie m e).value := by
  have hratio : ((ratio m e 0).1 / (ratio m e 0).2 : ℚ) = m * 2 ^ e := by
    have hone : (0 : ℚ) < (ratio m e 0).2 := Nat.cast_pos.mpr (ratio_pos _ _ _)
    rw [div_eq_iff hone.ne', cast_ratio, zpow_zero, div_one]
  have hpos : 0 < (ratio m e 0).1 := Nat.mul_pos (Nat.mul_pos hm (Nat.pow_pos (by decide)))
    (Nat.pow_pos (by decide))
  obtain ⟨hlow, -⟩ := leadingExponent_spec hpos (ratio_pos m e 0)
  rw [hratio] at hlow
  set lead := leadingExponent (ratio m e 0).1 (ratio m e 0).2 with hlead
  let search (k : ℕ) : Option Scaled :=
    (candidate? tie m e (lead - 1 - k)).map fun c => ⟨c, lead - 1 - k⟩
  have hshortest : shortest tie m e =
      (((List.range 17).findSome? search).getD ⟨(ratio m e 0).1, 0⟩).dropZero := by
    unfold shortest
    rw [if_neg hm.ne']
  have hfound : ((List.range 17).findSome? search).isSome := by
    rw [List.findSome?_isSome_iff]
    refine ⟨16, by decide, ?_⟩
    rw [Option.isSome_map]
    exact isSome_candidate? tie hm (half_grid_lt_gap hcanonical hlow)
  obtain ⟨d, hd⟩ := Option.isSome_iff_exists.mp hfound
  obtain ⟨k, -, hk⟩ := List.exists_of_findSome?_eq_some hd
  obtain ⟨c, hc, rfl⟩ := Option.map_eq_some_iff.mp hk
  rw [hshortest, hd, Option.getD_some, value_dropZero]
  exact roundsTo_of_candidate? hm hc

end PlanPlayback.Decimal
