import Mathlib.Algebra.Order.Floor.Semiring
import Mathlib.Data.Rat.Floor
import Mathlib.Tactic.Linarith
import Mathlib.Tactic.Positivity
import Mathlib.Tactic.Ring

/-!
# Rounding to 53 binary digits

Every finite floating-point number is a whole number of *quanta*, the quantum being the least
positive one, `2 ^ (-1074)`.  Counted in quanta, rounding to the nearest floating-point number is a
function from rational numbers to whole numbers: the number is cut after 53 binary digits, and what
is cut off decides whether one is added to the last digit.  Small numbers, with 53 digits or fewer
before the point, are rounded to the nearest whole number.

Nothing about the format of floating-point numbers is used here.  What the arithmetic rests on is

* `rounded_mono`: rounding is monotone, also from one binade to the next;
* `rounded_of_fits`: a number that has no more than 53 digits is not changed;
* `outcome`, its extension to negative numbers, where everything beyond the largest number becomes
  `limit`, the place of infinity.
-/

namespace PlanPlayback.Binary64

/-! ## The nearest whole number -/

/-- The place of a number between the whole numbers and the halves: `4 n` at `n`, `4 n + 1` between
`n` and the half above it, `4 n + 2` at that half and `4 n + 3` beyond it. -/
def station (x : ℚ) : ℕ :=
  ⌊2 * x⌋₊ + ⌈2 * x⌉₊

/-- The nearest whole number, told from the place; a half goes to the even neighbour. -/
def wholeAt (place : ℕ) : ℕ :=
  place / 4 + if place % 4 = 3 then 1 else if place % 4 = 2 then place / 4 % 2 else 0

/-- The nearest whole number; a half goes to the even neighbour. -/
def nearest (x : ℚ) : ℕ :=
  wholeAt (station x)

theorem wholeAt_mono {a b : ℕ} (h : a ≤ b) : wholeAt a ≤ wholeAt b := by
  unfold wholeAt
  split_ifs <;> omega

theorem station_mono {x y : ℚ} (h : x ≤ y) : station x ≤ station y := by
  have htwice : 2 * x ≤ 2 * y := by linarith
  exact Nat.add_le_add (Nat.floor_mono htwice) (Nat.ceil_mono htwice)

@[simp] theorem station_natCast (n : ℕ) : station n = 4 * n := by
  have htwice : 2 * (n : ℚ) = ((2 * n : ℕ) : ℚ) := by push_cast; ring
  rw [station, htwice, Nat.floor_natCast, Nat.ceil_natCast]
  omega

theorem nearest_mono {x y : ℚ} (h : x ≤ y) : nearest x ≤ nearest y :=
  wholeAt_mono (station_mono h)

@[simp] theorem nearest_natCast (n : ℕ) : nearest n = n := by
  rw [nearest, station_natCast, wholeAt]
  split_ifs <;> omega

theorem nearest_le_of_le {x : ℚ} {n : ℕ} (h : x ≤ n) : nearest x ≤ n :=
  (nearest_mono h).trans_eq (nearest_natCast n)

theorem le_nearest_of_le {x : ℚ} {n : ℕ} (h : (n : ℚ) ≤ x) : n ≤ nearest x :=
  (nearest_natCast n).symm.trans_le (nearest_mono h)

/-- A number that is no further than a half from a whole number, and nearer than that if the whole
number is odd. -/
theorem nearest_eq {x : ℚ} {n : ℕ} (hn : 0 < n) (hlow : (n : ℚ) - 1 / 2 ≤ x)
    (hhigh : x ≤ n + 1 / 2) (hodd : n % 2 = 1 → (n : ℚ) - 1 / 2 < x ∧ x < n + 1 / 2) :
    nearest x = n := by
  have hone : (1 : ℚ) ≤ n := Nat.one_le_cast.mpr hn
  have hcast : ((2 * n - 1 : ℕ) : ℚ) = 2 * n - 1 := by
    rw [Nat.cast_sub (by omega)]
    push_cast
    ring
  have hfloor_low : 2 * n - 1 ≤ ⌊2 * x⌋₊ := Nat.le_floor (by rw [hcast]; linarith)
  have hceil_high : ⌈2 * x⌉₊ ≤ 2 * n + 1 := Nat.ceil_le.mpr (by push_cast; linarith)
  have hfloor_ceil : ⌊2 * x⌋₊ ≤ ⌈2 * x⌉₊ := Nat.floor_le_ceil _
  have hstrict : n % 2 = 1 → 2 * n ≤ ⌈2 * x⌉₊ ∧ ⌊2 * x⌋₊ ≤ 2 * n := by
    intro h
    obtain ⟨hlow', hhigh'⟩ := hodd h
    refine ⟨?_, ?_⟩
    · have : 2 * n - 1 < ⌈2 * x⌉₊ := Nat.lt_ceil.mpr (by rw [hcast]; linarith)
      omega
    · have : ⌊2 * x⌋₊ < 2 * n + 1 := (Nat.floor_lt (by linarith)).mpr (by push_cast; linarith)
      omega
  unfold nearest station wholeAt
  split_ifs <;> omega

/-- The quotient of a place by four is the whole part, and the remainder says whether there is
anything beyond it. -/
theorem station_spec {x : ℚ} (h : 0 ≤ x) :
    station x / 4 = ⌊x⌋₊ ∧ (station x % 4 = 0 ↔ x = ⌊x⌋₊) := by
  have hlow : (⌊x⌋₊ : ℚ) ≤ x := Nat.floor_le h
  have hhigh : x < ⌊x⌋₊ + 1 := Nat.lt_floor_add_one x
  have htwice : 0 ≤ 2 * x := by linarith
  have hfloor_low : 2 * ⌊x⌋₊ ≤ ⌊2 * x⌋₊ := Nat.le_floor (by push_cast; linarith)
  have hfloor_high : ⌊2 * x⌋₊ < 2 * ⌊x⌋₊ + 2 :=
    (Nat.floor_lt htwice).mpr (by push_cast; linarith)
  have hceil : ⌈2 * x⌉₊ ≤ ⌊2 * x⌋₊ + 1 := Nat.ceil_le_floor_add_one (2 * x)
  have hceil_low : ⌊2 * x⌋₊ ≤ ⌈2 * x⌉₊ := Nat.floor_le_ceil (2 * x)
  have hceil_high : ⌈2 * x⌉₊ ≤ 2 * ⌊x⌋₊ + 2 := Nat.ceil_le.mpr (by push_cast; linarith)
  refine ⟨by unfold station; omega, fun hrest => ?_, fun hwhole => ?_⟩
  · have hle : ⌈2 * x⌉₊ ≤ 2 * ⌊x⌋₊ := by
      unfold station at hrest
      omega
    have : 2 * x ≤ ((2 * ⌊x⌋₊ : ℕ) : ℚ) := Nat.ceil_le.mp hle
    push_cast at this
    linarith
  · rw [hwhole, station_natCast]
    omega

/-- The place of half a number, told from the place of the number. -/
theorem station_half {x : ℚ} (h : 0 ≤ x) :
    station (x / 2) = 2 * (station x / 4) + if station x % 4 = 0 then 0 else 1 := by
  obtain ⟨hquotient, hrest⟩ := station_spec h
  have htwice : 2 * (x / 2) = x := by ring
  rw [hquotient, station, htwice]
  split_ifs with hwhole
  · rw [hrest] at hwhole
    have : ⌈x⌉₊ = ⌊x⌋₊ := by
      conv_lhs => rw [hwhole]
      exact Nat.ceil_natCast _
    omega
  · have hne : x ≠ ⌊x⌋₊ := fun heq => hwhole (hrest.mpr heq)
    have hlt : ⌊x⌋₊ < ⌈x⌉₊ := Nat.lt_ceil.mpr (lt_of_le_of_ne (Nat.floor_le h) hne.symm)
    have := Nat.ceil_le_floor_add_one x
    omega

/-- The place of a whole number and a fraction. -/
theorem station_add_div (n a b : ℕ) (h : a < b) :
    station (n + a / b) =
      4 * n + if a = 0 then 0 else if 2 * a < b then 1 else if 2 * a = b then 2 else 3 := by
  have hb : (0 : ℚ) < b := by exact_mod_cast (Nat.zero_le a).trans_lt h
  set x : ℚ := n + a / b with hx
  have hfraction : 2 * x = 2 * n + 2 * a / b := by rw [hx]; ring
  have hnonneg : (0 : ℚ) ≤ 2 * x := by rw [hfraction]; positivity
  -- the whole part of twice the number is `2 n`, or `2 n + 1` from the half on
  have hfloor : ∀ k : ℕ, (k : ℚ) * b ≤ 2 * a → (2 * a : ℚ) < (k + 1) * b →
      ⌊2 * x⌋₊ = 2 * n + k := by
    intro k hlow hhigh
    rw [Nat.floor_eq_iff hnonneg, hfraction]
    push_cast
    rw [← le_div_iff₀ hb] at hlow
    rw [← div_lt_iff₀ hb] at hhigh
    constructor <;> linarith
  have hceil : ∀ k : ℕ, (k : ℚ) * b < 2 * a → (2 * a : ℚ) ≤ (k + 1) * b →
      ⌈2 * x⌉₊ = 2 * n + k + 1 := by
    intro k hlow hhigh
    rw [Nat.ceil_eq_iff (by omega), hfraction]
    push_cast
    rw [← lt_div_iff₀ hb] at hlow
    rw [← div_le_iff₀ hb] at hhigh
    constructor <;> linarith
  have hlt : (a : ℚ) < b := by exact_mod_cast h
  split_ifs with hzero hbelow hhalf
  · rw [hx, hzero, Nat.cast_zero, zero_div, add_zero, station_natCast]
    omega
  · have hpos : (0 : ℚ) < a := by exact_mod_cast Nat.pos_of_ne_zero hzero
    have hbelow' : (2 * a : ℚ) < b := by exact_mod_cast hbelow
    rw [station, hfloor 0 (by push_cast; linarith) (by push_cast; linarith),
      hceil 0 (by push_cast; linarith) (by push_cast; linarith)]
    omega
  · have hhalf' : (2 * a : ℚ) = b := by exact_mod_cast hhalf
    rw [station, hfloor 1 (by push_cast; linarith) (by push_cast; linarith),
      hceil 0 (by push_cast; linarith) (by push_cast; linarith)]
    omega
  · have habove : (b : ℚ) < 2 * a := by
      exact_mod_cast lt_of_le_of_ne (not_lt.mp hbelow) fun heq => hhalf heq.symm
    rw [station, hfloor 1 (by push_cast; linarith) (by push_cast; linarith),
      hceil 1 (by push_cast; linarith) (by push_cast; linarith)]
    omega

/-! ## Cutting after 53 digits -/

/-- The number of binary digits before the point that are cut off. -/
def spacing (x : ℚ) : ℕ :=
  Nat.log2 ⌊x⌋₊ - 52

/-- The digits that remain, after rounding. -/
def significand (x : ℚ) : ℕ :=
  nearest (x / 2 ^ spacing x)

/-- A number of quanta, rounded to 53 binary digits. -/
def rounded (x : ℚ) : ℕ :=
  significand x * 2 ^ spacing x

theorem lt_two_pow_spacing (x : ℚ) : x < 2 ^ (spacing x + 53) := by
  have hfloor : ⌊x⌋₊ + 1 ≤ 2 ^ (Nat.log2 ⌊x⌋₊ + 1) := Nat.lt_log2_self
  have hpow : 2 ^ (Nat.log2 ⌊x⌋₊ + 1) ≤ 2 ^ (spacing x + 53) :=
    Nat.pow_le_pow_right (by decide) (by unfold spacing; omega)
  calc x < ⌊x⌋₊ + 1 := Nat.lt_floor_add_one x
    _ ≤ ((2 ^ (spacing x + 53) : ℕ) : ℚ) := by exact_mod_cast hfloor.trans hpow
    _ = 2 ^ (spacing x + 53) := by push_cast; rfl

theorem two_pow_spacing_le {x : ℚ} (h : spacing x ≠ 0) : 2 ^ (spacing x + 52) ≤ x := by
  have hlog : spacing x + 52 = Nat.log2 ⌊x⌋₊ := by
    unfold spacing at h ⊢
    omega
  have hne : ⌊x⌋₊ ≠ 0 := by
    intro hzero
    rw [spacing, hzero, Nat.log2_zero] at h
    exact h rfl
  have hpow : 2 ^ (spacing x + 52) ≤ ⌊x⌋₊ := hlog ▸ Nat.log2_self_le hne
  have : ((2 ^ (spacing x + 52) : ℕ) : ℚ) ≤ x := (Nat.le_floor_iff' (by positivity)).mp hpow
  exact_mod_cast this

/-- Where a number lies between powers of two determines the number of digits cut off. -/
theorem spacing_eq {x : ℚ} {k : ℕ} (hhigh : x < 2 ^ (k + 53)) (hlow : k = 0 ∨ 2 ^ (k + 52) ≤ x) :
    spacing x = k := by
  -- the exponents count the digits, so they can be compared in place of the numbers
  have hstrict : ∀ {a b : ℕ}, (2 : ℚ) ^ a < 2 ^ b → a < b := fun h =>
    (pow_lt_pow_iff_right₀ (by norm_num)).mp h
  have hle : spacing x ≤ k := by
    by_cases hzero : spacing x = 0
    · omega
    · have := hstrict ((two_pow_spacing_le hzero).trans_lt hhigh)
      omega
  rcases hlow with hk | hlow
  · omega
  · have := hstrict (hlow.trans_lt (lt_two_pow_spacing x))
    omega

theorem significand_le (x : ℚ) : significand x ≤ 2 ^ 53 := by
  refine nearest_le_of_le ?_
  rw [div_le_iff₀ (by positivity), Nat.cast_pow, Nat.cast_ofNat, ← pow_add, add_comm 53]
  exact (lt_two_pow_spacing x).le

theorem le_significand {x : ℚ} (h : spacing x ≠ 0) : 2 ^ 52 ≤ significand x := by
  refine le_nearest_of_le ?_
  rw [le_div_iff₀ (by positivity), Nat.cast_pow, Nat.cast_ofNat, ← pow_add, add_comm 52]
  exact two_pow_spacing_le h

theorem rounded_le_two_pow (x : ℚ) : rounded x ≤ 2 ^ (spacing x + 53) :=
  calc rounded x ≤ 2 ^ 53 * 2 ^ spacing x := Nat.mul_le_mul_right _ (significand_le x)
    _ = 2 ^ (spacing x + 53) := by rw [← pow_add, add_comm 53]

theorem two_pow_le_rounded {x : ℚ} (h : spacing x ≠ 0) : 2 ^ (spacing x + 52) ≤ rounded x :=
  calc 2 ^ (spacing x + 52) = 2 ^ 52 * 2 ^ spacing x := by rw [← pow_add, add_comm 52]
    _ ≤ rounded x := Nat.mul_le_mul_right _ (le_significand h)

/-- **Rounding is monotone.**  Numbers that lose the same number of digits are compared by what
remains; otherwise a power of two lies between the two results. -/
theorem rounded_mono {x y : ℚ} (h : x ≤ y) : rounded x ≤ rounded y := by
  have hspacing : spacing x ≤ spacing y := by
    by_cases hzero : spacing x = 0
    · omega
    · have := (pow_lt_pow_iff_right₀ (by norm_num : (1 : ℚ) < 2)).mp
        (((two_pow_spacing_le hzero).trans h).trans_lt (lt_two_pow_spacing y))
      omega
  rcases hspacing.eq_or_lt with heq | hlt
  · rw [rounded, rounded, significand, significand, heq]
    refine Nat.mul_le_mul_right _ (nearest_mono ?_)
    gcongr
  -- from one binade to the next, a power of two lies between the results
  · calc rounded x ≤ 2 ^ (spacing x + 53) := rounded_le_two_pow x
      _ ≤ 2 ^ (spacing y + 52) := Nat.pow_le_pow_right (by decide) (by omega)
      _ ≤ rounded y := two_pow_le_rounded (by omega)

/-- A number without more than 53 digits is not changed. -/
theorem rounded_of_fits {m : ℕ} (hm : m < 2 ^ 53) (k : ℕ) :
    rounded ((m * 2 ^ k : ℕ) : ℚ) = m * 2 ^ k := by
  have hspacing : spacing ((m * 2 ^ k : ℕ) : ℚ) ≤ k := by
    by_cases hzero : spacing ((m * 2 ^ k : ℕ) : ℚ) = 0
    · omega
    · have hlow : 2 ^ (spacing ((m * 2 ^ k : ℕ) : ℚ) + 52) ≤ m * 2 ^ k := by
        exact_mod_cast two_pow_spacing_le hzero
      have hhigh : m * 2 ^ k < 2 ^ (53 + k) := by
        rw [pow_add]
        exact Nat.mul_lt_mul_of_pos_right hm (by positivity)
      have := (Nat.pow_lt_pow_iff_right (by decide)).mp (hlow.trans_lt hhigh)
      omega
  -- digits that are cut off are zeros: the quotient is a whole number
  have hsplit : m * 2 ^ k = m * 2 ^ (k - spacing ((m * 2 ^ k : ℕ) : ℚ)) *
      2 ^ spacing ((m * 2 ^ k : ℕ) : ℚ) := by
    rw [mul_assoc, ← pow_add, Nat.sub_add_cancel hspacing]
  have hquotient : ((m * 2 ^ k : ℕ) : ℚ) / 2 ^ spacing ((m * 2 ^ k : ℕ) : ℚ) =
      ((m * 2 ^ (k - spacing ((m * 2 ^ k : ℕ) : ℚ)) : ℕ) : ℚ) := by
    rw [div_eq_iff (by positivity)]
    exact_mod_cast hsplit
  rw [rounded, significand, hquotient, nearest_natCast]
  exact hsplit.symm

/-- A number is rounded to the multiple of a power of two that is no further than a half of it. -/
theorem rounded_eq {x : ℚ} {n k : ℕ} (hn : 0 < n) (hspacing : spacing x = k)
    (hlow : ((n : ℚ) - 1 / 2) * 2 ^ k ≤ x) (hhigh : x ≤ (n + 1 / 2) * 2 ^ k)
    (hodd : n % 2 = 1 → ((n : ℚ) - 1 / 2) * 2 ^ k < x ∧ x < (n + 1 / 2) * 2 ^ k) :
    rounded x = n * 2 ^ k := by
  have hpow : (0 : ℚ) < 2 ^ k := by positivity
  have hnearest : nearest (x / 2 ^ k) = n := by
    refine nearest_eq hn ?_ ?_ fun h => ⟨?_, ?_⟩
    · rwa [le_div_iff₀ hpow]
    · rwa [div_le_iff₀ hpow]
    · rw [lt_div_iff₀ hpow]
      exact (hodd h).1
    · rw [div_lt_iff₀ hpow]
      exact (hodd h).2
  rw [rounded, significand, hspacing, hnearest]

theorem rounded_of_nonpos {x : ℚ} (h : x ≤ 0) : rounded x = 0 := by
  have hle : rounded x ≤ rounded ((0 * 2 ^ 0 : ℕ) : ℚ) :=
    rounded_mono (by simpa using h)
  rw [rounded_of_fits (by decide)] at hle
  omega

/-! ## Signs, and numbers that are too large -/

/-- The number of quanta from which on a number counts as infinite. -/
def limit : ℕ :=
  2 ^ 2098

theorem limit_pos : 0 < limit :=
  pow_pos two_pos _

theorem two_pow_mul_le_limit {a b : ℕ} (h : a + b ≤ 2098) : 2 ^ a * 2 ^ b ≤ limit :=
  (pow_add 2 a b).symm.trans_le (pow_le_pow_right₀ one_le_two h)

theorem limit_le_two_pow_mul {a b : ℕ} (h : 2098 ≤ a + b) : limit ≤ 2 ^ a * 2 ^ b :=
  (pow_le_pow_right₀ one_le_two h).trans_eq (pow_add 2 a b)

/-- The number of quanta that an exact result becomes. -/
def outcome (x : ℚ) : ℤ :=
  (min (rounded x) limit : ℕ) - (min (rounded (-x)) limit : ℕ)

theorem outcome_mono {x y : ℚ} (h : x ≤ y) : outcome x ≤ outcome y := by
  have hpos : min (rounded x) limit ≤ min (rounded y) limit := min_le_min_right _ (rounded_mono h)
  have hneg : min (rounded (-y)) limit ≤ min (rounded (-x)) limit :=
    min_le_min_right _ (rounded_mono (neg_le_neg h))
  unfold outcome
  omega

theorem outcome_of_nonneg {x : ℚ} (h : 0 ≤ x) : outcome x = (min (rounded x) limit : ℕ) := by
  rw [outcome, rounded_of_nonpos (neg_nonpos.mpr h), Nat.zero_min]
  exact Int.sub_zero _

theorem outcome_neg (x : ℚ) : outcome (-x) = -outcome x := by
  rw [outcome, outcome, neg_neg]
  omega

/-- Nothing lies beyond the place of infinity. -/
theorem outcome_of_limit_le {x : ℚ} (h : (limit : ℚ) ≤ x) : outcome x = limit := by
  have htwo (k : ℕ) : rounded ((2 ^ k : ℕ) : ℚ) = 2 ^ k := by
    have hfits := rounded_of_fits (m := 1) (by decide) k
    rwa [one_mul] at hfits
  have hlimit : rounded (limit : ℚ) = limit := htwo _
  rw [outcome_of_nonneg ((Nat.cast_nonneg _).trans h), min_eq_right]
  exact hlimit.symm.trans_le (rounded_mono h)

/-- What is less than half a quantum is lost. -/
theorem outcome_of_le_quarter {x : ℚ} (hx : 0 ≤ x) (h : x ≤ 1 / 4) : outcome x = 0 := by
  have hquarter : rounded (1 / 4) = 0 := by
    have hspacing : spacing (1 / 4) = 0 := spacing_eq (by norm_num) (.inl rfl)
    have hstation : station (1 / 4) = 1 := by
      have hsum := station_add_div 0 1 4 (by decide)
      norm_num at hsum
      simpa using hsum
    rw [rounded, significand, hspacing, pow_zero, div_one, nearest, hstation]
    rfl
  have hle : rounded x ≤ 0 := hquarter ▸ rounded_mono h
  rw [outcome_of_nonneg hx, Nat.le_zero.mp hle, Nat.zero_min]
  rfl

end PlanPlayback.Binary64
