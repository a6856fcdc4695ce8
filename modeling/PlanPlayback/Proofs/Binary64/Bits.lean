import PlanPlayback.Decimal.Binary
import PlanPlayback.Plan.Basic
import PlanPlayback.Proofs.Binary64.Order

/-!
# Numbers and their bits

Printers and the sorting of plans do not work on floating-point numbers but on their 64 bits, read as
a whole number.  Here the bits are related to the parts of a number, on which arithmetic and order
rest.

* `readable`: the three fields of the bits say what the number is made of, case by case;
* `decode_eq`: so `Decimal.decode` finds the sign, the significand and the exponent;
* `le_of_orderKey_le` and `orderKey_le_of_le`: the total order refines the order of numbers, and
  differs from it on zeros and on what is no number only;
* `toBits_lt_of_lt`: of two numbers that are not negative, the larger one has the larger bits.
-/

namespace PlanPlayback.Binary64

open Float.Model UnpackedFloat

/-- A number is determined by its parts. -/
theorem parts_inj {x y : Float} (h : parts x = parts y) : x = y := by
  rw [← Float.toBits_inj]
  have hbits : x.toModel.toBits.toBitVec = y.toModel.toBits.toBitVec :=
    (unpack_inj_of_valid x.toModel.valid y.toModel.valid).mp h
  exact UInt64.toBitVec_inj.mp hbits

/-! ## The three fields -/

/-- The bits of a number, as a whole number. -/
def code (x : Float) : ℕ :=
  x.toBits.toNat

theorem code_lt (x : Float) : code x < 2 ^ 64 :=
  x.toBits.toBitVec.isLt

theorem code_injective : Function.Injective code :=
  fun _ _ h => Float.toBits_inj.mp (UInt64.toNat_inj.mp h)

/-- The digits that are stored, without the leading one. -/
def fraction (x : Float) : ℕ :=
  code x % 2 ^ 52

theorem fraction_lt (x : Float) : fraction x < 2 ^ 52 :=
  Nat.mod_lt _ (by decide)

/-- The exponent as it is stored. -/
def field (x : Float) : ℕ :=
  code x / 2 ^ 52 % 2 ^ 11

/-- The sign of a number, which zero and infinity have as well. -/
def signOf (x : Float) : Sign :=
  if code x < 2 ^ 63 then .positive else .negative

theorem toNat_unpackMantissa (x : Float) :
    (@unpackMantissa Format.binary64 x.toBits.toBitVec).toNat = fraction x := by
  rw [unpackMantissa_def, BitVec.extractLsb'_toNat]
  rfl

theorem toNat_unpackExponent (x : Float) :
    (@unpackExponent Format.binary64 x.toBits.toBitVec).toNat = field x := by
  rw [unpackExponent_def, BitVec.extractLsb'_toNat, Nat.shiftRight_eq_div_pow]
  rfl

theorem ofBitVec_unpackSign (x : Float) :
    Sign.ofBitVec (@unpackSign Format.binary64 x.toBits.toBitVec) = signOf x := by
  have hcode := code_lt x
  have hbit : (@unpackSign Format.binary64 x.toBits.toBitVec).toNat = code x / 2 ^ 63 := by
    rw [unpackSign_def, BitVec.extractLsb'_toNat, Nat.shiftRight_eq_div_pow]
    change code x / 2 ^ 63 % 2 ^ 1 = code x / 2 ^ 63
    omega
  unfold Sign.ofBitVec signOf
  by_cases hsmall : code x < 2 ^ 63
  · rw [if_pos hsmall, if_pos]
    apply BitVec.eq_of_toNat_eq
    rw [hbit]
    change code x / 2 ^ 63 = 0
    omega
  · rw [if_neg hsmall, if_neg]
    intro hzero
    have hnone : code x / 2 ^ 63 = 0 := hbit.symm.trans (congrArg BitVec.toNat hzero)
    omega

/-- What the fields of the bits say of a number. -/
inductive Reads (x : Float) : UnpackedFloat → Prop where
  | infinity (hfield : field x = 2047) (hfraction : fraction x = 0) : Reads x (.infinity (signOf x))
  | notANumber (hfield : field x = 2047) (hfraction : fraction x ≠ 0) : Reads x .notANumber
  | zero (hfield : field x = 0) (hfraction : fraction x = 0) : Reads x (.zero (signOf x))
  | subnormal (hfield : field x = 0) (hfraction : 0 < fraction x) :
      Reads x (.finite (signOf x) (fraction x) (-1074) hfraction)
  | normal (hlow : 0 < field x) (hhigh : field x < 2047) :
      Reads x (.finite (signOf x) (2 ^ 52 + fraction x) (field x - 1075) (by positivity))

theorem readable (x : Float) : Reads x (parts x) := by
  have hfield : field x < 2 ^ 11 := Nat.mod_lt _ (by decide)
  have hbias : ((Format.binary64.exponentBias : ℕ) : ℤ) +
      (Format.binary64.mantissaBitsWithoutImplicit : ℕ) = 1075 := rfl
  -- a field of bits is compared with a constant through the whole numbers that both stand for
  have hexponent {v : BitVec 11} : @unpackExponent Format.binary64 x.toBits.toBitVec = v ↔
      field x = v.toNat := by
    rw [← toNat_unpackExponent, BitVec.toNat_inj]
  have hmantissa : @unpackMantissa Format.binary64 x.toBits.toBitVec = 0#52 ↔
      fraction x = 0 := by
    rw [← toNat_unpackMantissa, ← BitVec.toNat_inj]
    rfl
  have hall : (-1#11).toNat = 2047 := rfl
  have hnone : (0#11).toNat = 0 := rfl
  change Reads x (UnpackedFloat.unpack Format.binary64 x.toBits.toBitVec)
  rw [UnpackedFloat.unpack]
  simp only [ofBitVec_unpackSign]
  split_ifs with hlast hinfinite hfirst hzero
  · exact .infinity (hexponent.mp hlast) (hmantissa.mp hinfinite)
  · exact .notANumber (hexponent.mp hlast) (mt hmantissa.mpr hinfinite)
  · exact .zero (hexponent.mp hfirst) (hmantissa.mp hzero)
  · have hzero' : field x = 0 := hexponent.mp hfirst
    convert Reads.subnormal hzero' (Nat.pos_of_ne_zero (mt hmantissa.mpr hzero)) using 2
    · exact toNat_unpackMantissa x
    · rw [toNat_unpackExponent, hbias, hzero']
      rfl
  · have hlow : field x ≠ 0 := fun h => hfirst (hexponent.mpr h)
    have hhigh : field x ≠ 2047 := fun h => hlast (hexponent.mpr h)
    convert Reads.normal (x := x) (by omega) (by omega) using 2
    · exact (toNat_one_append _).trans (congrArg _ (toNat_unpackMantissa x))
    · rw [toNat_unpackExponent, hbias]

/-! ## Decoding -/

/-- Whether a sign is the minus sign. -/
def isMinus : Sign → Bool
  | .positive => false
  | .negative => true

/-- The exact value of an unpacked number, as the printers take it. -/
def decoded : UnpackedFloat → Decimal.Decoded
  | .notANumber => .notANumber
  | .infinity s => .infinite (isMinus s)
  | .zero s => .finite ⟨isMinus s, 0, -1074⟩
  | .finite s m e _ => .finite ⟨isMinus s, m, e⟩

/-- The bits are decoded to the parts of a number. -/
theorem decode_eq (x : Float) : Decimal.decode x = decoded (parts x) := by
  have hsign : isMinus (signOf x) = decide (Nat.pow 2 63 ≤ code x) := by
    unfold signOf
    by_cases h : code x < 2 ^ 63
    · rw [if_pos h]
      exact (decide_eq_false (not_le.mpr h)).symm
    · rw [if_neg h]
      exact (decide_eq_true (not_lt.mp h)).symm
  have hdecode : Decimal.decode x =
      if field x = 2047 then
        if fraction x = 0 then .infinite (isMinus (signOf x)) else .notANumber
      else if field x = 0 then .finite ⟨isMinus (signOf x), fraction x, -1074⟩
      else .finite ⟨isMinus (signOf x), fraction x + 2 ^ 52, (field x : ℤ) - 1075⟩ := by
    rw [hsign]
    rfl
  have hreads := readable x
  rw [hdecode]
  generalize parts x = u at hreads
  cases hreads with
  | infinity hfield hfraction => simp [hfield, hfraction, decoded]
  | notANumber hfield hfraction => simp [hfield, hfraction, decoded]
  | zero hfield hfraction => simp [hfield, hfraction, decoded]
  | subnormal hfield hfraction => simp [hfield, decoded]
  | normal hlow hhigh => simp [hlow.ne', hhigh.ne, decoded, add_comm]

/-! ## The total order -/

/-- The bits of a number without its sign. -/
def magnitude (x : Float) : ℕ :=
  2 ^ 52 * field x + fraction x

theorem orderKey_eq_ite (x : Float) :
    orderKey x = if code x < 2 ^ 63 then (code x : ℤ) else -((code x - 2 ^ 63 : ℕ) : ℤ) - 1 :=
  rfl

theorem orderKey_eq (x : Float) :
    orderKey x = if isMinus (signOf x) then -(magnitude x : ℤ) - 1 else (magnitude x : ℤ) := by
  have hcode := code_lt x
  rw [orderKey_eq_ite]
  unfold signOf magnitude field fraction
  by_cases h : code x < 2 ^ 63
  · rw [if_pos h, if_pos h, isMinus, if_neg Bool.false_ne_true]
    omega
  · rw [if_neg h, if_neg h, isMinus, if_pos rfl]
    omega

/-- Nothing below zero comes behind zero. -/
theorem signOf_of_zero_le {x : Float} (h : orderKey 0.0 ≤ orderKey x) : signOf x = .positive := by
  have hzero : orderKey 0.0 = 0 := by decide
  rw [hzero, orderKey_eq] at h
  cases hsign : signOf x with
  | positive => rfl
  | negative =>
    rw [hsign, isMinus, if_pos rfl] at h
    omega

/-- All digits of a number. -/
def mantissa (x : Float) : ℕ :=
  if field x = 0 then fraction x else 2 ^ 52 + fraction x

/-- The power of two that the digits are multiplied with. -/
def exponent (x : Float) : ℤ :=
  if field x = 0 then -1074 else field x - 1075

/-- The number of quanta without its sign. -/
def height (x : Float) : ℕ :=
  if field x < 2047 then size (mantissa x) (exponent x) else limit

theorem isCanonical_mantissa (x : Float) : IsCanonical (mantissa x) (exponent x) := by
  have hfraction : fraction x < 2 ^ 52 := fraction_lt x
  unfold IsCanonical mantissa exponent
  split_ifs <;> omega

theorem measure_eq_apply {x : Float} (hx : IsNumber x) :
    measure x = (signOf x).apply (height x) := by
  unfold measure height mantissa exponent
  unfold IsNumber at hx
  have hreads := readable x
  generalize parts x = u at hreads hx
  cases hreads with
  | infinity hfield hfraction =>
    rw [if_neg (by omega)]
    rfl
  | notANumber hfield hfraction => exact absurd rfl hx
  | zero hfield hfraction =>
    rw [if_pos (by omega), if_pos hfield, if_pos hfield, hfraction, size, zero_mul]
    exact (apply_zero _).symm
  | subnormal hfield hfraction =>
    rw [if_pos (by omega), if_pos hfield, if_pos hfield]
    rfl
  | normal hlow hhigh =>
    rw [if_pos hhigh, if_neg hlow.ne', if_neg hlow.ne']
    rfl

theorem signOf_of_pos {x : Float} (h : 0.0 < x) : signOf x = .positive := by
  obtain ⟨-, hx, hpos⟩ := lt_iff.mp h
  rw [measure_zero, measure_eq_apply hx] at hpos
  cases hsign : signOf x with
  | positive => rfl
  | negative =>
    rw [hsign, Sign.apply] at hpos
    omega

theorem field_lt_of_isFinite {x : Float} (hx : x.isFinite = true) : field x < 2047 := by
  change (parts x).isFinite = true at hx
  have hreads := readable x
  generalize parts x = u at hreads hx
  cases hreads with
  | infinity => cases hx
  | notANumber => cases hx
  | zero hfield => omega
  | subnormal hfield => omega
  | normal hlow hhigh => exact hhigh

theorem decode_of_isFinite {x : Float} (hx : x.isFinite = true) :
    Decimal.decode x = .finite ⟨isMinus (signOf x), mantissa x, exponent x⟩ := by
  have hfield := field_lt_of_isFinite hx
  rw [decode_eq]
  unfold mantissa exponent
  have hreads := readable x
  generalize parts x = u at hreads
  cases hreads with
  | infinity => omega
  | notANumber => omega
  | zero hfield hfraction => simp [hfield, hfraction, decoded]
  | subnormal hfield hfraction => simp [hfield, decoded]
  | normal hlow hhigh => simp [hlow.ne', decoded]

/-- Zero has no digits. -/
theorem parts_of_mantissa_eq_zero {x : Float} (hx : x.isFinite = true) (h : mantissa x = 0) :
    parts x = .zero (signOf x) := by
  have hfield := field_lt_of_isFinite hx
  unfold mantissa at h
  have hreads := readable x
  generalize parts x = u at hreads
  cases hreads with
  | infinity => omega
  | notANumber => omega
  | zero => rfl
  | subnormal hfield hfraction =>
    rw [if_pos hfield] at h
    omega
  | normal hlow hhigh =>
    rw [if_neg hlow.ne'] at h
    omega

/-- Of two numbers, the one with more in its bits has more quanta. -/
theorem height_lt {x y : Float} (hy : IsNumber y) (h : magnitude x < magnitude y) :
    height x < height y := by
  have hx_fraction : fraction x < 2 ^ 52 := fraction_lt x
  have hy_fraction : fraction y < 2 ^ 52 := fraction_lt y
  -- the largest field stands for infinity, and nothing lies beyond it
  have hy_field : field y < 2047 ∨ field y = 2047 ∧ fraction y = 0 := by
    have hreads := readable y
    unfold IsNumber at hy
    generalize parts y = u at hreads hy
    cases hreads with
    | infinity hfield hfraction => exact .inr ⟨hfield, hfraction⟩
    | notANumber hfield hfraction => exact absurd rfl hy
    | zero hfield hfraction => exact .inl (by omega)
    | subnormal hfield hfraction => exact .inl (by omega)
    | normal hlow hhigh => exact .inl hhigh
  unfold magnitude at h
  have hx_field : field x < 2047 := by omega
  rw [height, if_pos hx_field]
  rcases hy_field with hy_field | ⟨hy_field, -⟩
  · rw [height, if_pos hy_field]
    -- the exponents decide, and the digits do so between equal exponents
    have hcases : exponent x < exponent y ∨ exponent x = exponent y ∧ mantissa x < mantissa y := by
      unfold exponent mantissa
      split_ifs <;> omega
    rcases hcases with hlt | ⟨heq, hlt⟩
    · exact size_lt_size (isCanonical_mantissa x) (isCanonical_mantissa y) hlt
    · rw [heq]
      exact Nat.mul_lt_mul_of_pos_right hlt (by positivity)
  · rw [height, if_neg (by omega)]
    refine size_lt_limit (isCanonical_mantissa x) ?_
    unfold exponent
    split_ifs <;> omega

theorem height_le {x y : Float} (hy : IsNumber y) (h : magnitude x ≤ magnitude y) :
    height x ≤ height y := by
  rcases h.eq_or_lt with heq | hlt
  · have hx_fraction : fraction x < 2 ^ 52 := fraction_lt x
    have hy_fraction : fraction y < 2 ^ 52 := fraction_lt y
    unfold magnitude at heq
    have hfield : field x = field y := by omega
    have hfraction : fraction x = fraction y := by omega
    rw [height, height, mantissa, mantissa, exponent, exponent, hfield, hfraction]
  · exact (height_lt hy hlt).le

/-- The total order is the order of numbers, as far as numbers can be told apart. -/
theorem le_of_orderKey_le {x y : Float} (hx : IsNumber x) (hy : IsNumber y)
    (h : orderKey x ≤ orderKey y) : x ≤ y := by
  refine le_iff.mpr ⟨hx, hy, ?_⟩
  have hup := height_le (x := x) hy
  have hdown := height_le (x := y) hx
  rw [orderKey_eq, orderKey_eq] at h
  rw [measure_eq_apply hx, measure_eq_apply hy]
  generalize signOf x = s at h ⊢
  generalize signOf y = t at h ⊢
  cases s <;> cases t <;>
    simp only [isMinus, Sign.apply, if_true, Bool.false_eq_true, if_false] at h ⊢
  · have := hdown (by omega)
    omega
  · omega
  · omega
  · have := hup (by omega)
    omega

/-- Among numbers with the plus sign, the order of numbers is the total order. -/
theorem orderKey_le_of_le {x y : Float} (hx : orderKey 0.0 ≤ orderKey x)
    (hy : orderKey 0.0 ≤ orderKey y) (hle : x ≤ y) : orderKey x ≤ orderKey y := by
  have hzero : orderKey 0.0 = 0 := by decide
  obtain ⟨hx_number, hy_number, h⟩ := le_iff.mp hle
  have hstrict := height_lt (x := y) hx_number
  rw [measure_eq_apply hx_number, measure_eq_apply hy_number] at h
  rw [hzero, orderKey_eq] at hx hy
  rw [orderKey_eq, orderKey_eq]
  generalize signOf x = s at h hx ⊢
  generalize signOf y = t at h hy ⊢
  cases s <;> cases t <;>
    simp only [isMinus, Sign.apply, if_true, Bool.false_eq_true, if_false] at h hx hy ⊢
  · omega
  · omega
  · omega
  · by_contra hlt
    have := hstrict (by omega)
    omega

theorem orderKey_eq_code {x : Float} (h : 0 ≤ orderKey x) : orderKey x = code x := by
  rw [orderKey_eq_ite] at h ⊢
  split_ifs at h ⊢
  · rfl
  · omega

/-- The bits of a larger number are larger, from zero on. -/
theorem toBits_lt_of_lt {x y : Float} (hx : 0 ≤ orderKey x) (h : x < y) :
    x.toBits < y.toBits ∧ 0 ≤ orderKey y := by
  have hzero : orderKey 0.0 = 0 := by decide
  obtain ⟨hx_number, hy_number, -⟩ := lt_iff.mp h
  have hnonneg : 0.0 ≤ x := le_of_orderKey_le isNumber_zero hx_number (hzero ▸ hx)
  have hy : 0 ≤ orderKey y := by
    rw [orderKey_eq, signOf_of_pos (Binary64.lt_of_le_of_lt hnonneg h)]
    exact Int.natCast_nonneg _
  have hkey : orderKey x < orderKey y := by
    by_contra hnot
    have hback := le_of_orderKey_le hy_number hx_number (not_lt.mp hnot)
    exact (Binary64.not_lt hx_number hy_number).mpr hback h
  rw [orderKey_eq_code hx, orderKey_eq_code hy, Nat.cast_lt] at hkey
  exact ⟨UInt64.lt_iff_toNat_lt.mpr hkey, hy⟩

/-- Numbers other than zero are determined by their quanta. -/
theorem eq_of_measure_eq {x y : Float} (hx : IsNumber x) (hy : IsNumber y)
    (hne : measure x ≠ 0) (h : measure x = measure y) : x = y := by
  have hup := height_lt (x := x) hy
  have hdown := height_lt (x := y) hx
  rw [measure_eq_apply hx] at h hne
  rw [measure_eq_apply hy] at h
  have hx_code := code_lt x
  have hy_code := code_lt y
  have hsame : signOf x = signOf y ∧ magnitude x = magnitude y := by
    generalize signOf x = s at h hne ⊢
    generalize signOf y = t at h ⊢
    cases s <;> cases t <;> simp only [Sign.apply] at h hne
    · exact ⟨rfl, by omega⟩
    · omega
    · omega
    · exact ⟨rfl, by omega⟩
  have hcode : code x = code y := by
    obtain ⟨hsign, hmagnitude⟩ := hsame
    unfold signOf at hsign
    unfold magnitude field fraction at hmagnitude
    split_ifs at hsign <;> omega
  exact code_injective hcode

theorem hasQuanta_neg {u : UnpackedFloat} (hu : IsProper u) (hnumber : u ≠ .notANumber) :
    HasQuanta (stored u.neg) (-quanta u) := by
  cases u with
  | notANumber => exact absurd rfl hnumber
  | infinity s =>
    rw [quanta, ← apply_neg]
    exact hasQuanta_stored_infinity _
  | zero s =>
    rw [quanta, neg_zero]
    exact hasQuanta_stored_zero _
  | finite s m e h =>
    have hstored := hasQuanta_stored_finite (-s) h hu.1
    rwa [min_eq_left (size_lt_limit hu.1 hu.2).le, apply_neg] at hstored

theorem isNumber_neg {x : Float} (hx : IsNumber x) : IsNumber (-x) :=
  (hasQuanta_neg (isProper_parts x) hx).1

theorem measure_neg {x : Float} (hx : IsNumber x) : measure (-x) = -measure x :=
  (hasQuanta_neg (isProper_parts x) hx).2

end PlanPlayback.Binary64
