import Mathlib
import PlanPlayback.Proofs.Binary64.Rounding

/-!
# Numbers in 64 bits

An unpacked floating-point number is *proper* if it is the unpacking of 64 bits: its significand has
at most 53 binary digits, its exponent is in range, and it has fewer digits only at the least
exponent.  Packing keeps its number of quanta, and numbers are compared by these.

* `quanta` is the number of quanta; infinity lies at `limit`, beyond every finite number;
* `isProper_unpack`: 64 bits are the packing of a proper number or of no number;
* `hasQuanta_stored_finite`: packing turns a number whose exponent is too large into infinity, and
  changes no other;
* `compare_of_proper`: the order of proper numbers is the order of their quanta.
-/

namespace PlanPlayback.Binary64

open Float.Model UnpackedFloat

/-! ## Quanta -/

/-- The number of quanta of a significand and an exponent. -/
def size (m : ℕ) (e : ℤ) : ℕ :=
  m * 2 ^ (e + 1074).toNat

/-- The significand and the exponent of a number with at most 53 digits, that has fewer of them only
at the least exponent. -/
def IsCanonical (m : ℕ) (e : ℤ) : Prop :=
  m < 2 ^ 53 ∧ -1074 ≤ e ∧ (2 ^ 52 ≤ m ∨ e = -1074)

/-- The unpackings of 64 bits. -/
def IsProper : UnpackedFloat → Prop
  | .finite _ m e _ => IsCanonical m e ∧ e ≤ 971
  | _ => True

/-- The number of quanta of an unpacked number. -/
def quanta : UnpackedFloat → ℤ
  | .infinity s => s.apply limit
  | .finite s m e _ => s.apply (size m e)
  | .zero _ => 0
  | .notANumber => 0

/-- A number, and how many quanta it has. -/
def HasQuanta (u : UnpackedFloat) (z : ℤ) : Prop :=
  u ≠ .notANumber ∧ quanta u = z

theorem size_pos {m : ℕ} (h : 0 < m) (e : ℤ) : 0 < size m e :=
  Nat.mul_pos h (by positivity)

theorem size_lt_limit {m : ℕ} {e : ℤ} (h : IsCanonical m e) (he : e ≤ 971) : size m e < limit :=
  calc size m e < 2 ^ 53 * 2 ^ (e + 1074).toNat :=
        Nat.mul_lt_mul_of_pos_right h.1 (by positivity)
    _ ≤ limit := two_pow_mul_le_limit (by omega)

theorem limit_le_size {m : ℕ} {e : ℤ} (h : IsCanonical m e) (he : 971 < e) : limit ≤ size m e :=
  calc limit ≤ 2 ^ 52 * 2 ^ (e + 1074).toNat := limit_le_two_pow_mul (by omega)
    _ ≤ size m e := Nat.mul_le_mul_right _ (h.2.2.resolve_right (by omega))

/-- The larger exponent makes the larger number. -/
theorem size_lt_size {m₁ m₂ : ℕ} {e₁ e₂ : ℤ} (h₁ : IsCanonical m₁ e₁) (h₂ : IsCanonical m₂ e₂)
    (he : e₁ < e₂) : size m₁ e₁ < size m₂ e₂ := by
  have hlow : -1074 ≤ e₁ := h₁.2.1
  have hm : 2 ^ 52 ≤ m₂ := h₂.2.2.resolve_right (by omega)
  calc size m₁ e₁ < 2 ^ 53 * 2 ^ (e₁ + 1074).toNat :=
        Nat.mul_lt_mul_of_pos_right h₁.1 (by positivity)
    _ = 2 ^ 52 * 2 ^ ((e₁ + 1074).toNat + 1) := by rw [← pow_add, ← pow_add]; congr 1; omega
    _ ≤ m₂ * 2 ^ (e₂ + 1074).toNat :=
        Nat.mul_le_mul hm (Nat.pow_le_pow_right (by decide) (by omega))

theorem compare_size {m₁ m₂ : ℕ} {e₁ e₂ : ℤ} (h₁ : IsCanonical m₁ e₁) (h₂ : IsCanonical m₂ e₂) :
    (compare e₁ e₂).then (compare m₁ m₂) = compare (size m₁ e₁ : ℤ) (size m₂ e₂) := by
  rcases lt_trichotomy e₁ e₂ with he | rfl | he
  · rw [compare_lt_iff_lt.mpr he, compare_lt_iff_lt.mpr (Nat.cast_lt.mpr (size_lt_size h₁ h₂ he))]
    rfl
  · rw [compare_eq_iff_eq.mpr rfl, Ordering.eq_then]
    have hmono : ∀ {m n : ℕ}, m < n → (size m e₁ : ℤ) < size n e₁ := fun h =>
      Nat.cast_lt.mpr (Nat.mul_lt_mul_of_pos_right h (by positivity))
    rcases lt_trichotomy m₁ m₂ with hm | rfl | hm
    · rw [compare_lt_iff_lt.mpr hm, compare_lt_iff_lt.mpr (hmono hm)]
    · rw [compare_eq_iff_eq.mpr rfl, compare_eq_iff_eq.mpr rfl]
    · rw [compare_gt_iff_gt.mpr hm, compare_gt_iff_gt.mpr (hmono hm)]
  · rw [compare_gt_iff_gt.mpr he, compare_gt_iff_gt.mpr (Nat.cast_lt.mpr (size_lt_size h₂ h₁ he))]
    rfl

/-! ## Packing -/

/-- What is left of a number after it has been packed. -/
def stored (u : UnpackedFloat) : UnpackedFloat :=
  unpack Format.binary64 (pack Format.binary64 u)

theorem toNat_one_append (v : BitVec 52) : (1#1 ++ v).toNat = 2 ^ 52 + v.toNat := by
  rw [BitVec.toNat_append, ← Nat.shiftLeft_add_eq_or_of_lt v.isLt]
  rfl

theorem isProper_unpack (b : BitVec Format.binary64.numBits) :
    IsProper (unpack Format.binary64 b) := by
  have hmantissa : (unpackMantissa b).toNat < 2 ^ 52 := (unpackMantissa b).isLt
  have hexponent : (unpackExponent b).toNat < 2 ^ 11 := (unpackExponent b).isLt
  have hbias : ((Format.binary64.exponentBias : ℕ) : ℤ) +
      (Format.binary64.mantissaBitsWithoutImplicit : ℕ) = 1075 := rfl
  rw [UnpackedFloat.unpack]
  split_ifs with hlast hinfinite hfirst hzero
  · trivial
  · trivial
  · trivial
  · have hnone : (unpackExponent b).toNat = 0 := congrArg BitVec.toNat hfirst
    refine ⟨⟨by omega, ?_, Or.inr ?_⟩, ?_⟩ <;> rw [hbias] <;> omega
  · have happend : (1#1 ++ unpackMantissa b).toNat = 2 ^ 52 + (unpackMantissa b).toNat :=
      toNat_one_append _
    have hne_last : (unpackExponent b).toNat ≠ 2047 := fun h => hlast (BitVec.eq_of_toNat_eq h)
    have hne_first : (unpackExponent b).toNat ≠ 0 := fun h => hfirst (BitVec.eq_of_toNat_eq h)
    refine ⟨⟨by omega, ?_, Or.inl (by omega)⟩, ?_⟩ <;> rw [hbias] <;> omega

@[simp] theorem apply_zero (s : Sign) : s.apply 0 = 0 := by
  cases s <;> rfl

theorem stored_notANumber : stored .notANumber = .notANumber :=
  unpack_packedNaN

theorem stored_infinity (s : Sign) : stored (.infinity s) = .infinity s := by
  cases s <;> rfl

theorem hasQuanta_stored_infinity (s : Sign) :
    HasQuanta (stored (.infinity s)) (s.apply limit) := by
  rw [stored_infinity]
  exact ⟨nofun, rfl⟩

theorem hasQuanta_stored_zero (s : Sign) : HasQuanta (stored (.zero s)) 0 := by
  cases s <;> exact ⟨nofun, rfl⟩

/-- A field of zeros for the exponent stands for the least exponent. -/
theorem hasQuanta_packed_subnormal (s : Sign) (v : BitVec 52) :
    HasQuanta (UnpackedFloat.unpack Format.binary64 (packComponents Format.binary64 s 0#_ v))
      (s.apply (size v.toNat (-1074))) := by
  rw [UnpackedFloat.unpack]
  simp only [unpackMantissa_packComponents, unpackExponent_packComponents,
    unpackSign_packComponents, Sign.ofBitVec_toBitVec]
  rw [if_neg (by decide), if_pos trivial]
  split_ifs with hzero
  · refine ⟨nofun, ?_⟩
    rw [hzero]
    exact (apply_zero s).symm
  · exact ⟨nofun, rfl⟩

/-- Any other field for the exponent, but the last one, stands for a digit before those of the
significand. -/
theorem hasQuanta_packed_normal (s : Sign) {k : ℕ} (hpos : 0 < k) (hlt : k < 2047)
    (v : BitVec 52) :
    HasQuanta (UnpackedFloat.unpack Format.binary64
        (packComponents Format.binary64 s (BitVec.ofNat _ k) v))
      (s.apply (size (2 ^ 52 + v.toNat) (k - 1075))) := by
  have hfield : (BitVec.ofNat 11 k).toNat = k := by
    rw [BitVec.toNat_ofNat]
    omega
  rw [UnpackedFloat.unpack]
  simp only [unpackMantissa_packComponents, unpackExponent_packComponents,
    unpackSign_packComponents, Sign.ofBitVec_toBitVec]
  rw [if_neg, if_neg]
  · refine ⟨nofun, ?_⟩
    rw [quanta, ← toNat_one_append]
    congr 3
    exact congrArg (fun n : ℕ => (n : ℤ) - 1075) hfield
  · intro hfirst
    have hzero : k = 0 := hfield.symm.trans (congrArg BitVec.toNat hfirst)
    omega
  · intro hlast
    have hones : k = 2047 := hfield.symm.trans (congrArg BitVec.toNat hlast)
    omega

/-- A number whose exponent is too large is stored as infinity, and others as they are. -/
theorem hasQuanta_stored_finite (s : Sign) {m : ℕ} {e : ℤ} (h : 0 < m)
    (hcanonical : IsCanonical m e) :
    HasQuanta (stored (.finite s m e h)) (s.apply (min (size m e) limit : ℕ)) := by
  have hhigh : m < 2 ^ 53 := hcanonical.1
  have hlow : -1074 ≤ e := hcanonical.2.1
  have hbiased : (e + Format.binary64.exponentBias +
      Format.binary64.mantissaBitsWithoutImplicit).toNat = (e + 1075).toNat := by
    rw [add_assoc]
    rfl
  unfold stored
  rw [UnpackedFloat.pack]
  simp only [hbiased]
  rcases le_or_gt e 971 with he | he
  · rw [min_eq_left (size_lt_limit hcanonical he).le, if_neg (by omega)]
    rcases le_or_gt (2 ^ 52) m with hm | hm
    -- the leading digit is not stored
    · have hlog : m.log2 = 52 := (Nat.log2_eq_iff h.ne').mpr ⟨hm, hhigh⟩
      rw [if_pos (by rw [hlog]; rfl)]
      have hfield : (BitVec.ofNat 52 m).toNat = m - 2 ^ 52 := by
        rw [BitVec.toNat_ofNat]
        omega
      have hpacked := hasQuanta_packed_normal s (k := (e + 1075).toNat) (by omega) (by omega)
        (BitVec.ofNat 52 m)
      rwa [hfield, Nat.add_sub_cancel' hm, Int.toNat_of_nonneg (by omega),
        add_sub_cancel_right] at hpacked
    -- without a leading digit the exponent is the least one
    · have hlog : m.log2 < 52 := (Nat.log2_lt h.ne').mpr hm
      obtain rfl : e = -1074 := hcanonical.2.2.resolve_left (by omega)
      rw [if_neg (by intro heq; have : m.log2 + 1 = 53 := heq; omega)]
      have hfield : (BitVec.ofNat 52 m).toNat = m := Nat.mod_eq_of_lt hm
      have hpacked := hasQuanta_packed_subnormal s (BitVec.ofNat 52 m)
      rwa [hfield] at hpacked
  · rw [min_eq_right (limit_le_size hcanonical he), if_pos (by omega)]
    exact hasQuanta_stored_infinity s

/-! ## The order -/

theorem compare_neg_neg (a b : ℤ) : compare (-a) (-b) = (compare a b).swap := by
  rcases lt_trichotomy a b with h | rfl | h
  · rw [compare_lt_iff_lt.mpr h, compare_gt_iff_gt.mpr (neg_lt_neg h)]
    rfl
  · rw [compare_eq_iff_eq.mpr rfl, compare_eq_iff_eq.mpr rfl]
    rfl
  · rw [compare_gt_iff_gt.mpr h, compare_lt_iff_lt.mpr (neg_lt_neg h)]
    rfl

theorem compare_of_lt {a b : ℤ} (h : a < b) : some Ordering.lt = some (compare a b) :=
  congrArg some (compare_lt_iff_lt.mpr h).symm

theorem compare_of_gt {a b : ℤ} (h : b < a) : some Ordering.gt = some (compare a b) :=
  congrArg some (compare_gt_iff_gt.mpr h).symm

/-- The order of proper numbers is the order of their quanta. -/
theorem compare_of_proper {u v : UnpackedFloat} (hu : IsProper u) (hv : IsProper v)
    (hu' : u ≠ .notANumber) (hv' : v ≠ .notANumber) :
    u.compare v = some (compare (quanta u) (quanta v)) := by
  -- infinity lies beyond all finite numbers, and zero between the two signs
  have hbounds : ∀ {s m e h}, IsProper (.finite s m e h) → 0 < size m e ∧ size m e < limit :=
    fun {s m e h} hproper => ⟨size_pos h e, size_lt_limit hproper.1 hproper.2⟩
  have hlimit := limit_pos
  have hequal : ∀ a : ℤ, some Ordering.eq = some (compare a a) := fun a =>
    congrArg some (compare_eq_iff_eq.mpr rfl).symm
  cases u with
  | notANumber => exact absurd rfl hu'
  | infinity s₁ =>
    cases v with
    | notANumber => exact absurd rfl hv'
    | infinity s₂ =>
      rcases s₁ <;> rcases s₂ <;>
        first
        | exact hequal _
        | exact compare_of_lt (by simp only [quanta, Sign.apply]; omega)
        | exact compare_of_gt (by simp only [quanta, Sign.apply]; omega)
    | zero s₂ =>
      rcases s₁
      · exact compare_of_lt (by simp only [quanta, Sign.apply]; omega)
      · exact compare_of_gt (by simp only [quanta, Sign.apply]; omega)
    | finite s₂ m₂ e₂ h₂ =>
      have := hbounds hv
      rcases s₁
      · refine compare_of_lt ?_
        rcases s₂ <;> simp only [quanta, Sign.apply] <;> omega
      · refine compare_of_gt ?_
        rcases s₂ <;> simp only [quanta, Sign.apply] <;> omega
  | zero s₁ =>
    cases v with
    | notANumber => exact absurd rfl hv'
    | infinity s₂ =>
      rcases s₂
      · exact compare_of_gt (by simp only [quanta, Sign.apply]; omega)
      · exact compare_of_lt (by simp only [quanta, Sign.apply]; omega)
    | zero s₂ => exact hequal 0
    | finite s₂ m₂ e₂ h₂ =>
      have := hbounds hv
      rcases s₂
      · exact compare_of_gt (by simp only [quanta, Sign.apply]; omega)
      · exact compare_of_lt (by simp only [quanta, Sign.apply]; omega)
  | finite s₁ m₁ e₁ h₁ =>
    have := hbounds hu
    cases v with
    | notANumber => exact absurd rfl hv'
    | infinity s₂ =>
      rcases s₂
      · refine compare_of_gt ?_
        rcases s₁ <;> simp only [quanta, Sign.apply] <;> omega
      · refine compare_of_lt ?_
        rcases s₁ <;> simp only [quanta, Sign.apply] <;> omega
    | zero s₂ =>
      rcases s₁
      · exact compare_of_lt (by simp only [quanta, Sign.apply]; omega)
      · exact compare_of_gt (by simp only [quanta, Sign.apply]; omega)
    | finite s₂ m₂ e₂ h₂ =>
      have hsize := compare_size hu.1 hv.1
      have := hbounds hv
      rcases s₁ <;> rcases s₂
      · rw [UnpackedFloat.compare, hsize, ← compare_neg_neg]
        rfl
      · exact compare_of_lt (by simp only [quanta, Sign.apply]; omega)
      · exact compare_of_gt (by simp only [quanta, Sign.apply]; omega)
      · exact congrArg some hsize

end PlanPlayback.Binary64
