import PlanPlayback.Proofs.Binary64.Bits

/-!
# The total order of floating-point numbers

The actions of a plan are sorted by keys that are made from the bits of their starts.  Here it is
said which order that is without a word about keys.

* `TotalLE` is the order of numbers, completed where that order does not decide: the two zeros are
  told apart (`orderKey_le_iff`, `orderKey_injective`);
* `NaNBits.TotalLE` is the order of what is no number, by sign and payload
  (`totalKey_code_le_iff`, `eq_of_totalKey_code_eq`);
* what has a minus sign and is no number comes before all numbers, and what has none behind them
  (`totalKey_code_lt_orderKey`, `orderKey_lt_totalKey_code`).
-/

namespace PlanPlayback

/-- The total order of what is no number.  A minus sign comes first, and among minus signs the
larger payload. -/
inductive NaNBits.TotalLE (b c : NaNBits) : Prop where
  | signs (hb : b.minus = true) (hc : c.minus = false)
  | minus (hb : b.minus = true) (hc : c.minus = true) (h : c.payload ≤ b.payload)
  | plus (hb : b.minus = false) (hc : c.minus = false) (h : b.payload ≤ c.payload)

theorem NaNBits.ext {b c : NaNBits} (hminus : b.minus = c.minus)
    (hpayload : b.payload = c.payload) : b = c := by
  cases b
  cases c
  cases hminus
  cases hpayload
  rfl

theorem NaNBits.TotalLE.antisymm {b c : NaNBits} (h : b.TotalLE c) (h' : c.TotalLE b) :
    b = c := by
  rcases h with ⟨hb, hc⟩ | ⟨hb, hc, h⟩ | ⟨hb, hc, h⟩
  · rcases h' with ⟨hminus, -⟩ | ⟨hminus, -, -⟩ | ⟨-, hplus, -⟩
    · simp [hc] at hminus
    · simp [hc] at hminus
    · simp [hb] at hplus
  · rcases h' with ⟨-, hplus⟩ | ⟨-, -, h'⟩ | ⟨hplus, -, -⟩
    · simp [hb] at hplus
    · exact NaNBits.ext (hb.trans hc.symm) (le_antisymm h' h)
    · simp [hc] at hplus
  · rcases h' with ⟨hminus, -⟩ | ⟨hminus, -, -⟩ | ⟨-, -, h'⟩
    · simp [hc] at hminus
    · simp [hc] at hminus
    · exact NaNBits.ext (hb.trans hc.symm) (le_antisymm h h')

namespace Binary64

open Float.Model UnpackedFloat

/-- The total order of numbers. -/
inductive TotalLE (x y : Float) : Prop where
  | same (h : x = y)
  | less (h : x < y)
  | zeros (hx : x = -0.0) (hy : y = 0.0)

theorem orderKey_injective : Function.Injective orderKey := by
  intro x y h
  have hcode : code x = code y := by
    rw [orderKey_eq_ite, orderKey_eq_ite] at h
    split_ifs at h <;> omega
  exact code_injective hcode

/-! ## What is no number -/

variable {b c : NaNBits}

theorem totalKey_code_of_minus (h : b.minus = true) :
    totalKey b.code = -((2047 * 2 ^ 52 + b.payload : ℕ) : ℤ) - 1 := by
  have hcode : b.code = 2 ^ 63 + (2047 * 2 ^ 52 + b.payload) := by
    rw [NaNBits.code, h]
    rfl
  have hrest : b.code - Nat.pow 2 63 = 2047 * 2 ^ 52 + b.payload := by
    rw [hcode]
    exact Nat.add_sub_cancel_left _ _
  rw [totalKey, if_neg (by rw [hcode]; exact Nat.not_lt.mpr (Nat.le_add_right _ _)), hrest]

theorem totalKey_code_of_plus (h : b.minus = false) :
    totalKey b.code = ((2047 * 2 ^ 52 + b.payload : ℕ) : ℤ) := by
  have hpayload : b.payload < 2 ^ 52 := b.payload_lt
  have hcode : b.code = 2047 * 2 ^ 52 + b.payload := by
    rw [NaNBits.code, h]
    exact Nat.zero_add _
  have hsmall : 2047 * 2 ^ 52 + b.payload < 2 ^ 63 := by omega
  rw [hcode]
  exact if_pos hsmall

/-- **The keys of two values that are no numbers are in order exactly if their bits are.** -/
theorem totalKey_code_le_iff : totalKey b.code ≤ totalKey c.code ↔ b.TotalLE c := by
  cases hb : b.minus <;> cases hc : c.minus
  · rw [totalKey_code_of_plus hb, totalKey_code_of_plus hc]
    refine ⟨fun h => .plus hb hc (by omega), ?_⟩
    rintro (⟨hminus, -⟩ | ⟨hminus, -, -⟩ | ⟨-, -, h⟩)
    · simp [hb] at hminus
    · simp [hb] at hminus
    · omega
  · rw [totalKey_code_of_plus hb, totalKey_code_of_minus hc]
    refine iff_of_false (by omega) ?_
    rintro (⟨hminus, -⟩ | ⟨hminus, -, -⟩ | ⟨-, hplus, -⟩)
    · simp [hb] at hminus
    · simp [hb] at hminus
    · simp [hc] at hplus
  · rw [totalKey_code_of_minus hb, totalKey_code_of_plus hc]
    exact iff_of_true (by omega) (.signs hb hc)
  · rw [totalKey_code_of_minus hb, totalKey_code_of_minus hc]
    refine ⟨fun h => .minus hb hc (by omega), ?_⟩
    rintro (⟨-, hplus⟩ | ⟨-, -, h⟩ | ⟨hplus, -, -⟩)
    · simp [hc] at hplus
    · omega
    · simp [hb] at hplus

theorem eq_of_totalKey_code_eq (h : totalKey b.code = totalKey c.code) : b = c :=
  (totalKey_code_le_iff.mp h.le).antisymm (totalKey_code_le_iff.mp h.ge)

/-- The key of a number lies between those of the two infinities. -/
theorem orderKey_bounds {x : Float} (hx : IsNumber x) :
    -(2047 * 2 ^ 52) - 1 ≤ orderKey x ∧ orderKey x ≤ 2047 * 2 ^ 52 := by
  have hmagnitude : magnitude x ≤ 2 ^ 52 * 2047 := by
    unfold magnitude
    have hfraction := fraction_lt x
    unfold IsNumber at hx
    have hreads := readable x
    generalize parts x = u at hreads hx
    cases hreads with
    | infinity => omega
    | notANumber => exact absurd rfl hx
    | zero => omega
    | subnormal => omega
    | normal => omega
  rw [orderKey_eq]
  split_ifs <;> omega

theorem totalKey_code_lt_orderKey (hminus : b.minus = true) {x : Float} (hx : IsNumber x) :
    totalKey b.code < orderKey x := by
  have hkey := (orderKey_bounds hx).1
  have hpayload := b.payload_pos
  rw [totalKey_code_of_minus hminus]
  omega

theorem orderKey_lt_totalKey_code (hplus : b.minus = false) {x : Float} (hx : IsNumber x) :
    orderKey x < totalKey b.code := by
  have hkey := (orderKey_bounds hx).2
  have hpayload := b.payload_pos
  rw [totalKey_code_of_plus hplus]
  omega

/-! ## Numbers -/

/-- A number without quanta is one of the two zeros. -/
theorem parts_of_measure_eq_zero {x : Float} (hx : IsNumber x) (h : measure x = 0) :
    ∃ s, parts x = .zero s := by
  have hlimit := limit_pos
  unfold measure at h
  unfold IsNumber at hx
  cases hparts : parts x with
  | notANumber => exact absurd hparts hx
  | zero s => exact ⟨s, rfl⟩
  | infinity s =>
    rw [hparts, quanta] at h
    cases s <;> rw [Sign.apply] at h <;> omega
  | finite s m e hm =>
    have hsize := size_pos hm e
    rw [hparts, quanta] at h
    cases s <;> rw [Sign.apply] at h <;> omega

/-- Numbers that cannot be told apart by their order are the same, or both are zero. -/
theorem eq_or_zeros {x y : Float} (hx : IsNumber x) (hy : IsNumber y)
    (h : measure x = measure y) (hkey : orderKey x ≤ orderKey y) :
    x = y ∨ x = -0.0 ∧ y = 0.0 := by
  by_cases hzero : measure x = 0
  · have hpositive : parts 0.0 = .zero .positive := rfl
    have hnegative : parts (-0.0) = .zero .negative := rfl
    obtain ⟨s, hs⟩ := parts_of_measure_eq_zero hx hzero
    obtain ⟨t, ht⟩ := parts_of_measure_eq_zero hy (h.symm.trans hzero)
    cases s with
    | negative =>
      have hx_zero : x = -0.0 := parts_inj (hs.trans hnegative.symm)
      cases t with
      | negative => exact .inl (parts_inj (hs.trans ht.symm))
      | positive => exact .inr ⟨hx_zero, parts_inj (ht.trans hpositive.symm)⟩
    | positive =>
      cases t with
      | negative =>
        rw [parts_inj (hs.trans hpositive.symm), parts_inj (ht.trans hnegative.symm)] at hkey
        exact absurd hkey (by decide)
      | positive => exact .inl (parts_inj (hs.trans ht.symm))
  · exact .inl (eq_of_measure_eq hx hy hzero h)

/-- **The keys of two numbers are in order exactly if the numbers are in the total order.** -/
theorem orderKey_le_iff {x y : Float} (hx : IsNumber x) (hy : IsNumber y) :
    orderKey x ≤ orderKey y ↔ TotalLE x y := by
  constructor
  · intro hkey
    obtain ⟨-, -, hle⟩ := le_iff.mp (le_of_orderKey_le hx hy hkey)
    rcases hle.lt_or_eq with hlt | heq
    · exact .less (lt_iff.mpr ⟨hx, hy, hlt⟩)
    · rcases eq_or_zeros hx hy heq hkey with hsame | ⟨hx_zero, hy_zero⟩
      · exact .same hsame
      · exact .zeros hx_zero hy_zero
  · intro hle
    cases hle with
    | same h => rw [h]
    | less h =>
      by_contra hkey
      exact (Binary64.not_lt hx hy).mpr (le_of_orderKey_le hy hx (not_le.mp hkey).le) h
    | zeros hx_zero hy_zero =>
      rw [hx_zero, hy_zero]
      decide

end Binary64

end PlanPlayback
