import PlanPlayback.Proofs.Binary64.Arithmetic

/-!
# The order of floating-point numbers

Floating-point numbers are ordered by their numbers of quanta, except that what is no number is
neither below nor above anything.  With one operand fixed, the operations are monotone in the other
one, infinity included.

* `le_iff` and `lt_iff` are the order;
* `Computes.mono`: an operation is monotone if its exact results are.  Hence
  `sub_le_sub_right`, `add_le_add_left` and `div_le_div_of_pos`;
* `le_add_of_nonneg`, `add_nonneg`, `mul_nonneg` and `div_nonneg` follow from that.
-/

namespace PlanPlayback.Binary64

open Float.Model UnpackedFloat

/-! ## The order -/

/-- A floating-point number, unpacked. -/
def parts (x : Float) : UnpackedFloat :=
  x.toModel.unpack

/-- Whether there is a number in 64 bits. -/
def IsNumber (x : Float) : Prop :=
  parts x ≠ .notANumber

/-- The number of quanta of a floating-point number. -/
def measure (x : Float) : ℤ :=
  quanta (parts x)

theorem isProper_parts (x : Float) : IsProper (parts x) :=
  isProper_unpack _

theorem compare_parts {x y : Float} (hx : IsNumber x) (hy : IsNumber y) :
    (parts x).compare (parts y) = some (compare (measure x) (measure y)) :=
  compare_of_proper (isProper_parts x) (isProper_parts y) hx hy

theorem compare_eq_none {x y : Float} (h : ¬(IsNumber x ∧ IsNumber y)) :
    (parts x).compare (parts y) = none := by
  unfold IsNumber at h
  rcases hx : parts x with _ | _ | _ | _ <;> rcases hy : parts y with _ | _ | _ | _ <;>
    first
    | rfl
    | exact absurd ⟨by rw [hx]; nofun, by rw [hy]; nofun⟩ h

theorem le_iff {x y : Float} : x ≤ y ↔ IsNumber x ∧ IsNumber y ∧ measure x ≤ measure y := by
  change decide (x.toModel ≤ y.toModel) = true ↔ _
  rw [decide_eq_true_iff]
  change (parts x).le (parts y) = true ↔ _
  rw [UnpackedFloat.le]
  by_cases h : IsNumber x ∧ IsNumber y
  · rw [compare_parts h.1 h.2, Option.any_some, ← compare_le_iff_le, Ordering.isLE_iff_ne_gt]
    exact ⟨fun hle => ⟨h.1, h.2, hle⟩, fun hle => hle.2.2⟩
  · rw [compare_eq_none h]
    exact ⟨nofun, fun hle => absurd ⟨hle.1, hle.2.1⟩ h⟩

theorem lt_iff {x y : Float} : x < y ↔ IsNumber x ∧ IsNumber y ∧ measure x < measure y := by
  change decide (x.toModel < y.toModel) = true ↔ _
  rw [decide_eq_true_iff]
  change (parts x).lt (parts y) = true ↔ _
  rw [UnpackedFloat.lt, beq_iff_eq]
  by_cases h : IsNumber x ∧ IsNumber y
  · rw [compare_parts h.1 h.2, Option.some_inj, compare_lt_iff_lt]
    exact ⟨fun hlt => ⟨h.1, h.2, hlt⟩, fun hlt => hlt.2.2⟩
  · rw [compare_eq_none h]
    exact ⟨nofun, fun hlt => absurd ⟨hlt.1, hlt.2.1⟩ h⟩

theorem isNumber_of_finite {x : Float} (h : x.isFinite = true) : IsNumber x := by
  intro hnone
  change (parts x).isFinite = true at h
  rw [hnone] at h
  cases h

theorem isNumber_of_isNaN {x : Float} (h : x.isNaN = false) : IsNumber x := by
  intro hnone
  change (parts x).isNaN = false at h
  rw [hnone] at h
  cases h

theorem isNaN_eq_false_iff {x : Float} : x.isNaN = false ↔ IsNumber x := by
  refine ⟨isNumber_of_isNaN, fun hx => ?_⟩
  change (parts x).isNaN = false
  unfold IsNumber at hx
  cases hparts : parts x <;> first | rfl | exact absurd hparts hx

theorem not_isNumber_iff {x : Float} : ¬IsNumber x ↔ x.isNaN = true := by
  rw [← isNaN_eq_false_iff, Bool.not_eq_false]

/-- There is one value that is no number. -/
theorem eq_of_not_isNumber {x y : Float} (hx : ¬IsNumber x) (hy : ¬IsNumber y) : x = y := by
  rw [not_isNumber_iff, Float.isNaN_eq_decide_eq_nan, decide_eq_true_iff] at hx hy
  exact hx.trans hy.symm

protected theorem le_refl {x : Float} (h : IsNumber x) : x ≤ x :=
  le_iff.mpr ⟨h, h, le_rfl⟩

protected theorem le_trans {x y z : Float} (hxy : x ≤ y) (hyz : y ≤ z) : x ≤ z := by
  rw [le_iff] at *
  exact ⟨hxy.1, hyz.2.1, hxy.2.2.trans hyz.2.2⟩

protected theorem lt_of_lt_of_le {x y z : Float} (hxy : x < y) (hyz : y ≤ z) : x < z := by
  rw [lt_iff] at *
  rw [le_iff] at hyz
  exact ⟨hxy.1, hyz.2.1, hxy.2.2.trans_le hyz.2.2⟩

protected theorem lt_of_le_of_lt {x y z : Float} (hxy : x ≤ y) (hyz : y < z) : x < z := by
  rw [lt_iff] at *
  rw [le_iff] at hxy
  exact ⟨hxy.1, hyz.2.1, hxy.2.2.trans_lt hyz.2.2⟩

protected theorem le_of_lt {x y : Float} (h : x < y) : x ≤ y := by
  rw [lt_iff] at h
  exact le_iff.mpr ⟨h.1, h.2.1, h.2.2.le⟩

protected theorem not_lt {x y : Float} (hx : IsNumber x) (hy : IsNumber y) : ¬x < y ↔ y ≤ x := by
  rw [lt_iff, le_iff]
  exact ⟨fun h => ⟨hy, hx, not_lt.mp fun hlt => h ⟨hx, hy, hlt⟩⟩, fun h hlt => h.2.2.not_gt hlt.2.2⟩

protected theorem not_le {x y : Float} (hx : IsNumber x) (hy : IsNumber y) : ¬x ≤ y ↔ y < x := by
  rw [← Binary64.not_lt hy hx, not_not]

protected theorem le_total {x y : Float} (hx : IsNumber x) (hy : IsNumber y) : x ≤ y ∨ y ≤ x := by
  rcases le_total (measure x) (measure y) with h | h
  · exact Or.inl (le_iff.mpr ⟨hx, hy, h⟩)
  · exact Or.inr (le_iff.mpr ⟨hy, hx, h⟩)

theorem beq_iff {x y : Float} :
    (x == y) = true ↔ IsNumber x ∧ IsNumber y ∧ measure x = measure y := by
  change (parts x).beq (parts y) = true ↔ _
  rw [UnpackedFloat.beq, beq_iff_eq]
  by_cases h : IsNumber x ∧ IsNumber y
  · rw [compare_parts h.1 h.2, Option.some_inj, compare_eq_iff_eq]
    exact ⟨fun heq => ⟨h.1, h.2, heq⟩, fun heq => heq.2.2⟩
  · rw [compare_eq_none h]
    exact ⟨nofun, fun heq => absurd ⟨heq.1, heq.2.1⟩ h⟩

/-! ## Infinity -/

theorem quanta_bounds {u : UnpackedFloat} (hu : IsProper u) :
    -(limit : ℤ) ≤ quanta u ∧ quanta u ≤ limit := by
  have hlimit := limit_pos
  cases u with
  | notANumber => exact ⟨by rw [quanta]; omega, by rw [quanta]; omega⟩
  | zero s => exact ⟨by rw [quanta]; omega, by rw [quanta]; omega⟩
  | infinity s => cases s <;> simp only [quanta, Sign.apply] <;> omega
  | finite s m e h =>
    have hsize := size_lt_limit hu.1 hu.2
    cases s <;> simp only [quanta, Sign.apply] <;> omega

/-- Only infinity has as many quanta as infinity. -/
theorem isFinite_iff {u : UnpackedFloat} (hu : IsProper u) (hnumber : u ≠ .notANumber) :
    u.isFinite = true ↔ -(limit : ℤ) < quanta u ∧ quanta u < limit := by
  have hlimit := limit_pos
  cases u with
  | notANumber => exact absurd rfl hnumber
  | zero s => exact ⟨fun _ => ⟨by rw [quanta]; omega, by rw [quanta]; omega⟩, fun _ => rfl⟩
  | infinity s =>
    refine ⟨fun hfinite => ?_, fun h => ?_⟩
    · cases hfinite
    · cases s <;> simp only [quanta, Sign.apply] at h <;> omega
  | finite s m e h =>
    have hsize := size_lt_limit hu.1 hu.2
    refine ⟨fun _ => ?_, fun _ => rfl⟩
    cases s <;> simp only [quanta, Sign.apply] <;> omega

theorem parts_of_infinite {z : Float} (hz : IsNumber z) (hinfinite : z.isFinite = false) :
    ∃ s, parts z = .infinity s := by
  change (parts z).isFinite = false at hinfinite
  rcases hparts : parts z with s | _ | s | _
  · exact ⟨s, rfl⟩
  · exact absurd hparts hz
  · rw [hparts] at hinfinite
    cases hinfinite
  · rw [hparts] at hinfinite
    cases hinfinite

/-- A number between finite numbers is finite. -/
theorem isFinite_of_between {x y z : Float} (hx : x.isFinite = true) (hz : z.isFinite = true)
    (hxy : x ≤ y) (hyz : y ≤ z) : y.isFinite = true := by
  obtain ⟨hx', hy, hxy⟩ := le_iff.mp hxy
  obtain ⟨-, hz', hyz⟩ := le_iff.mp hyz
  have hlow := ((isFinite_iff (isProper_parts x) hx').mp hx).1
  have hhigh := ((isFinite_iff (isProper_parts z) hz').mp hz).2
  exact (isFinite_iff (isProper_parts y) hy).mpr ⟨hlow.trans_le hxy, hyz.trans_lt hhigh⟩

/-! ## Zero -/

@[simp] theorem measure_zero : measure 0.0 = 0 :=
  rfl

theorem isNumber_zero : IsNumber 0.0 :=
  isNumber_of_finite (by decide)

theorem nonneg_iff {x : Float} : 0.0 ≤ x ↔ IsNumber x ∧ 0 ≤ measure x := by
  rw [le_iff, measure_zero]
  exact and_iff_right isNumber_zero

/-! ## Monotone operations -/

section Operation

variable {F : Float → Float} {f : UnpackedFloat → UnpackedFloat} {g : ℚ → ℚ}

/-- An operation that keeps infinity and whose exact results, on finite numbers, are those of a
function. -/
structure Computes (F : Float → Float) (f : UnpackedFloat → UnpackedFloat) (g : ℚ → ℚ) : Prop where
  parts_eq : ∀ x, parts (F x) = stored (f (parts x))
  infinity : ∀ s, f (.infinity s) = .infinity s
  finite : ∀ u, IsProper u → u.isFinite = true → HasQuanta (stored (f u)) (outcome (g (quanta u)))

/-- The result of an operation: infinity stays where it is. -/
theorem Computes.measure_eq (h : Computes F f g) {x : Float} (hx : IsNumber x) :
    IsNumber (F x) ∧
      (measure x = -limit ∧ measure (F x) = -limit ∨
        (-(limit : ℤ) < measure x ∧ measure x < limit ∧ measure (F x) = outcome (g (measure x))) ∨
        measure x = limit ∧ measure (F x) = limit) := by
  cases hfinite : x.isFinite with
  | true =>
    have hstored := h.finite _ (isProper_parts x) hfinite
    rw [← h.parts_eq x] at hstored
    obtain ⟨hlow, hhigh⟩ := (isFinite_iff (isProper_parts x) hx).mp hfinite
    exact ⟨hstored.1, Or.inr (Or.inl ⟨hlow, hhigh, hstored.2⟩)⟩
  | false =>
    obtain ⟨s, hs⟩ := parts_of_infinite hx hfinite
    have hstored := hasQuanta_stored_infinity s
    rw [← h.infinity s, ← hs, ← h.parts_eq x] at hstored
    have hbefore : measure x = s.apply limit := congrArg quanta hs
    have hafter : measure (F x) = s.apply limit := hstored.2
    cases s
    · exact ⟨hstored.1, Or.inl ⟨hbefore, hafter⟩⟩
    · exact ⟨hstored.1, Or.inr (Or.inr ⟨hbefore, hafter⟩)⟩

/-- **An operation is monotone if its exact results are.** -/
theorem Computes.mono (h : Computes F f g) (hg : Monotone g) {x y : Float} (hxy : x ≤ y) :
    F x ≤ F y := by
  obtain ⟨hx, hy, hle⟩ := le_iff.mp hxy
  obtain ⟨hFx, hcases⟩ := h.measure_eq hx
  obtain ⟨hFy, hcases'⟩ := h.measure_eq hy
  -- results of infinity are at the bounds of all results
  have hbounds : -(limit : ℤ) ≤ measure (F y) := (quanta_bounds (isProper_parts _)).1
  have hbounds' : measure (F x) ≤ limit := (quanta_bounds (isProper_parts _)).2
  have hlimit := limit_pos
  have hmono : outcome (g (measure x)) ≤ outcome (g (measure y)) :=
    outcome_mono (hg (Int.cast_le.mpr hle))
  refine le_iff.mpr ⟨hFx, hFy, ?_⟩
  omega

/-- An operation that keeps zero as well does not change a sign. -/
theorem Computes.nonneg (h : Computes F f g) (hg : Monotone g) (hzero : g 0 = 0) {x : Float}
    (hx : 0.0 ≤ x) : 0.0 ≤ F x := by
  obtain ⟨hnumber, hcases⟩ := h.measure_eq isNumber_zero
  rw [measure_zero, Int.cast_zero, hzero, outcome_zero] at hcases
  have hlimit := limit_pos
  have hkept : 0.0 ≤ F 0.0 := nonneg_iff.mpr ⟨hnumber, by omega⟩
  exact Binary64.le_trans hkept (h.mono hg hx)

end Operation

theorem computes_sub {z : Float} (hz : z.isFinite = true) :
    Computes (· - z) (sub Format.binary64 · (parts z)) (· - measure z) where
  parts_eq _ := rfl
  infinity s := by
    change (parts z).isFinite = true at hz
    cases hparts : parts z <;> rw [hparts] at hz <;> first | rfl | cases hz
  finite u hu hfinite := hasQuanta_sub hu (isProper_parts z) hfinite hz

theorem computes_add {z : Float} (hz : z.isFinite = true) :
    Computes (z + ·) (add Format.binary64 (parts z)) (measure z + ·) where
  parts_eq _ := rfl
  infinity s := by
    change (parts z).isFinite = true at hz
    cases hparts : parts z <;> rw [hparts] at hz <;> first | rfl | cases hz
  finite u hu hfinite := hasQuanta_add (isProper_parts z) hu hz hfinite

theorem parts_of_pos {z : Float} (hz : z.isFinite = true) (hpos : 0.0 < z) :
    ∃ m e h, parts z = .finite .positive m e h := by
  have hmeasure : 0 < quanta (parts z) := measure_zero ▸ (lt_iff.mp hpos).2.2
  change (parts z).isFinite = true at hz
  rcases hparts : parts z with s | _ | s | ⟨s, m, e, h⟩
  · rw [hparts] at hz
    cases hz
  · rw [hparts] at hz
    cases hz
  · rw [hparts] at hmeasure
    exact absurd hmeasure (lt_irrefl 0)
  · cases s with
    | positive => exact ⟨m, e, h, rfl⟩
    | negative =>
      rw [hparts] at hmeasure
      have hsize := size_pos h e
      simp only [quanta, Sign.apply] at hmeasure
      omega

theorem computes_mul {z : Float} (hz : z.isFinite = true) (hpos : 0.0 < z) :
    Computes (· * z) (mul Format.binary64 · (parts z)) (· * measure z / unity) where
  parts_eq _ := rfl
  infinity s := by
    obtain ⟨m, e, h, hparts⟩ := parts_of_pos hz hpos
    rw [hparts]
    cases s <;> rfl
  finite u hu hfinite := hasQuanta_mul hu (isProper_parts z) hfinite hz

theorem computes_div {z : Float} (hz : z.isFinite = true) (hpos : 0.0 < z) :
    Computes (· / z) (div Format.binary64 · (parts z)) (· / measure z * unity) where
  parts_eq _ := rfl
  infinity s := by
    obtain ⟨m, e, h, hparts⟩ := parts_of_pos hz hpos
    rw [hparts]
    cases s <;> rfl
  finite u hu hfinite := hasQuanta_div hu (isProper_parts z) hfinite hz
    (measure_zero ▸ (lt_iff.mp hpos).2.2).ne'

protected theorem sub_le_sub_right {x y z : Float} (hz : z.isFinite = true) (h : x ≤ y) :
    x - z ≤ y - z :=
  (computes_sub hz).mono (fun _ _ hle => by dsimp only; linarith) h

protected theorem add_le_add_left {x y z : Float} (hz : z.isFinite = true) (h : x ≤ y) :
    z + x ≤ z + y :=
  (computes_add hz).mono (fun _ _ hle => by dsimp only; linarith) h

theorem computes_add_right {z : Float} (hz : z.isFinite = true) :
    Computes (· + z) (add Format.binary64 · (parts z)) (· + measure z) where
  parts_eq _ := rfl
  infinity s := by
    change (parts z).isFinite = true at hz
    cases hparts : parts z <;> rw [hparts] at hz <;> first | rfl | cases hz
  finite u hu hfinite := hasQuanta_add hu (isProper_parts z) hfinite hz

protected theorem add_le_add_right {x y z : Float} (hz : z.isFinite = true) (h : x ≤ y) :
    x + z ≤ y + z :=
  (computes_add_right hz).mono (fun _ _ hle => by dsimp only; linarith) h

theorem monotone_mul {z : Float} (hpos : 0.0 < z) :
    Monotone fun q : ℚ => q * measure z / unity := by
  have hmeasure : (0 : ℚ) ≤ measure z := Int.cast_nonneg (nonneg_iff.mp (Binary64.le_of_lt hpos)).2
  have hunity := unity_pos.le
  intro a b hle
  dsimp only
  gcongr

theorem monotone_div {z : Float} (hpos : 0.0 < z) :
    Monotone fun q : ℚ => q / measure z * unity := by
  have hmeasure : (0 : ℚ) ≤ measure z := Int.cast_nonneg (nonneg_iff.mp (Binary64.le_of_lt hpos)).2
  have hunity := unity_pos.le
  intro a b hle
  dsimp only
  gcongr

theorem div_le_div_of_pos {x y z : Float} (hz : z.isFinite = true) (hpos : 0.0 < z) (h : x ≤ y) :
    x / z ≤ y / z :=
  (computes_div hz hpos).mono (monotone_div hpos) h

protected theorem div_nonneg {x z : Float} (hz : z.isFinite = true) (hpos : 0.0 < z)
    (hx : 0.0 ≤ x) :
    0.0 ≤ x / z :=
  (computes_div hz hpos).nonneg (monotone_div hpos) (by rw [zero_div, zero_mul]) hx

protected theorem mul_nonneg {x z : Float} (hz : z.isFinite = true) (hpos : 0.0 < z)
    (hx : 0.0 ≤ x) :
    0.0 ≤ x * z :=
  (computes_mul hz hpos).nonneg (monotone_mul hpos) (by rw [zero_mul, zero_div]) hx

/-- Adding zero changes nothing. -/
theorem le_add_zero {x : Float} (hx : x.isFinite = true) : x ≤ x + 0.0 := by
  have hsum := (computes_add hx).finite (parts 0.0) (isProper_parts 0.0) rfl
  have hzero : quanta (parts 0.0) = 0 := rfl
  rw [hzero, Int.cast_zero, add_zero] at hsum
  have hmeasure : measure (x + 0.0) = measure x :=
    hsum.2.trans (outcome_quanta (isProper_parts x) hx)
  exact le_iff.mpr ⟨isNumber_of_finite hx, hsum.1, hmeasure.ge⟩

theorem le_add_of_nonneg {x y : Float} (hx : x.isFinite = true) (hy : 0.0 ≤ y) : x ≤ x + y :=
  Binary64.le_trans (le_add_zero hx) (Binary64.add_le_add_left hx hy)

/-! ## Infinite operands, and what is no number -/

theorem isNumber_of_sub {x z : Float} (h : IsNumber (x - z)) : IsNumber z := by
  intro hz
  have hnone : sub Format.binary64 (parts x) (parts z) = .notANumber := by
    rw [hz]
    cases parts x <;> rfl
  exact h ((congrArg stored hnone).trans stored_notANumber)

theorem isNumber_of_add {x z : Float} (h : IsNumber (x + z)) : IsNumber z := by
  intro hz
  have hnone : add Format.binary64 (parts x) (parts z) = .notANumber := by
    rw [hz]
    cases parts x <;> rfl
  exact h ((congrArg stored hnone).trans stored_notANumber)

theorem isNumber_of_add_left {x z : Float} (h : IsNumber (x + z)) : IsNumber x := by
  intro hx
  have hnone : add Format.binary64 (parts x) (parts z) = .notANumber := by
    rw [hx]
    rfl
  exact h ((congrArg stored hnone).trans stored_notANumber)

/-- Zero times a number that is not finite is no number. -/
theorem not_isNumber_zero_mul {x z : Float} {s : Sign} (hx : parts x = .zero s)
    (hz : z.isFinite = false) : ¬IsNumber (x * z) := by
  have hnone : mul Format.binary64 (parts x) (parts z) = .notANumber := by
    change (parts z).isFinite = false at hz
    rw [hx]
    cases hparts : parts z <;> rw [hparts] at hz <;> first | rfl | cases hz
  exact fun h => h ((congrArg stored hnone).trans stored_notANumber)

/-- Zero times a finite number is zero. -/
theorem zero_mul_of_isFinite {x z : Float} {s : Sign} (hx : parts x = .zero s)
    (hz : z.isFinite = true) : (x * z).isFinite = true ∧ measure (x * z) = 0 := by
  obtain ⟨t, hproduct⟩ : ∃ t, mul Format.binary64 (parts x) (parts z) = .zero t := by
    change (parts z).isFinite = true at hz
    rw [hx]
    cases hparts : parts z <;> rw [hparts] at hz <;> first | exact ⟨_, rfl⟩ | cases hz
  have hstored := hasQuanta_stored_zero t
  rw [← hproduct] at hstored
  refine ⟨(isFinite_iff (isProper_parts (x * z)) hstored.1).mpr ?_, hstored.2⟩
  have hlimit := limit_pos
  have hquanta : quanta (parts (x * z)) = 0 := hstored.2
  omega

/-- Adding zero does not change the quanta of a number. -/
theorem measure_add_of_measure_eq_zero {x z : Float} (hx : IsNumber x) (hz : z.isFinite = true)
    (hzero : measure z = 0) : IsNumber (x + z) ∧ measure (x + z) = measure x := by
  obtain ⟨hnumber, hcases⟩ := (computes_add_right hz).measure_eq hx
  refine ⟨hnumber, ?_⟩
  rcases hcases with ⟨hlow, hsum⟩ | ⟨hlow, hhigh, hsum⟩ | ⟨hhigh, hsum⟩
  · rw [hsum, hlow]
  · have hfinite : x.isFinite = true := (isFinite_iff (isProper_parts x) hx).mpr ⟨hlow, hhigh⟩
    rw [hsum, hzero, Int.cast_zero, add_zero]
    exact outcome_quanta (isProper_parts x) hfinite
  · rw [hsum, hhigh]

theorem isNumber_of_div {x z : Float} (h : IsNumber (x / z)) : IsNumber x ∧ IsNumber z := by
  refine ⟨fun hx => ?_, fun hz => ?_⟩
  · have hnone : div Format.binary64 (parts x) (parts z) = .notANumber := by
      rw [hx]
      rfl
    exact h ((congrArg stored hnone).trans stored_notANumber)
  · have hnone : div Format.binary64 (parts x) (parts z) = .notANumber := by
      rw [hz]
      cases parts x <;> rfl
    exact h ((congrArg stored hnone).trans stored_notANumber)

theorem parts_of_nonneg {x : Float} (hx : 0.0 ≤ x) (hinfinite : x.isFinite = false) :
    parts x = .infinity .positive := by
  obtain ⟨hnumber, hnonneg⟩ := nonneg_iff.mp hx
  obtain ⟨s, hs⟩ := parts_of_infinite hnumber hinfinite
  cases s with
  | positive => exact hs
  | negative =>
    have hlimit := limit_pos
    have hmeasure : measure x = -(limit : ℤ) := by rw [measure, hs]; rfl
    omega

protected theorem add_nonneg {x y : Float} (hx : 0.0 ≤ x) (hy : 0.0 ≤ y) : 0.0 ≤ x + y := by
  cases hfinite : x.isFinite with
  | true => exact Binary64.le_trans hx (le_add_of_nonneg hfinite hy)
  | false =>
    have hsum : add Format.binary64 (parts x) (parts y) = .infinity .positive := by
      rw [parts_of_nonneg hx hfinite]
      cases hfinite' : y.isFinite with
      | false =>
        rw [parts_of_nonneg hy hfinite']
        rfl
      | true =>
        change (parts y).isFinite = true at hfinite'
        cases hparts : parts y <;> rw [hparts] at hfinite' <;> first | rfl | cases hfinite'
    have hstored := hasQuanta_stored_infinity .positive
    rw [← hsum] at hstored
    have hmeasure : measure (x + y) = limit := hstored.2
    exact nonneg_iff.mpr ⟨hstored.1, hmeasure ▸ Nat.cast_nonneg limit⟩

theorem isNumber_add_infinite {x y : Float} {s : Sign}
    (h : x.isFinite = true ∧ parts y = .infinity s ∨ parts x = .infinity s ∧ y.isFinite = true) :
    IsNumber (x + y) := by
  have hsum : add Format.binary64 (parts x) (parts y) = .infinity s := by
    rcases h with ⟨hx, hy⟩ | ⟨hx, hy⟩
    · change (parts x).isFinite = true at hx
      rw [hy]
      cases hparts : parts x <;> rw [hparts] at hx <;> first | rfl | cases hx
    · change (parts y).isFinite = true at hy
      rw [hx]
      cases hparts : parts y <;> rw [hparts] at hy <;> first | rfl | cases hy
  have hstored := hasQuanta_stored_infinity s
  rw [← hsum] at hstored
  exact hstored.1

/-- A sum is lost only if its operands are the two infinities. -/
theorem isNumber_add_iff {x y : Float} (hy : 0.0 ≤ y) :
    IsNumber (x + y) ↔
      IsNumber x ∧ (x.isFinite = true ∨ y.isFinite = true ∨ 0.0 ≤ x) := by
  have hlost (hnone : add Format.binary64 (parts x) (parts y) = .notANumber) : ¬IsNumber (x + y) :=
    fun h => h ((congrArg stored hnone).trans stored_notANumber)
  by_cases hx : IsNumber x
  swap
  · exact iff_of_false (mt isNumber_of_add_left hx) fun h => hx h.1
  rw [and_iff_right hx]
  cases hx_finite : x.isFinite with
  | true =>
    refine iff_of_true ?_ (.inl rfl)
    cases hy_finite : y.isFinite with
    | true => exact (hasQuanta_add (isProper_parts x) (isProper_parts y) hx_finite hy_finite).1
    | false => exact isNumber_add_infinite (.inl ⟨hx_finite, parts_of_nonneg hy hy_finite⟩)
  | false =>
    obtain ⟨s, hs⟩ := parts_of_infinite hx hx_finite
    cases hy_finite : y.isFinite with
    | true => exact iff_of_true (isNumber_add_infinite (.inr ⟨hs, hy_finite⟩)) (.inr (.inl rfl))
    | false =>
      cases s with
      | positive =>
        have hnonneg : 0.0 ≤ x := by
          refine nonneg_iff.mpr ⟨hx, ?_⟩
          rw [measure, hs]
          exact Nat.cast_nonneg limit
        exact iff_of_true (nonneg_iff.mp (Binary64.add_nonneg hnonneg hy)).1 (.inr (.inr hnonneg))
      | negative =>
        have hneg : ¬0.0 ≤ x := by
          intro h
          have hpositive := parts_of_nonneg h hx_finite
          rw [hs] at hpositive
          cases hpositive
        refine iff_of_false (hlost ?_) (by simpa using hneg)
        rw [hs, parts_of_nonneg hy hy_finite]
        rfl

/-- The difference of a finite number and infinity does not depend on the number. -/
theorem parts_sub_infinity {x z : Float} {s : Sign} (hx : x.isFinite = true)
    (hz : parts z = .infinity s) : parts (x - z) = .infinity (-s) := by
  have hsub : sub Format.binary64 (parts x) (parts z) = .infinity (-s) := by
    change (parts x).isFinite = true at hx
    rw [hz]
    cases hparts : parts x <;> rw [hparts] at hx <;> first | rfl | cases hx
  exact (congrArg stored hsub).trans (stored_infinity _)

/-- The distance from a point, which may be infinite, is monotone on finite numbers. -/
theorem sub_le_sub_of_finite {x y z : Float} (hx : x.isFinite = true) (hy : y.isFinite = true)
    (hz : IsNumber z) (h : x ≤ y) : x - z ≤ y - z := by
  cases hfinite : z.isFinite with
  | true => exact Binary64.sub_le_sub_right hfinite h
  | false =>
    obtain ⟨s, hs⟩ := parts_of_infinite hz hfinite
    have hsame : parts (x - z) = parts (y - z) :=
      (parts_sub_infinity hx hs).trans (parts_sub_infinity hy hs).symm
    have hnumber : IsNumber (x - z) := by
      rw [IsNumber, parts_sub_infinity hx hs]
      nofun
    exact le_iff.mpr ⟨hnumber, by rwa [IsNumber, ← hsame], (congrArg quanta hsame).le⟩

/-- A quotient by infinity is zero or no number. -/
theorem isFinite_of_one_le_div {x z : Float} (h : 1.0 ≤ x / z) : z.isFinite = true := by
  by_contra hinfinite
  obtain ⟨-, hnumber, hle⟩ := le_iff.mp h
  obtain ⟨s, hs⟩ := parts_of_infinite (isNumber_of_div hnumber).2 (Bool.eq_false_iff.mpr hinfinite)
  have hquotient : measure (x / z) = 0 := by
    change quanta (stored (div Format.binary64 (parts x) (parts z))) = 0
    rw [hs]
    cases parts x with
    | notANumber => exact congrArg quanta stored_notANumber
    | infinity s' => exact congrArg quanta stored_notANumber
    | zero s' => exact (hasQuanta_stored_zero _).2
    | finite s' m e h => exact (hasQuanta_stored_zero _).2
  have hone : (0.0 : Float) < 1.0 := by decide
  have hpos := (lt_iff.mp hone).2.2
  rw [measure_zero] at hpos
  omega

/-! ## Whole numbers -/

theorem nonneg_of_outcome {x : Float} {u : UnpackedFloat} {q : ℚ} (hparts : parts x = stored u)
    (hq : 0 ≤ q) (hu : HasQuanta (stored u) (outcome q)) : 0.0 ≤ x := by
  rw [← hparts] at hu
  have hmeasure : measure x = (min (rounded q) limit : ℕ) := hu.2.trans (outcome_of_nonneg hq)
  exact nonneg_iff.mpr ⟨hu.1, hmeasure ▸ Nat.cast_nonneg _⟩

theorem toFloat_nonneg (n : UInt64) : 0.0 ≤ n.toFloat :=
  nonneg_of_outcome rfl (by positivity) (hasQuanta_normalize n.toNat 0 .positive)

/-- The number that a whole number stands for is not negative. -/
theorem ofNat_nonneg (n : ℕ) : 0.0 ≤ Float.ofNat n := by
  change 0.0 ≤ Float.ofScientific n false 0
  unfold Float.ofScientific
  by_cases hsmall : n < 2 ^ 53 ∧ 0 ≤ 22
  · rw [dif_pos hsmall]
    change 0.0 ≤ n.toUInt64.toFloat * Float.ofBits 0x3FF0000000000000
    exact Binary64.mul_nonneg (by decide +kernel) (by decide +kernel) (toFloat_nonneg _)
  · rw [dif_neg hsmall]
    have hne : n ≠ 0 := by omega
    have hmodel : UnpackedFloat.ofScientific Format.binary64 n 0 =
        roundWithAccuracy Format.binary64 .positive ((n <<< 53) * 10 ^ 0) (-53 + 0) .exact := by
      have hbits : (2 : ℤ) ^ Format.binary64.exponentBits = 2048 := rfl
      rw [UnpackedFloat.ofScientific, dif_neg hne, hbits, if_neg (by decide), if_neg (by omega),
        if_pos le_rfl]
      rfl
    -- more digits than a number can keep are given first, so nothing is lost before rounding
    have hdigits : 52 ≤ ((n <<< 53) * 10 ^ 0).log2 := by
      rw [pow_zero, mul_one]
      exact (by omega : 52 ≤ n.log2 + 53).trans (log2_add_le hne 53)
    have hstored := hasQuanta_roundWithAccuracy .positive (e := -53 + 0) (Nat.cast_nonneg _)
      (place_exact ((n <<< 53) * 10 ^ 0)) (Or.inl hdigits)
    rw [← hmodel] at hstored
    have hmeasure : 0 ≤ quanta (stored (UnpackedFloat.ofScientific Format.binary64 n 0)) := by
      rw [hstored.2]
      exact Nat.cast_nonneg _
    exact nonneg_iff.mpr ⟨hstored.1, hmeasure⟩

end PlanPlayback.Binary64
