import PlanPlayback.Proofs.Binary64.TotalOrder
import PlanPlayback.Proofs.Decimal.Shortest
import PlanPlayback.Proofs.Text.Scanning

/-!
# Printed numbers are read back

A number is printed as digits with at most one point, and a sign in front if it is negative.  Texts
of this form are found by the scanners and read without loss, so that every finite number is read
back from its own text.

* `PlainNumeral` is a text of digits with at most one point;
* `exists_positional_eq` is the form of printed numbers;
* `float?_positional` is the way back;
* `floatOf?_positional` goes the same way with infinity, and with what is no number.
-/

namespace PlanPlayback.Decimal

open Float.Model Binary64 Text

/-- Digits, and behind a point further digits, if there are any. -/
structure PlainNumeral where
  whole : List Char
  fraction : List Char
  whole_ne_nil : whole ≠ []
  isDigit_of_mem_whole : ∀ c ∈ whole, c.isDigit = true
  isDigit_of_mem_fraction : ∀ c ∈ fraction, c.isDigit = true

namespace PlainNumeral

def text (p : PlainNumeral) : List Char :=
  p.whole ++ if p.fraction.isEmpty then [] else '.' :: p.fraction

/-- What the digits say. -/
def numeral (p : PlainNumeral) : Numeral :=
  ⟨valueOfDigits (valueOfDigits 0 p.whole) p.fraction, 0 - p.fraction.length⟩

theorem exists_text_eq_cons (p : PlainNumeral) :
    ∃ c rest, p.text = c :: rest ∧ c.isDigit = true := by
  obtain ⟨c, rest, hwhole⟩ := List.exists_cons_of_ne_nil p.whole_ne_nil
  refine ⟨c, rest ++ if p.fraction.isEmpty then [] else '.' :: p.fraction, ?_, ?_⟩
  · rw [text, hwhole]
    rfl
  · exact p.isDigit_of_mem_whole c (by simp [hwhole])

theorem of_mem_text {p : PlainNumeral} {c : Char} (hc : c ∈ p.text) :
    c.isDigit = true ∨ c = '.' := by
  rw [text, List.mem_append] at hc
  rcases hc with hc | hc
  · exact .inl (p.isDigit_of_mem_whole c hc)
  · split_ifs at hc
    · simp at hc
    · rcases List.mem_cons.mp hc with rfl | hc
      · exact .inr rfl
      · exact .inl (p.isDigit_of_mem_fraction c hc)

/-- What holds of ten digits and of the point holds of every character. -/
theorem forall_mem_text {P : Char → Bool}
    (h : ['.', '0', '1', '2', '3', '4', '5', '6', '7', '8', '9'].all P = true) (p : PlainNumeral) :
    ∀ c ∈ p.text, P c = true := by
  rw [List.all_cons, Bool.and_eq_true] at h
  intro c hc
  rcases of_mem_text hc with hc | rfl
  · exact of_isDigit h.2 hc
  · exact h.1

/-- The digits are found in a text whatever is behind them. -/
theorem numeral?_text_append (p : PlainNumeral) {rest : List Char}
    (hrest : ∀ c ∈ rest.head?, isDigit c = false ∧ c ≠ '.') :
    Text.numeral? (p.text ++ rest) = some (p.text, rest) := by
  have hdelimited : ∀ c ∈ rest.head?, isDigit c = false := fun c hc => (hrest c hc).1
  unfold text Text.numeral?
  split_ifs with hfraction
  · rw [List.append_nil, digits?_append p.whole_ne_nil p.isDigit_of_mem_whole hdelimited]
    cases rest with
    | nil => rfl
    | cons c rest =>
      have hdot : c ≠ '.' := (hrest c rfl).2
      simp only [Option.map_some]
      split
      · next heq => exact absurd (List.cons.inj heq).1 hdot
      · rfl
  · have hdot : ∀ c ∈ ('.' :: (p.fraction ++ rest)).head?, isDigit c = false := by
      rintro c ⟨⟩
      decide
    have hne : p.fraction ≠ [] := by simpa using hfraction
    rw [List.append_assoc, List.cons_append,
      digits?_append p.whole_ne_nil p.isDigit_of_mem_whole hdot]
    simp [digits?_append hne p.isDigit_of_mem_fraction hdelimited]

/-! ## Reading digits -/

theorem numeral?_text (p : PlainNumeral) : Decimal.numeral? p.text = some p.numeral := by
  have hdot : ∀ c ∈ ('.' :: p.fraction).head?, c.isDigit = false := by
    rintro c ⟨⟩
    rfl
  have hne : p.whole.isEmpty = false := List.isEmpty_eq_false_iff.mpr p.whole_ne_nil
  unfold Decimal.numeral? text numeral
  split_ifs with hfraction
  · rw [List.isEmpty_iff] at hfraction
    rw [List.append_nil, takeWhile_eq_self p.isDigit_of_mem_whole,
      dropWhile_eq_nil p.isDigit_of_mem_whole]
    simp [hfraction, hne, exponent?]
  · rw [takeWhile_append_eq p.isDigit_of_mem_whole hdot,
      dropWhile_append_eq p.isDigit_of_mem_whole hdot]
    simp [takeWhile_eq_self p.isDigit_of_mem_fraction, dropWhile_eq_nil p.isDigit_of_mem_fraction,
      hne, exponent?]

theorem magnitude?_text (p : PlainNumeral) : magnitude? p.text = some p.numeral.toFloat := by
  obtain ⟨c, rest, htext, hc⟩ := p.exists_text_eq_cons
  have hi : (c.toLower == 'i') = false := by
    simpa using of_isDigit (P := fun d => d.toLower != 'i') (by decide) hc
  have hn : (c.toLower == 'n') = false := by
    simpa using of_isDigit (P := fun d => d.toLower != 'n') (by decide) hc
  unfold magnitude?
  rw [numeral?_text, htext]
  simp only [List.map_cons, List.cons_beq_cons, hi, hn, Bool.false_and, Bool.or_self,
    Bool.false_eq_true, if_false, Option.map_some]

/-- A sign is read before the digits. -/
theorem float?_signText_append (negative : Bool) (p : PlainNumeral) :
    float? (signText negative ++ p.text) =
      some (if negative then -p.numeral.toFloat else p.numeral.toFloat) := by
  cases negative with
  | true =>
    change (magnitude? p.text).map (- ·) = _
    rw [magnitude?_text]
    rfl
  | false =>
    obtain ⟨c, rest, htext, hc⟩ := p.exists_text_eq_cons
    have hread : float? p.text = magnitude? p.text := by
      rw [htext]
      unfold float?
      split
      · next heq => exact absurd ((List.cons.inj heq).1 ▸ hc) (by decide)
      · next heq => exact absurd ((List.cons.inj heq).1 ▸ hc) (by decide)
      · rfl
    exact hread.trans (magnitude?_text p)

end PlainNumeral

/-! ## Digits of numbers -/

theorem valueOfDigits_append (start : ℕ) (front back : List Char) :
    valueOfDigits start (front ++ back) = valueOfDigits (valueOfDigits start front) back :=
  List.foldl_append

theorem valueOfDigits_zeros (start n : ℕ) :
    valueOfDigits start (List.replicate n '0') = start * 10 ^ n := by
  induction n generalizing start with
  | zero => simp [valueOfDigits]
  | succ n ih =>
    have hstep : valueOfDigits start (List.replicate (n + 1) '0') =
        valueOfDigits (10 * start) (List.replicate n '0') := rfl
    rw [hstep, ih]
    ring

theorem valueOfDigits_digits (d : Scaled) : valueOfDigits 0 d.digits = d.coefficient :=
  Nat.ofDigitChars_ten_toDigits

theorem isDigit_of_mem_digits {d : Scaled} {c : Char} (hc : c ∈ d.digits) : c.isDigit = true :=
  Nat.isDigit_of_mem_toDigits (by decide) (by decide) hc

theorem isDigit_of_mem_zeros {n : ℕ} {c : Char} (hc : c ∈ List.replicate n '0') :
    c.isDigit = true := by
  rw [List.eq_of_mem_replicate hc]
  rfl

/-- A decimal without an exponent is digits with at most one point. -/
theorem exists_plainNumeral (d : Scaled) :
    ∃ p : PlainNumeral, p.text = d.plain ∧ p.numeral.value = d.value := by
  have hdigits : d.digits ≠ [] := Nat.toDigits_ne_nil
  by_cases hexponent : 0 ≤ d.exponent
  -- the zeros of a whole number are written out
  · obtain ⟨n, hn⟩ := Int.eq_ofNat_of_zero_le hexponent
    refine ⟨⟨d.digits ++ List.replicate n '0', [], by simp [hdigits], ?_, by simp⟩, ?_, ?_⟩
    · intro c hc
      exact (List.mem_append.mp hc).elim isDigit_of_mem_digits isDigit_of_mem_zeros
    · simp [PlainNumeral.text, Scaled.plain, hn]
    · rw [Numeral.value, Scaled.value, PlainNumeral.numeral, valueOfDigits_append,
        valueOfDigits_digits, valueOfDigits_zeros, hn]
      simp [valueOfDigits]
  · obtain ⟨places, hplaces⟩ : ∃ places : ℕ, d.exponent = -places := ⟨(-d.exponent).toNat, by omega⟩
    have hpos : 0 < places := by omega
    have hvalue (c : ℕ) : Numeral.value ⟨c, 0 - places⟩ = c * 10 ^ d.exponent := by
      rw [Numeral.value, hplaces, zero_sub]
    have hplaces' : (-d.exponent).toNat = places := by omega
    by_cases hpoint : places < d.digits.length
    · refine ⟨⟨d.digits.take (d.digits.length - places), d.digits.drop (d.digits.length - places),
        ?_, fun c hc => isDigit_of_mem_digits (List.mem_of_mem_take hc),
        fun c hc => isDigit_of_mem_digits (List.mem_of_mem_drop hc)⟩, ?_, ?_⟩
      · rw [Ne, List.take_eq_nil_iff, not_or]
        exact ⟨by omega, hdigits⟩
      · have hbehind : d.digits.drop (d.digits.length - places) ≠ [] := by
          rw [Ne, List.drop_eq_nil_iff]
          omega
        simp [PlainNumeral.text, Scaled.plain, hexponent, hplaces', hpoint, hbehind]
      · rw [PlainNumeral.numeral, ← valueOfDigits_append, List.take_append_drop,
          valueOfDigits_digits, List.length_drop, Nat.sub_sub_self hpoint.le]
        exact hvalue _
    -- the zeros between the point and the digits are written out
    · refine ⟨⟨['0'], List.replicate (places - d.digits.length) '0' ++ d.digits, by simp, by simp,
        ?_⟩, ?_, ?_⟩
      · intro c hc
        exact (List.mem_append.mp hc).elim isDigit_of_mem_zeros isDigit_of_mem_digits
      · simp [PlainNumeral.text, Scaled.plain, hexponent, hplaces', hpoint, hdigits]
      · have hzero : valueOfDigits 0 ['0'] = 0 := rfl
        rw [PlainNumeral.numeral, valueOfDigits_append, hzero, valueOfDigits_zeros, zero_mul,
          valueOfDigits_digits, List.length_append, List.length_replicate,
          Nat.sub_add_cancel (not_lt.mp hpoint)]
        exact hvalue _

/-! ## Printed numbers -/

/-- The form of printed numbers. -/
theorem exists_positional_eq {x : Float} (hx : x.isFinite = true) :
    ∃ p : PlainNumeral, (positional x).toList = signText (isMinus (signOf x)) ++ p.text ∧
      p.numeral.value = (shortest .up (mantissa x) (exponent x)).value := by
  obtain ⟨p, htext, hvalue⟩ := exists_plainNumeral (shortest .up (mantissa x) (exponent x))
  refine ⟨p, ?_, hvalue⟩
  rw [positional, decode_of_isFinite hx, htext]
  exact String.toList_ofList

/-- The texts of numbers without a minus sign. -/
theorem exists_positional_eq_text {x : Float} (hx : x.isFinite = true)
    (hsign : signOf x = .positive) : ∃ p : PlainNumeral, (positional x).toList = p.text := by
  obtain ⟨p, htext, -⟩ := exists_positional_eq hx
  refine ⟨p, ?_⟩
  rw [htext, hsign]
  rfl

theorem signedNumeral?_positional_append {x : Float} (hx : x.isFinite = true) {rest : List Char}
    (hrest : ∀ c ∈ rest.head?, isDigit c = false ∧ c ≠ '.') :
    signedNumeral? ((positional x).toList ++ rest) = some ((positional x).toList, rest) := by
  obtain ⟨p, htext, -⟩ := exists_positional_eq hx
  have hnumeral := p.numeral?_text_append hrest
  rw [htext]
  cases isMinus (signOf x) with
  | true => simp [signText, signedNumeral?, hnumeral]
  | false =>
    obtain ⟨c, text, hcons, hc⟩ := p.exists_text_eq_cons
    have hminus : c ≠ '-' := by
      rintro rfl
      exact absurd hc (by decide)
    rw [signText, if_neg Bool.false_ne_true, List.nil_append, ← hnumeral, hcons]
    unfold signedNumeral?
    split
    · next heq => exact absurd (List.cons.inj heq).1 hminus
    · rfl

theorem toFloat_of_value_eq_zero {n : Numeral} (h : n.value = 0) : n.toFloat = 0.0 := by
  have hcoefficient : n.coefficient = 0 := by
    have hten : (10 : ℚ) ^ n.exponent ≠ 0 := by positivity
    exact_mod_cast (mul_eq_zero.mp h).resolve_right hten
  rw [Numeral.toFloat, if_pos hcoefficient]

/-- **Printing loses nothing.**  A finite number is read back from its own text. -/
theorem float?_positional {x : Float} (hx : x.isFinite = true) :
    float? (positional x).toList = some x := by
  obtain ⟨p, htext, hvalue⟩ := exists_positional_eq hx
  have hfield := field_lt_of_isFinite hx
  have hnumber := isNumber_of_finite hx
  rw [htext, PlainNumeral.float?_signText_append, Option.some_inj]
  by_cases hzero : mantissa x = 0
  · have hread : p.numeral.toFloat = 0.0 := by
      refine toFloat_of_value_eq_zero (hvalue.trans ?_)
      rw [hzero]
      exact zero_mul _
    rw [hread]
    apply parts_inj
    rw [parts_of_mantissa_eq_zero hx hzero]
    cases signOf x <;> rfl
  · have hcanonical := isCanonical_mantissa x
    have hpos : 0 < size (mantissa x) (exponent x) := size_pos (Nat.pos_of_ne_zero hzero) _
    have hlimit : size (mantissa x) (exponent x) < limit := by
      refine size_lt_limit hcanonical ?_
      unfold exponent
      split_ifs <;> omega
    have hmeasure : measure x = (signOf x).apply (size (mantissa x) (exponent x)) := by
      rw [measure_eq_apply hnumber, height, if_pos hfield]
    -- what is read without the sign has the same digits
    have hread : IsNumber p.numeral.toFloat := (hasQuanta_toFloat p.numeral).1
    have hquanta : Binary64.measure p.numeral.toFloat = size (mantissa x) (exponent x) := by
      have hnonneg : 0 ≤ p.numeral.value * unity :=
        mul_nonneg p.numeral.value_nonneg unity_pos.le
      have hrounded := (roundsTo_shortest .up (Nat.pos_of_ne_zero hzero) hcanonical).rounded_eq
        (Nat.pos_of_ne_zero hzero) hcanonical
      rw [← hvalue] at hrounded
      refine (hasQuanta_toFloat p.numeral).2.trans ?_
      rw [outcome_of_nonneg hnonneg, hrounded, min_eq_left hlimit.le]
    generalize p.numeral.toFloat = y at *
    symm
    cases hsign : signOf x with
    | positive =>
      rw [hsign] at hmeasure
      refine eq_of_measure_eq hnumber hread ?_ (hmeasure.trans hquanta.symm)
      rw [hmeasure]
      exact Int.natCast_ne_zero.mpr hpos.ne'
    | negative =>
      rw [hsign] at hmeasure
      refine eq_of_measure_eq hnumber (isNumber_neg hread) ?_ ?_
      · rw [hmeasure]
        exact neg_ne_zero.mpr (Int.natCast_ne_zero.mpr hpos.ne')
      · rw [hmeasure, ← hquanta]
        exact (measure_neg hread).symm

/-! ## What is not finite -/

/-- The words that are printed for what is not finite. -/
inductive PrintedAs (x : Float) : String → Prop where
  | notANumber (h : x = 0.0 / 0.0) : PrintedAs x "NaN"
  | infinity (h : x = 1.0 / 0.0) : PrintedAs x "inf"
  | negativeInfinity (h : x = -(1.0 / 0.0)) : PrintedAs x "-inf"

theorem printedAs_positional {x : Float} (hx : x.isFinite = false) : PrintedAs x (positional x) := by
  rw [positional, decode_eq]
  by_cases hnumber : IsNumber x
  · obtain ⟨s, hs⟩ := parts_of_infinite hnumber hx
    rw [hs]
    cases s with
    | positive => exact .infinity (parts_inj hs)
    | negative => exact .negativeInfinity (parts_inj hs)
  · have hnone : parts x = .notANumber := not_not.mp hnumber
    rw [hnone]
    exact .notANumber (eq_of_not_isNumber hnumber (not_not.mpr rfl))

/-- Every number is read back from its own text, and so is what is no number. -/
theorem floatOf?_positional (x : Float) : floatOf? (positional x) = some x := by
  by_cases hx : x.isFinite = true
  · exact float?_positional hx
  · have hprinted := printedAs_positional (Bool.eq_false_iff.mpr hx)
    generalize positional x = text at hprinted
    cases hprinted with
    | notANumber h => rw [h]; rfl
    | infinity h => rw [h]; rfl
    | negativeInfinity h => rw [h]; rfl

end PlanPlayback.Decimal
