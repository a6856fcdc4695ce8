import Mathlib.Data.List.Forall2
import PlanPlayback.Proofs.Text.Scanning

/-!
# Words without regard to case

A word is passed over where each of its letters is matched (`wordChars?_eq_some_iff`), and no two
words are spelled alike (`Spells.inj`).

Letters are matched by letters and by two characters beyond ASCII that fold to them.  So what spells
a word is part of a word again, and has no digits in it (`isWordChar_of_matches`,
`isDigit_of_matches`).
-/

namespace PlanPlayback.Text

/-- A word is spelled by the characters that match its letters. -/
def Spells (word spelled : List Char) : Prop :=
  List.Forall₂ (fun w c => matchesIgnoringCase w c = true) word spelled

/-- A word is passed over where it is spelled. -/
theorem wordChars?_eq_some_iff {word text rest : List Char} :
    wordChars? word text = some rest ↔ ∃ spelled, text = spelled ++ rest ∧ Spells word spelled := by
  induction word generalizing text with
  | nil => simp [wordChars?, Spells]
  | cons w word ih =>
    cases text with
    | nil => simp [wordChars?, Spells]
    | cons c text =>
      rw [wordChars?]
      constructor
      · intro h
        split_ifs at h with hc
        obtain ⟨spelled, rfl, hspelled⟩ := ih.mp h
        exact ⟨c :: spelled, rfl, .cons hc hspelled⟩
      · rintro ⟨spelled, htext, hspelled⟩
        obtain _ | ⟨hc, hspelled⟩ := hspelled
        obtain ⟨rfl, rfl⟩ := List.cons.inj htext
        rw [if_pos hc]
        exact ih.mpr ⟨_, rfl, hspelled⟩

theorem matchesIgnoringCase_inj {v w c : Char} (hv : v.toNat < 0x80) (hw : w.toNat < 0x80)
    (hvc : matchesIgnoringCase v c = true) (hwc : matchesIgnoringCase w c = true) : v = w := by
  have hlong : ¬('ſ'.toLower).toNat < 0x80 := by decide
  have hkelvin : ¬('\u212A'.toLower).toNat < 0x80 := by decide
  simp only [matchesIgnoringCase, Bool.or_eq_true, beq_iff_eq, Bool.and_eq_true] at hvc hwc
  rcases hvc with (rfl | ⟨rfl, rfl⟩) | ⟨rfl, rfl⟩ <;>
    rcases hwc with (rfl | ⟨rfl, h⟩) | ⟨rfl, h⟩ <;> simp_all

/-- One text spells one word only. -/
theorem Spells.inj {first second spelled : List Char} (hfirst : ∀ w ∈ first, w.toNat < 0x80)
    (hsecond : ∀ w ∈ second, w.toNat < 0x80) (h : Spells first spelled)
    (h' : Spells second spelled) : first = second := by
  induction h generalizing second with
  | nil => exact (List.forall₂_nil_right_iff.mp h').symm
  | cons hc _ ih =>
    obtain _ | ⟨hc', h'⟩ := h'
    simp only [List.forall_mem_cons] at hfirst hsecond
    rw [matchesIgnoringCase_inj hfirst.1 hsecond.1 hc hc', ih hfirst.2 hsecond.2 h']

theorem Spells.forall_mem {word spelled : List Char} (h : Spells word spelled) {P : Char → Prop}
    (hP : ∀ w ∈ word, ∀ c, matchesIgnoringCase w c = true → P c) : ∀ c ∈ spelled, P c := by
  induction h with
  | nil => simp
  | cons hc _ ih =>
    simp only [List.forall_mem_cons] at hP ⊢
    exact ⟨hP.1 _ hc, ih hP.2⟩

theorem isWordChar_of_isDigit {c : Char} (h : isDigit c = true) : isWordChar c = true := by
  simp only [isDigit, isWordChar, Bool.or_eq_true, Bool.and_eq_true] at h ⊢
  rcases h with h | ⟨hlarge, hrange⟩
  · exact .inl (.inl (by simp [Char.isAlphanum, h]))
  · refine .inr ⟨hlarge, ?_⟩
    have hcovered : (decimalDigits.all fun range => wordCharacters.any fun wider =>
        Nat.ble wider.1 range.1 && Nat.ble range.2 wider.2) = true := by decide +kernel
    obtain ⟨range, hmem, hin⟩ := List.any_eq_true.mp hrange
    obtain ⟨wider, hwider, hcovers⟩ :=
      List.any_eq_true.mp (List.all_eq_true.mp hcovered range hmem)
    refine List.any_eq_true.mpr ⟨wider, hwider, ?_⟩
    simp only [Bool.and_eq_true, decide_eq_true_eq, Nat.ble_eq] at hin hcovers ⊢
    omega

theorem isAlpha_of_toLower {c : Char} (h : c.toLower.isAlpha = true) : c.isAlpha = true := by
  unfold Char.toLower at h
  split at h
  next hupper =>
    have hcase : c.isUpper = true := decide_eq_true hupper
    exact (Bool.or_eq_true c.isUpper c.isLower).mpr (.inl hcase)
  next => exact h

theorem toNat_lt_of_isAlpha {c : Char} (h : c.isAlpha = true) : c.toNat < 0x80 := by
  rcases (Bool.or_eq_true c.isUpper c.isLower).mp h with hupper | hlower
  · have hbound : c.val ≤ 'Z'.val := (of_decide_eq_true hupper).2
    exact Nat.lt_of_le_of_lt (UInt32.le_iff_toNat_le.mp hbound) (by decide)
  · have hbound : c.val ≤ 'z'.val := of_decide_eq_true ((Bool.and_eq_true _ _).mp hlower).2
    exact Nat.lt_of_le_of_lt (UInt32.le_iff_toNat_le.mp hbound) (by decide)

/-- What matches a letter is a letter, the long s or the Kelvin sign. -/
theorem isAlpha_of_matches {w c : Char} (hw : w.isAlpha = true)
    (h : matchesIgnoringCase w c = true) : c.isAlpha = true ∨ c = 'ſ' ∨ c = '\u212A' := by
  simp only [matchesIgnoringCase, Bool.or_eq_true, beq_iff_eq, Bool.and_eq_true] at h
  rcases h with (rfl | ⟨-, hlong⟩) | ⟨-, hkelvin⟩
  · exact .inl (isAlpha_of_toLower hw)
  · exact .inr (.inl hlong)
  · exact .inr (.inr hkelvin)

theorem isWordChar_of_matches {w c : Char} (hw : w.isAlpha = true)
    (h : matchesIgnoringCase w c = true) : isWordChar c = true := by
  rcases isAlpha_of_matches hw h with halpha | rfl | rfl
  · simp [isWordChar, Char.isAlphanum, halpha]
  · decide +kernel
  · decide +kernel

theorem isDigit_of_matches {w c : Char} (hw : w.isAlpha = true)
    (h : matchesIgnoringCase w c = true) : isDigit c = false := by
  rcases isAlpha_of_matches hw h with halpha | rfl | rfl
  · have hsmall : ¬0x80 ≤ c.toNat := Nat.not_le.mpr (toNat_lt_of_isAlpha halpha)
    have hdigit : c.isDigit = false := by
      by_contra hdigit
      have hnot : (!c.isAlpha) = true :=
        of_isDigit (P := fun d => !d.isAlpha) (by decide) (by simpa using hdigit)
      simp [halpha] at hnot
    simp [isDigit, hsmall, hdigit]
  · decide +kernel
  · decide +kernel

end PlanPlayback.Text
