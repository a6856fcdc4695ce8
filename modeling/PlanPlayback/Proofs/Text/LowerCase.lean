import PlanPlayback.Proofs.Text.Words

/-!
# Lower case, token by token

A call may be mapped to lower case as a whole or token by token, and both come to the same.  There
are two things to see.  What separates tokens stays where it is: no character but itself has a blank,
a parenthesis, a colon or a semicolon as its image (`mem_of_mem_lowercaseAfter`).  And a capital
sigma, the only character that looks at its neighbours, does not look over the end of a token,
because what stands there neither carries case nor is looked through (`IsBorder`).

Lower case does nothing to its own images (`isSmall_of_mem_lowercaseAfter`), because the images of the
capitals are no capitals: the runs of the table are apart from each other's images, or a run and the
images of a run alternate.
-/

namespace PlanPlayback.Text

open Token (IsWord isPlain isPlain_iff)

/-! ## What separates tokens -/

/-- Whether a character separates tokens, a time from what follows it, or a comment from what is in
front of it. -/
def isMark (c : Char) : Bool :=
  !isPlain c || c == ':' || c == ';'

/-- Where marks are to be found. -/
def markRanges : List (ℕ × ℕ) :=
  [(9, 0x3B), (0x85, 0x85), (0xA0, 0xA0), (0x1680, 0x1680), (0x2000, 0x200A), (0x2028, 0x2029),
    (0x202F, 0x202F), (0x205F, 0x205F), (0x3000, 0x3000)]

theorem inRanges_of_isMark {c : Char} (hc : isMark c = true) :
    inRanges markRanges c.toNat = true := by
  rw [isMark, Bool.or_eq_true, Bool.or_eq_true, isPlain, Bool.not_not, Bool.or_eq_true,
    Bool.or_eq_true, beq_iff_eq, beq_iff_eq, decide_eq_true_eq, decide_eq_true_eq] at hc
  rcases hc with (((hblank | rfl) | rfl) | rfl) | rfl
  · simp only [isBlank, Bool.or_eq_true, Bool.and_eq_true, decide_eq_true_eq, beq_iff_eq] at hblank
    simp only [inRanges, markRanges, List.any_cons, List.any_nil, Bool.or_eq_true,
      Bool.and_eq_true, decide_eq_true_eq]
    omega
  · decide
  · decide
  · decide
  · decide

/-- No image of a run of capitals is a mark. -/
theorem inRanges_image {run : ℕ × ℕ × ℕ × ℤ} (hrun : run ∈ capitalRuns) {n : ℕ}
    (hlow : run.1 ≤ n) (hhigh : n ≤ run.2.1) :
    inRanges markRanges (n + run.2.2.2).toNat = false := by
  have hall : (capitalRuns.all fun run => markRanges.all fun range =>
      0 < range.1 && (range.2 < run.1 + run.2.2.2 || run.2.1 + run.2.2.2 < range.1)) = true := by
    decide +kernel
  simp only [inRanges, List.any_eq_false]
  intro range hrange
  have hapart := List.all_eq_true.mp (List.all_eq_true.mp hall run hrun) range hrange
  simp only [Bool.or_eq_true, Bool.and_eq_true, decide_eq_true_eq] at hapart ⊢
  omega

theorem toLower_eq_of_isMark {c : Char} (hascii : c.toNat < 0x80)
    (hc : isMark c = true ∨ isMark c.toLower = true) : c.toLower = c := by
  have hall : ∀ n < 0x80, isMark (Char.ofNat n) = true ∨ isMark (Char.ofNat n).toLower = true →
      (Char.ofNat n).toLower = Char.ofNat n := by decide +kernel
  have hcode := hall c.toNat hascii
  rw [Char.ofNat_toNat] at hcode
  exact hcode hc

theorem toNat_ofNat_eq_or (n : ℕ) : (Char.ofNat n).toNat = n ∨ (Char.ofNat n).toNat = 0 := by
  by_cases hvalid : n.isValidChar
  · rw [Char.ofNat, dif_pos hvalid]
    exact .inl rfl
  · rw [Char.ofNat, dif_neg hvalid]
    exact .inr rfl

theorem eq_of_mem_lowerChar {c d : Char} (hd : d ∈ lowerChar c) (hmark : isMark d = true) :
    d = c := by
  unfold lowerChar at hd
  split_ifs at hd with hascii hdotted
  · obtain rfl := List.mem_singleton.mp hd
    exact toLower_eq_of_isMark hascii (.inr hmark)
  · simp only [List.mem_cons, List.not_mem_nil, or_false] at hd
    rcases hd with rfl | rfl <;> exact absurd hmark (by decide)
  · split at hd
    case h_1 run hfind =>
      have hrun : run ∈ capitalRuns := List.mem_of_find?_eq_some hfind
      have hfits := List.find?_some hfind
      simp only [Bool.and_eq_true, decide_eq_true_eq] at hfits
      have himage := inRanges_image hrun hfits.1.1 hfits.1.2
      have hcode := inRanges_of_isMark hmark
      rw [List.mem_singleton.mp hd] at hcode
      rcases toNat_ofNat_eq_or (c.toNat + run.2.2.2).toNat with h | h
      · rw [h, himage] at hcode
        cases hcode
      · rw [h] at hcode
        exact absurd hcode (by decide)
    case h_2 => exact List.mem_singleton.mp hd

theorem eq_of_mem_imageOf {before after : List Char} {c d : Char} (hd : d ∈ imageOf before c after)
    (hmark : isMark d = true) : d = c := by
  unfold imageOf at hd
  split_ifs at hd with hsigma hend
  · exact absurd (List.mem_singleton.mp hd ▸ hmark) (by decide)
  · exact absurd (List.mem_singleton.mp hd ▸ hmark) (by decide)
  · exact eq_of_mem_lowerChar hd hmark

/-- A mark is its own image. -/
theorem isSmall_of_isMark {c : Char} (hc : isMark c = true) : IsSmall c := by
  have hcapital : ∀ run ∈ capitalRuns, ¬(run.1 ≤ c.toNat ∧ c.toNat ≤ run.2.1) := by
    have hall : (capitalRuns.all fun run => markRanges.all fun range =>
        range.2 < run.1 || run.2.1 < range.1) = true := by decide +kernel
    obtain ⟨range, hrange, hcode⟩ := List.any_eq_true.mp (inRanges_of_isMark hc)
    intro run hrun
    have hapart := List.all_eq_true.mp (List.all_eq_true.mp hall run hrun) range hrange
    simp only [Bool.or_eq_true, Bool.and_eq_true, decide_eq_true_eq] at hapart hcode
    omega
  constructor
  · rintro rfl
    exact absurd hc (by decide)
  · unfold lowerChar
    split_ifs with hascii hdotted
    · rw [toLower_eq_of_isMark hascii (.inl hc)]
    · rw [beq_iff_eq] at hdotted
      exact absurd (hdotted ▸ hc) (by decide)
    · split
      case h_1 run hfind =>
        have hfits := List.find?_some hfind
        simp only [Bool.and_eq_true, decide_eq_true_eq] at hfits
        exact absurd hfits.1 (hcapital run (List.mem_of_find?_eq_some hfind))
      case h_2 => rfl

theorem lowercaseAfter_append_of_isSmall {front : List Char} (hfront : ∀ c ∈ front, IsSmall c)
    (before rest : List Char) :
    ∃ before', lowercaseAfter before (front ++ rest) = front ++ lowercaseAfter before' rest := by
  induction front generalizing before with
  | nil => exact ⟨before, rfl⟩
  | cons c front ih =>
    obtain ⟨before', hrest⟩ := ih (fun d hd => hfront d (List.mem_cons_of_mem _ hd)) (c :: before)
    have himage : imageOf before c (front ++ rest) = [c] :=
      (imageOf_eq_iff _ _ _).mpr (hfront c (by simp))
    refine ⟨before', ?_⟩
    rw [List.cons_append, lowercaseAfter_cons, himage, hrest]
    rfl

/-- The marks of an image are marks of the text. -/
theorem mem_of_mem_lowercaseAfter {before text : List Char} {d : Char}
    (hd : d ∈ lowercaseAfter before text) (hmark : isMark d = true) : d ∈ text := by
  induction text generalizing before with
  | nil => cases hd
  | cons c rest ih =>
    rw [lowercaseAfter_cons, List.mem_append] at hd
    rcases hd with hd | hd
    · exact List.mem_cons.mpr (.inl (eq_of_mem_imageOf hd hmark))
    · exact List.mem_cons_of_mem _ (ih hd)

theorem isWord_lowercase {token : List Char} (h : IsWord token) : IsWord (lowercase token) := by
  refine ⟨fun hnil => h.1 ?_, fun d hd => ?_⟩
  · have hlength := length_le_length_lowercaseAfter [] token
    rw [← lowercase, hnil] at hlength
    exact List.length_eq_zero_iff.mp (by simpa using hlength)
  · cases hplain : isPlain d with
    | true => rfl
    | false =>
      have hmark : isMark d = true := by simp [isMark, hplain]
      rw [← hplain]
      exact h.2 d (mem_of_mem_lowercaseAfter hd hmark)

/-! ## What a sigma does not look over -/

/-- A character that carries no case and is not looked through. -/
def IsBorder (c : Char) : Prop :=
  isCased c = false ∧ isCaseIgnorable c = false

instance (c : Char) : Decidable (IsBorder c) :=
  inferInstanceAs (Decidable (_ ∧ _))

theorem meetsCased_append_cons {border : Char} (hborder : IsBorder border)
    (text rest : List Char) : meetsCased (text ++ border :: rest) = meetsCased text := by
  induction text with
  | nil => simp [meetsCased, hborder.1, hborder.2]
  | cons c text ih =>
    cases hc : isCaseIgnorable c
    · simp [meetsCased, hc]
    · simpa [meetsCased, hc] using ih

theorem imageOf_append_cons {border : Char} (hborder : IsBorder border)
    (before after front rest : List Char) (c : Char) :
    imageOf (before ++ border :: front) c after = imageOf before c after ∧
      imageOf before c (after ++ border :: rest) = imageOf before c after := by
  constructor <;> simp [imageOf, endsWord, meetsCased_append_cons hborder]

theorem lowercaseAfter_append_cons {border : Char} (hborder : IsBorder border)
    (before front text : List Char) :
    lowercaseAfter (before ++ border :: front) text = lowercaseAfter before text := by
  induction text generalizing before with
  | nil => rfl
  | cons c rest ih =>
    rw [lowercaseAfter_cons, lowercaseAfter_cons, (imageOf_append_cons hborder _ _ _ [] c).1,
      ← List.cons_append, ih]

/-- What follows a border is mapped by itself. -/
theorem lowercaseAfter_cons_border {border : Char} (hborder : IsBorder border)
    (hsmall : IsSmall border) (before rest : List Char) :
    lowercaseAfter before (border :: rest) = border :: lowercase rest := by
  have himage : imageOf before border rest = [border] := (imageOf_eq_iff _ _ _).mpr hsmall
  have hrest : lowercaseAfter (border :: before) rest = lowercase rest :=
    lowercaseAfter_append_cons hborder [] before rest
  rw [lowercaseAfter_cons, himage, hrest]
  rfl

/-- A border stands between two texts that are mapped by themselves. -/
theorem lowercase_append_cons {border : Char} (hborder : IsBorder border) (hsmall : IsSmall border)
    (text rest : List Char) :
    lowercase (text ++ border :: rest) = lowercase text ++ border :: lowercase rest := by
  suffices h : ∀ before, lowercaseAfter before (text ++ border :: rest) =
      lowercaseAfter before text ++ border :: lowercase rest from h []
  intro before
  induction text generalizing before with
  | nil => exact lowercaseAfter_cons_border hborder hsmall before rest
  | cons c text ih =>
    rw [List.cons_append, lowercaseAfter_cons, lowercaseAfter_cons,
      (imageOf_append_cons hborder _ _ [] _ c).2, ih, List.append_assoc]

/-- What separates the tokens of a call, ends a line, or begins a comment. -/
def borders : List Char :=
  ['(', ' ', ')', '\n', '\r', ';']

theorem isBorder_of_mem {c : Char} (hc : c ∈ borders) : IsBorder c ∧ IsSmall c := by
  have hall : (borders.all fun c => decide (IsBorder c ∧ IsSmall c)) = true := by
    decide +kernel
  exact of_decide_eq_true (List.all_eq_true.mp hall c hc)

theorem lowercase_append_of_mem {c : Char} (hc : c ∈ borders) (text rest : List Char) :
    lowercase (text ++ c :: rest) = lowercase text ++ c :: lowercase rest :=
  lowercase_append_cons (isBorder_of_mem hc).1 (isBorder_of_mem hc).2 text rest

theorem lowercase_spaced (tokens : List (List Char)) :
    lowercase (spaced tokens) = spaced (tokens.map lowercase) := by
  induction tokens with
  | nil => rfl
  | cons first rest ih =>
    cases rest with
    | nil => simp [spaced]
    | cons second rest =>
      rw [spaced_cons_cons, lowercase_append_of_mem (by decide), ih]
      exact (spaced_cons_cons _ _ _).symm

theorem lowercase_grouped (tokens : List (List Char)) :
    lowercase (grouped tokens) = grouped (tokens.map lowercase) := by
  have hopening : lowercase ([] ++ '(' :: (spaced tokens ++ [')'])) =
      lowercase [] ++ '(' :: lowercase (spaced tokens ++ [')']) :=
    lowercase_append_of_mem (by decide) _ _
  have hclosing : lowercase (spaced tokens ++ [')']) = lowercase (spaced tokens) ++ [')'] :=
    lowercase_append_of_mem (by decide) _ []
  rw [hclosing, lowercase_spaced] at hopening
  exact hopening

/-! ## Lower case twice -/

/-- Where the characters are that lower case changes: the first and the last code point of a run,
and the distance between its members. -/
def capitalPlaces : List (ℕ × ℕ × ℕ) :=
  (0x41, 0x5A, 1) :: (0x130, 0x130, 1) :: capitalRuns.map fun run => (run.1, run.2.1, run.2.2.1)

/-- Whether a code point is a member of a run. -/
def IsMember (first last distance n : ℕ) : Prop :=
  first ≤ n ∧ n ≤ last ∧ (n - first) % distance = 0

theorem isSmall_of_not_isMember {c : Char}
    (h : ∀ place ∈ capitalPlaces, ¬IsMember place.1 place.2.1 place.2.2 c.toNat) : IsSmall c := by
  have hascii : ∀ n < 0x80, ¬(0x41 ≤ n ∧ n ≤ 0x5A) →
      (Char.ofNat n).toLower = Char.ofNat n := by decide +kernel
  have hrun : ∀ run ∈ capitalRuns, ¬IsMember run.1 run.2.1 run.2.2.1 c.toNat := fun run hrun =>
    h (run.1, run.2.1, run.2.2.1)
      (List.mem_cons_of_mem _ (List.mem_cons_of_mem _ (List.mem_map_of_mem hrun)))
  constructor
  · rintro rfl
    exact hrun (0x3A3, 0x3AB, 1, 32) (by decide +kernel) (by simp [IsMember])
  · unfold lowerChar
    split_ifs with hlow hdotted
    · have hletter := h (0x41, 0x5A, 1) (by simp [capitalPlaces])
      have hcode := hascii c.toNat hlow fun hmem => hletter ⟨hmem.1, hmem.2, Nat.mod_one _⟩
      rw [Char.ofNat_toNat] at hcode
      rw [hcode]
    · rw [beq_iff_eq] at hdotted
      exact absurd (by simp [hdotted, IsMember]) (h (0x130, 0x130, 1) (by simp [capitalPlaces]))
    · split
      case h_1 run hfind =>
        have hfits := List.find?_some hfind
        simp only [Bool.and_eq_true, decide_eq_true_eq, beq_iff_eq] at hfits
        exact absurd ⟨hfits.1.1, hfits.1.2, hfits.2⟩ (hrun run (List.mem_of_find?_eq_some hfind))
      case h_2 => rfl

/-- No image of a run of capitals is a capital. -/
theorem not_isMember_image {run : ℕ × ℕ × ℕ × ℤ} (hrun : run ∈ capitalRuns) {n : ℕ}
    (hmember : IsMember run.1 run.2.1 run.2.2.1 n) :
    ∀ place ∈ capitalPlaces, ¬IsMember place.1 place.2.1 place.2.2 (n + run.2.2.2).toNat := by
  have hpositive : (capitalRuns.all fun run => 0 ≤ run.1 + run.2.2.2) = true := by decide +kernel
  -- the images of a run lie apart from a place, or they alternate with its members
  have hall : (capitalRuns.all fun run => capitalPlaces.all fun place =>
      (run.2.1 + run.2.2.2).toNat.blt place.1 || place.2.1.blt (run.1 + run.2.2.2).toNat ||
        (place.2.2 == 2 && (run.2.2.1 == 2 || run.1 == run.2.1) &&
          ((run.1 + run.2.2.2).toNat + place.1) % 2 == 1)) = true := by
    decide +kernel
  rintro place hplace ⟨hplaceLow, hplaceHigh, hplaceStep⟩
  obtain ⟨hlow, hhigh, hstep⟩ := hmember
  have hfirst := of_decide_eq_true (List.all_eq_true.mp hpositive run hrun)
  have hapart := List.all_eq_true.mp (List.all_eq_true.mp hall run hrun) place hplace
  simp only [Bool.or_eq_true, Bool.and_eq_true, Nat.blt_eq, beq_iff_eq] at hapart
  rcases hapart with (hbelow | habove) | ⟨⟨htwo, hstepTwo | hsingle⟩, hodd⟩
  · omega
  · omega
  · rw [htwo] at hplaceStep
    rw [hstepTwo] at hstep
    omega
  · rw [htwo] at hplaceStep
    omega

theorem isSmall_of_mem_lowerChar {c d : Char} (hd : d ∈ lowerChar c) : IsSmall d := by
  unfold lowerChar at hd
  split_ifs at hd with hlow hdotted
  · have hall : ∀ n < 0x80, IsSmall (Char.ofNat n).toLower := by decide +kernel
    have hcode := hall c.toNat hlow
    rw [Char.ofNat_toNat] at hcode
    exact List.mem_singleton.mp hd ▸ hcode
  · simp only [List.mem_cons, List.not_mem_nil, or_false] at hd
    rcases hd with rfl | rfl <;> decide +kernel
  · split at hd
    case h_1 run hfind =>
      have hrun := List.mem_of_find?_eq_some hfind
      have hfits := List.find?_some hfind
      simp only [Bool.and_eq_true, decide_eq_true_eq, beq_iff_eq] at hfits
      have himage := not_isMember_image hrun ⟨hfits.1.1, hfits.1.2, hfits.2⟩
      rw [List.mem_singleton.mp hd]
      -- a number that is no code point stands for the character with code point 0
      rcases toNat_ofNat_eq_or (c.toNat + run.2.2.2).toNat with h | h
      · exact isSmall_of_not_isMember (by rwa [h])
      · have hzero : IsSmall (Char.ofNat 0) := by decide +kernel
        rwa [← Char.ofNat_toNat (Char.ofNat _), h]
    case h_2 hnone =>
      rw [List.mem_singleton.mp hd]
      refine ⟨?_, by simp [lowerChar, hlow, hdotted, hnone]⟩
      rintro rfl
      exact absurd hnone (by decide +kernel)

theorem isSmall_of_mem_imageOf {before after : List Char} {c d : Char}
    (hd : d ∈ imageOf before c after) : IsSmall d := by
  have hsigmas : IsSmall 'ς' ∧ IsSmall 'σ' := by decide +kernel
  unfold imageOf at hd
  split_ifs at hd with hsigma hend
  · exact List.mem_singleton.mp hd ▸ hsigmas.1
  · exact List.mem_singleton.mp hd ▸ hsigmas.2
  · exact isSmall_of_mem_lowerChar hd

theorem isSmall_of_mem_lowercaseAfter {before text : List Char} {d : Char}
    (hd : d ∈ lowercaseAfter before text) : IsSmall d := by
  induction text generalizing before with
  | nil => cases hd
  | cons c rest ih =>
    rw [lowercaseAfter_cons, List.mem_append] at hd
    exact hd.elim isSmall_of_mem_imageOf ih

end PlanPlayback.Text
