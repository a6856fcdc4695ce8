import PlanPlayback.Proofs.Text.Spelling
import PlanPlayback.Transcript.Report

/-!
# Where a time ends

A time is cut from a text so that it ends at a word boundary: all cuts of the number, of the blanks
behind it and of its unit are tried in turn.  This file says which one is taken, without trying.

* A number is taken as a whole if no word begins directly behind it, or if the word there is the name
  of a unit (`EndsTime`).  Its unit is the word behind the blanks, if that is the name of a unit
  (`unitBehind?`).
* Otherwise the digits in front of the point are taken alone, since a point ends a word.
* Otherwise nothing is taken: a boundary never lies between two digits.

So the text decides at the end of the number, and which of its digits are taken does not depend on
how many there are (`head?_timeEndings`).
-/

namespace PlanPlayback.Transcript

open Text

/-! ## Units -/

/-- The names of units. -/
def unitNames : List String :=
  ["msec", "ms", "seconds", "sec", "s"]

/-- Whether a word is the name of a unit, without regard to case. -/
def isUnit (word : List Char) : Bool :=
  unitNames.any fun unit => word? unit word == some []

/-- The word that a text begins with. -/
def firstWord (text : List Char) : List Char :=
  text.takeWhile isWordChar

/-- Whether a character may stand between a number and its unit. -/
def isGap (c : Char) : Bool :=
  c == ' ' || c == '\t'

/-- Whether a time may end with a number in front of a text, with or without a unit. -/
def EndsTime (behind : List Char) : Prop :=
  firstWord behind = [] ∨ isUnit (firstWord behind) = true

instance (behind : List Char) : Decidable (EndsTime behind) :=
  inferInstanceAs (Decidable (_ ∨ _))

/-- The unit behind a number, as it is spelled. -/
def unitBehind? (behind : List Char) : Option (List Char) :=
  if isUnit (firstWord (behind.dropWhile isGap)) then some (firstWord (behind.dropWhile isGap))
  else none

theorem isAlpha_of_mem_unitNames {unit : String} (h : unit ∈ unitNames) :
    ∀ w ∈ unit.toList, w.isAlpha = true := by
  have hall : (unitNames.all fun unit => unit.toList.all Char.isAlpha) = true := by decide
  exact List.all_eq_true.mp (List.all_eq_true.mp hall unit h)

theorem isWordChar_of_spells {unit : String} (h : unit ∈ unitNames) {spelled : List Char}
    (hspelled : Spells unit.toList spelled) : ∀ c ∈ spelled, isWordChar c = true :=
  hspelled.forall_mem fun w hw _ hc => isWordChar_of_matches (isAlpha_of_mem_unitNames h w hw) hc

theorem ne_nil_of_mem_unitNames {unit : String} (h : unit ∈ unitNames) : unit.toList ≠ [] := by
  have hall : (unitNames.all fun unit => unit.toList != []) = true := by decide
  simpa using List.all_eq_true.mp hall unit h

theorem isUnit_nil : isUnit [] = false := by
  decide

/-- The names of units begin with two letters only. -/
theorem exists_matches_of_isUnit {c : Char} {rest : List Char} (h : isUnit (c :: rest) = true) :
    ∃ w ∈ ['m', 's'], matchesIgnoringCase w c = true := by
  have hletters : (unitNames.all fun unit =>
      ['m', 's'].any fun w => unit.toList.head? == some w) = true := by decide
  obtain ⟨unit, hunit, hword⟩ := List.any_eq_true.mp h
  obtain ⟨w, hw, hfirst⟩ := List.any_eq_true.mp (List.all_eq_true.mp hletters unit hunit)
  obtain ⟨letters, hunitLetters⟩ := List.head?_eq_some_iff.mp (beq_iff_eq.mp hfirst)
  obtain ⟨spelled, hspelled, hmatches⟩ := wordChars?_eq_some_iff.mp (beq_iff_eq.mp hword)
  rw [List.append_nil] at hspelled
  rw [hunitLetters, ← hspelled] at hmatches
  obtain _ | ⟨hc, -⟩ := hmatches
  exact ⟨w, hw, hc⟩

theorem isUnit_cons_of_isDigit {c : Char} (hc : isDigit c = true) (rest : List Char) :
    isUnit (c :: rest) = false := by
  have halpha : (['m', 's'].all Char.isAlpha) = true := by decide
  by_contra hunit
  obtain ⟨w, hw, hmatches⟩ := exists_matches_of_isUnit (by simpa using hunit)
  simp [isDigit_of_matches (List.all_eq_true.mp halpha w hw) hmatches] at hc

theorem firstWord_cons {c : Char} (hc : isWordChar c = true) (rest : List Char) :
    firstWord (c :: rest) = c :: firstWord rest :=
  List.takeWhile_cons_of_pos hc

theorem firstWord_eq_nil_iff {text : List Char} :
    firstWord text = [] ↔ startsWithWordChar text = false := by
  cases text with
  | nil => simp [firstWord, startsWithWordChar]
  | cons c rest => simp [firstWord, startsWithWordChar, List.takeWhile_cons]

/-- A time does not end between two digits. -/
theorem not_endsTime_of_isDigit {c : Char} (hc : isDigit c = true) (rest : List Char) :
    ¬EndsTime (c :: rest) := by
  rw [EndsTime, firstWord_cons (isWordChar_of_isDigit hc), isUnit_cons_of_isDigit hc]
  simp

theorem endsTime_of_head {c : Char} (hc : isWordChar c = false) (rest : List Char) :
    EndsTime (c :: rest) :=
  .inl (firstWord_eq_nil_iff.mpr hc)

/-! ## Cuts -/

/-- The longest cut comes first, and then the shorter ones. -/
theorem exists_runsOf_append {accepts : Char → Bool} {run rest : List Char}
    (hrun : ∀ c ∈ run, accepts c = true) (hrest : ∀ c ∈ rest.head?, accepts c = false) {least : ℕ}
    (hle : least ≤ run.length) :
    ∃ shorter, runsOf accepts least (run ++ rest) = (run, rest) :: shorter ∧
      ∀ cut, cut ∈ shorter ↔
        ∃ n, least ≤ n ∧ n < run.length ∧ cut = (run.take n, run.drop n ++ rest) := by
  have hlongest : run.length + 1 - least = (run.length - least) + 1 := by omega
  rw [runsOf, takeWhile_append_eq hrun hrest]
  simp only [hlongest, List.range_succ_eq_map, List.map_cons, Nat.sub_zero, List.take_left,
    List.drop_left]
  refine ⟨_, rfl, fun cut => ?_⟩
  simp only [List.mem_map, List.mem_range]
  constructor
  · rintro ⟨_, ⟨_, ⟨k, hk, rfl⟩, rfl⟩, rfl⟩
    refine ⟨run.length - (k + 1), by omega, by omega, ?_⟩
    rw [List.take_append_of_le_length (by omega), List.drop_append_of_le_length (by omega)]
  · rintro ⟨n, hn, hlt, rfl⟩
    refine ⟨n, ⟨run.length - n, ⟨run.length - n - 1, by omega, by omega⟩, by omega⟩, ?_⟩
    rw [List.take_append_of_le_length (by omega), List.drop_append_of_le_length (by omega)]

theorem runsOf_eq_nil {accepts : Char → Bool} {text : List Char}
    (h : ∀ c ∈ text.head?, accepts c = false) : runsOf accepts 1 text = [] := by
  have hnone : text.takeWhile accepts = [] := @takeWhile_append_eq _ accepts [] text (by simp) h
  simp [runsOf, hnone]

/-! ## One cut -/

/-- The ways to end a time behind a number and blanks. -/
def endingsBehind (number gap behind : List Char) :
    List (List Char × Option (List Char) × List Char) :=
  (unitRuns behind).filterMap fun (unit, after) =>
    if isBoundary (number ++ gap ++ unit.getD []) after then some (number, unit, after) else none

theorem timeEndings_eq (text : List Char) :
    timeEndings text = (numeralRuns text).flatMap fun cut =>
      (runsOf isGap 0 cut.2).flatMap fun gap => endingsBehind cut.1 gap.1 gap.2 :=
  rfl

theorem findSome?_eq_ite {α β : Type} {f : α → Option β} {p : α → Bool} {b : β} {items : List α}
    (h : ∀ a ∈ items, f a = if p a then some b else none) :
    items.findSome? f = if items.any p then some b else none := by
  induction items with
  | nil => rfl
  | cons a items ih =>
    rw [List.findSome?_cons, h a (by simp), List.any_cons,
      ih fun c hc => h c (List.mem_cons_of_mem _ hc)]
    cases p a <;> rfl

/-- A unit ends a time exactly if it is the whole word that stands there. -/
theorem unitEnding_eq {unit : String} (hunit : unit ∈ unitNames) (number gap behind : List Char) :
    (((word? unit behind).map fun rest => (some (behind.take unit.length), rest)).bind
      fun (unit, after) =>
        if isBoundary (number ++ gap ++ unit.getD []) after then some (number, unit, after)
        else none) =
      if word? unit (firstWord behind) == some [] then
        some (number, some (firstWord behind), behind.dropWhile isWordChar)
      else none := by
  cases hword : word? unit behind with
  | none =>
    -- the first word is a part of the text, so that the unit would be found in both
    have hnot : word? unit (firstWord behind) ≠ some [] := by
      intro hfirst
      obtain ⟨spelled, hspelled, hmatches⟩ := wordChars?_eq_some_iff.mp hfirst
      rw [List.append_nil] at hspelled
      have hfound : word? unit behind = some (behind.dropWhile isWordChar) :=
        wordChars?_eq_some_iff.mpr
          ⟨firstWord behind, List.takeWhile_append_dropWhile.symm, hspelled ▸ hmatches⟩
      simp [hfound] at hword
    simp [hnot]
  | some after =>
    obtain ⟨spelled, rfl, hmatches⟩ := wordChars?_eq_some_iff.mp hword
    have hlength : unit.length = spelled.length := by
      rw [← String.length_toList]
      exact hmatches.length_eq
    have hchars : ∀ c ∈ spelled, isWordChar c = true := isWordChar_of_spells hunit hmatches
    have hlast : (number ++ gap ++ spelled).getLast?.any isWordChar = true := by
      have hne : spelled ≠ [] := by
        rintro rfl
        exact ne_nil_of_mem_unitNames hunit (List.forall₂_nil_right_iff.mp hmatches)
      rw [List.getLast?_append_of_ne_nil _ hne, List.getLast?_eq_some_getLast hne]
      exact hchars _ (List.getLast_mem hne)
    simp only [Option.map_some, Option.bind_some, Option.getD_some, hlength, List.take_left,
      isBoundary, hlast]
    cases hstarts : startsWithWordChar after with
    | true =>
      have hfirst : firstWord (spelled ++ after) = spelled ++ firstWord after :=
        List.takeWhile_append_of_pos hchars
      have hne : firstWord after ≠ [] := fun hnil => by
        simp [firstWord_eq_nil_iff.mp hnil] at hstarts
      have hread : word? unit (spelled ++ firstWord after) = some (firstWord after) :=
        wordChars?_eq_some_iff.mpr ⟨spelled, rfl, hmatches⟩
      simp [hfirst, hread, hne]
    | false =>
      have hnone : ∀ c ∈ after.head?, isWordChar c = false := by
        cases after with
        | nil => simp
        | cons c rest => simpa [startsWithWordChar] using hstarts
      have hread : word? unit spelled = some [] :=
        wordChars?_eq_some_iff.mpr ⟨spelled, (List.append_nil _).symm, hmatches⟩
      rw [firstWord, takeWhile_append_eq hchars hnone, dropWhile_append_eq hchars hnone]
      simp [hread]

/-- Of the ways to end a time, a unit comes first. -/
theorem head?_endingsBehind {number gap : List Char} {b : Char}
    (hlast : (number ++ gap).getLast? = some b) (behind : List Char) :
    (endingsBehind number gap behind).head? =
      if isUnit (firstWord behind) then
        some (number, some (firstWord behind), behind.dropWhile isWordChar)
      else if isWordChar b = startsWithWordChar behind then none
      else some (number, none, behind) := by
  have hruns : unitRuns behind = (unitNames.filterMap fun unit =>
      (word? unit behind).map fun rest => (some (behind.take unit.length), rest)) ++
        [(none, behind)] := rfl
  rw [endingsBehind, hruns, List.filterMap_append, List.filterMap_filterMap, List.head?_append,
    List.head?_filterMap, findSome?_eq_ite fun unit hunit => unitEnding_eq hunit number gap behind]
  change (if isUnit (firstWord behind) then _ else none).or _ = _
  have hboundary : isBoundary (number ++ gap) behind =
      (isWordChar b != startsWithWordChar behind) := by
    rw [isBoundary, hlast]
    rfl
  split_ifs with hunit hsame
  · rfl
  · simp [hboundary, hsame]
  · simp [hboundary, hsame]

/-! ## All cuts -/

/-- The number and the unit of a time. -/
def numberAndUnit (ending : List Char × Option (List Char) × List Char) :
    List Char × Option (List Char) :=
  (ending.1, ending.2.1)

theorem findSome?_eq_some_of_forall {α β : Type} {f : α → Option β} {b : β} {items : List α}
    (hall : ∀ a ∈ items, f a = none ∨ f a = some b) {a : α} (ha : a ∈ items) (hfound : f a = some b) :
    items.findSome? f = some b := by
  induction items with
  | nil => cases ha
  | cons c items ih =>
    rw [List.findSome?_cons]
    rcases hall c (by simp) with hc | hc
    · rw [hc]
      have hmem : a ∈ items := by
        rcases List.mem_cons.mp ha with rfl | hmem
        · simp [hfound] at hc
        · exact hmem
      exact ih (fun d hd => hall d (List.mem_cons_of_mem _ hd)) hmem
    · rw [hc]

theorem isWordChar_of_isGap {c : Char} (h : isGap c = true) : isWordChar c = false := by
  simp only [isGap, Bool.or_eq_true, beq_iff_eq] at h
  rcases h with rfl | rfl <;> decide +kernel

theorem firstWord_of_gap {gap : List Char} (hgap : ∀ c ∈ gap, isGap c = true) (hne : gap ≠ [])
    (behind : List Char) : firstWord (gap ++ behind) = [] := by
  obtain ⟨c, others, rfl⟩ := List.exists_cons_of_ne_nil hne
  exact firstWord_eq_nil_iff.mpr (isWordChar_of_isGap (hgap c (by simp)))

/-- If some of the blanks are left, a time ends only in front of all of them. -/
theorem head?_endingsBehind_take {number gap : List Char} {b : Char}
    (hlast : number.getLast? = some b) (hb : isWordChar b = true)
    (hgap : ∀ c ∈ gap, isGap c = true) {n : ℕ} (hn : n < gap.length) (behind : List Char) :
    (endingsBehind number (gap.take n) (gap.drop n ++ behind)).head?.map numberAndUnit =
      if n = 0 then some (number, none) else none := by
  have hdrop : firstWord (gap.drop n ++ behind) = [] :=
    firstWord_of_gap (fun c hc => hgap c (List.mem_of_mem_drop hc)) (by simpa using hn) behind
  have hstarts : startsWithWordChar (gap.drop n ++ behind) = false :=
    firstWord_eq_nil_iff.mp hdrop
  split_ifs with hzero
  · subst hzero
    have hnumber : (number ++ gap.take 0).getLast? = some b := by simpa using hlast
    rw [head?_endingsBehind hnumber, hdrop, isUnit_nil, hb, hstarts]
    rfl
  · have hne : gap.take n ≠ [] := by
      rw [Ne, List.take_eq_nil_iff]
      rintro (hzero' | rfl)
      · exact hzero hzero'
      · simp at hn
    have hnumber : (number ++ gap.take n).getLast? = some ((gap.take n).getLast hne) := by
      rw [List.getLast?_append_of_ne_nil _ hne, List.getLast?_eq_some_getLast hne]
    have hnotWord : isWordChar ((gap.take n).getLast hne) = false :=
      isWordChar_of_isGap (hgap _ (List.mem_of_mem_take (List.getLast_mem hne)))
    rw [head?_endingsBehind hnumber, hdrop, isUnit_nil, hnotWord, hstarts]
    rfl

/-- Of the ways to pass over the blanks behind a number, the longest one that ends a time is taken. -/
theorem findSome?_gaps {number : List Char} {b : Char} (hlast : number.getLast? = some b)
    (hb : isWordChar b = true) {gap behind : List Char} (hgap : ∀ c ∈ gap, isGap c = true)
    (hbehind : ∀ c ∈ behind.head?, isGap c = false) :
    ((runsOf isGap 0 (gap ++ behind)).findSome? fun cut =>
      (endingsBehind number cut.1 cut.2).head?.map numberAndUnit) =
      if EndsTime (gap ++ behind) then some (number, unitBehind? (gap ++ behind)) else none := by
  have hunit : unitBehind? (gap ++ behind) =
      if isUnit (firstWord behind) then some (firstWord behind) else none := by
    rw [unitBehind?, dropWhile_append_eq hgap hbehind]
  obtain ⟨shorter, hruns, hshorter⟩ := exists_runsOf_append hgap hbehind (Nat.zero_le _)
  rw [hruns, hunit, List.findSome?_cons]
  by_cases hne : gap = []
  · subst hne
    obtain rfl : shorter = [] :=
      List.eq_nil_iff_forall_not_mem.mpr fun cut hcut => by simpa using (hshorter cut).mp hcut
    have hnumber : (number ++ []).getLast? = some b := by rw [List.append_nil, hlast]
    simp only [List.nil_append, EndsTime, firstWord_eq_nil_iff, head?_endingsBehind hnumber, hb]
    cases isUnit (firstWord behind) <;> cases startsWithWordChar behind <;> rfl
  -- with blanks behind it the number ends a time for itself, but a unit behind the blanks is longer
  have hends : EndsTime (gap ++ behind) := .inl (firstWord_of_gap hgap hne behind)
  have hlastGap : (number ++ gap).getLast? = some (gap.getLast hne) := by
    rw [List.getLast?_append_of_ne_nil _ hne, List.getLast?_eq_some_getLast hne]
  have hnotWord : isWordChar (gap.getLast hne) = false :=
    isWordChar_of_isGap (hgap _ (List.getLast_mem hne))
  simp only [head?_endingsBehind hlastGap, hnotWord, if_pos hends]
  cases hisUnit : isUnit (firstWord behind) with
  | true => rfl
  | false =>
    cases hstarts : startsWithWordChar behind with
    | true => rfl
    | false =>
      have hpos : 0 < gap.length := List.length_pos_iff.mpr hne
      have hfirst : (endingsBehind number (gap.take 0) (gap.drop 0 ++ behind)).head?.map
          numberAndUnit = some (number, none) :=
        head?_endingsBehind_take hlast hb hgap hpos behind
      refine findSome?_eq_some_of_forall (fun cut hcut => ?_)
        ((hshorter _).mpr ⟨0, le_rfl, hpos, rfl⟩) hfirst
      obtain ⟨n, -, hn, rfl⟩ := (hshorter cut).mp hcut
      rw [head?_endingsBehind_take hlast hb hgap hn]
      by_cases hzero : n = 0
      · exact .inr (if_pos hzero)
      · exact .inl (if_neg hzero)

/-! ## Numbers -/

/-- The digits of a number, with a point in front of the fraction if there is one. -/
def numberText (whole fraction : List Char) : List Char :=
  whole ++ if fraction = [] then [] else '.' :: fraction

/-- Whether the digits in front of a text are all that there are. -/
structure EndsDigits (fraction behind : List Char) : Prop where
  not_digit : ∀ c ∈ behind.head?, isDigit c = false
  not_fraction : fraction = [] → ∀ c rest, behind = '.' :: c :: rest → isDigit c = false

section Numbers

variable {whole fraction behind : List Char}

theorem exists_getLast?_of_digits {digits : List Char} (hne : digits ≠ [])
    (hdigits : ∀ c ∈ digits, isDigit c = true) (front : List Char) :
    ∃ b, (front ++ digits).getLast? = some b ∧ isWordChar b = true := by
  refine ⟨digits.getLast hne, ?_, isWordChar_of_isDigit (hdigits _ (List.getLast_mem hne))⟩
  rw [List.getLast?_append_of_ne_nil _ hne, List.getLast?_eq_some_getLast hne]

/-- The first way to end a time behind a number, whatever is behind it. -/
theorem findSome?_ending {number : List Char}
    (hlast : ∃ b, number.getLast? = some b ∧ isWordChar b = true) (rest : List Char) :
    ((runsOf isGap 0 rest).flatMap fun gap => endingsBehind number gap.1 gap.2).head?.map
      numberAndUnit = if EndsTime rest then some (number, unitBehind? rest) else none := by
  obtain ⟨b, hlast, hb⟩ := hlast
  have hgap : ∀ c ∈ rest.takeWhile isGap, isGap c = true := fun c hc => List.mem_takeWhile_imp hc
  have hbehind : ∀ c ∈ (rest.dropWhile isGap).head?, isGap c = false :=
    head?_dropWhile_eq_false isGap rest
  have hfound := findSome?_gaps hlast hb hgap hbehind
  rw [List.takeWhile_append_dropWhile] at hfound
  rw [List.head?_flatMap, List.map_findSome?, ← hfound]
  rfl

/-- What is taken if a number is cut from a text in a given way. -/
def ending? (cut : List Char × List Char) : Option (List Char × Option (List Char)) :=
  if EndsTime cut.2 then some (cut.1, unitBehind? cut.2) else none

theorem findSome?_congr {α β : Type} {f g : α → Option β} {items : List α}
    (h : ∀ a ∈ items, f a = g a) : items.findSome? f = items.findSome? g := by
  induction items with
  | nil => rfl
  | cons a items ih =>
    rw [List.findSome?_cons, List.findSome?_cons, h a (by simp),
      ih fun c hc => h c (List.mem_cons_of_mem _ hc)]

/-- The first cut of a number that ends a time is taken. -/
theorem map_head?_timeEndings {text : List Char}
    (h : ∀ cut ∈ numeralRuns text, ∃ b, cut.1.getLast? = some b ∧ isWordChar b = true) :
    (timeEndings text).head?.map numberAndUnit = (numeralRuns text).findSome? ending? := by
  rw [timeEndings_eq, List.head?_flatMap, List.map_findSome?]
  exact findSome?_congr fun cut hcut => findSome?_ending (h cut hcut) cut.2

/-- The numbers with a fraction, given the digits in front of the point and what is behind them. -/
def pointRuns (cut : List Char × List Char) : List (List Char × List Char) :=
  match cut.2 with
  | '.' :: behind => (runsOf isDigit 1 behind).map fun run => (cut.1 ++ '.' :: run.1, run.2)
  | _ => []

theorem numeralRuns_eq (text : List Char) :
    numeralRuns text = (runsOf isDigit 1 text).flatMap fun cut => pointRuns cut ++ [cut] :=
  rfl

theorem pointRuns_of_head {rest : List Char} (h : ∀ c ∈ rest.head?, c ≠ '.') (digits : List Char) :
    pointRuns (digits, rest) = [] := by
  unfold pointRuns
  split
  next behind heq =>
    have hrest : rest = '.' :: behind := heq
    exact absurd rfl (h '.' (by simp [hrest]))
  next => rfl

/-- The cuts of some digits that are shorter than all of them. -/
def IsShorter (front digits behind : List Char) (cut : List Char × List Char) : Prop :=
  ∃ n, 1 ≤ n ∧ n < digits.length ∧ cut = (front ++ digits.take n, digits.drop n ++ behind)

section Shorter

variable {front digits : List Char} (hdigits : ∀ c ∈ digits, isDigit c = true)
include hdigits

theorem exists_drop_eq_cons {n : ℕ} (hn : n < digits.length) :
    ∃ c rest, digits.drop n = c :: rest ∧ isDigit c = true := by
  have hne : digits.drop n ≠ [] := by simpa using hn
  obtain ⟨c, rest, hdrop⟩ := List.exists_cons_of_ne_nil hne
  exact ⟨c, rest, hdrop, hdigits c (List.mem_of_mem_drop (hdrop ▸ List.mem_cons_self))⟩

/-- Shorter cuts end no time, because a digit is behind them. -/
theorem ending?_of_isShorter {cut : List Char × List Char}
    (h : IsShorter front digits behind cut) : ending? cut = none := by
  obtain ⟨n, -, hn, rfl⟩ := h
  obtain ⟨c, rest, hdrop, hc⟩ := exists_drop_eq_cons hdigits hn
  refine if_neg ?_
  simp only [hdrop, List.cons_append]
  exact not_endsTime_of_isDigit hc _

theorem exists_getLast?_of_isShorter {cut : List Char × List Char}
    (h : IsShorter front digits behind cut) :
    ∃ b, cut.1.getLast? = some b ∧ isWordChar b = true := by
  obtain ⟨n, hpos, hn, rfl⟩ := h
  refine exists_getLast?_of_digits ?_ (fun c hc => hdigits c (List.mem_of_mem_take hc)) front
  rw [Ne, List.take_eq_nil_iff]
  rintro (hzero | rfl)
  · omega
  · simp at hn

theorem pointRuns_of_isShorter {cut : List Char × List Char}
    (h : IsShorter front digits behind cut) : pointRuns cut = [] := by
  obtain ⟨n, -, hn, rfl⟩ := h
  obtain ⟨c, rest, hdrop, hc⟩ := exists_drop_eq_cons hdigits hn
  refine pointRuns_of_head ?_ _
  rintro d hd rfl
  rw [hdrop] at hd
  obtain rfl : c = '.' := by simpa using hd
  exact absurd hc (by decide +kernel)

end Shorter

/-- The numbers that a text begins with: all of its digits come first, then fewer digits behind the
point, then the digits in front of the point, and then fewer of these. -/
theorem exists_numeralRuns (hne : whole ≠ []) (hwhole : ∀ c ∈ whole, isDigit c = true)
    (hfraction : ∀ c ∈ fraction, isDigit c = true) (hends : EndsDigits fraction behind) :
    ∃ fractions wholes : List (List Char × List Char),
      (∀ cut ∈ fractions, IsShorter (whole ++ ['.']) fraction behind cut) ∧
      (∀ cut ∈ wholes, ∃ rest, IsShorter [] whole rest cut) ∧
      numeralRuns (numberText whole fraction ++ behind) =
        if fraction = [] then (whole, behind) :: wholes
        else (numberText whole fraction, behind) ::
          (fractions ++ (whole, '.' :: (fraction ++ behind)) :: wholes) := by
  have hdot : isDigit '.' = false := by decide +kernel
  have hlengthOf {digits : List Char} (h : digits ≠ []) : 1 ≤ digits.length :=
    List.length_pos_iff.mpr h
  have hwholesOf {rest : List Char} (hrest : ∀ c ∈ rest.head?, isDigit c = false) :
      ∃ wholes : List (List Char × List Char), (∀ cut ∈ wholes, IsShorter [] whole rest cut) ∧
        numeralRuns (whole ++ rest) = pointRuns (whole, rest) ++ (whole, rest) :: wholes := by
    obtain ⟨wholes, hruns, hwholes⟩ := exists_runsOf_append hwhole hrest (hlengthOf hne)
    have hshorter : ∀ cut ∈ wholes, IsShorter [] whole rest cut :=
      fun cut hcut => (hwholes cut).mp hcut
    have hsame : (wholes.flatMap fun cut => pointRuns cut ++ [cut]) = wholes := by
      calc (wholes.flatMap fun cut => pointRuns cut ++ [cut])
          = wholes.flatMap fun cut => [cut] := List.flatMap_congr fun cut hcut => by
            rw [pointRuns_of_isShorter hwhole (hshorter cut hcut), List.nil_append]
        _ = wholes := List.flatMap_singleton' wholes
    refine ⟨wholes, hshorter, ?_⟩
    rw [numeralRuns_eq, hruns, List.flatMap_cons, hsame, List.append_assoc, List.singleton_append]
  by_cases hempty : fraction = []
  · subst hempty
    obtain ⟨wholes, hshorter, hruns⟩ := hwholesOf hends.not_digit
    refine ⟨[], wholes, by simp, fun cut hcut => ⟨behind, hshorter cut hcut⟩, ?_⟩
    have hpoint : pointRuns (whole, behind) = [] := by
      unfold pointRuns
      split
      next rest heq =>
        have hrest : behind = '.' :: rest := heq
        have hdigits : ∀ c ∈ rest.head?, isDigit c = false := by
          cases rest with
          | nil => simp
          | cons c rest => simpa using hends.not_fraction rfl c rest hrest
        rw [runsOf_eq_nil hdigits]
        rfl
      next => rfl
    rw [if_pos rfl, numberText, if_pos rfl, List.append_nil, hruns, hpoint]
    rfl
  · have hbehind : ∀ c ∈ ('.' :: (fraction ++ behind)).head?, isDigit c = false := by
      rintro c ⟨⟩
      exact hdot
    obtain ⟨wholes, hshorter, hruns⟩ := hwholesOf hbehind
    obtain ⟨cuts, hcuts, hfractions⟩ :=
      exists_runsOf_append hfraction hends.not_digit (hlengthOf hempty)
    refine ⟨cuts.map fun run => (whole ++ '.' :: run.1, run.2), wholes, ?_,
      fun cut hcut => ⟨_, hshorter cut hcut⟩, ?_⟩
    · intro cut hcut
      obtain ⟨run, hrun, rfl⟩ := List.mem_map.mp hcut
      obtain ⟨n, hpos, hn, rfl⟩ := (hfractions run).mp hrun
      exact ⟨n, hpos, hn, by simp⟩
    · have hpoint : pointRuns (whole, '.' :: (fraction ++ behind)) =
          (whole ++ '.' :: fraction, behind) ::
            cuts.map fun run => (whole ++ '.' :: run.1, run.2) := by
        simp only [pointRuns, hcuts, List.map_cons]
      rw [if_neg hempty, numberText, if_neg hempty, List.append_assoc, List.cons_append, hruns,
        hpoint]
      rfl

/-- **Where a time ends.**  The number that stands in a text is taken as a whole if a time may end
behind it.  If not, the digits in front of the point are taken, and without a point nothing is. -/
theorem head?_timeEndings (hne : whole ≠ []) (hwhole : ∀ c ∈ whole, isDigit c = true)
    (hfraction : ∀ c ∈ fraction, isDigit c = true) (hends : EndsDigits fraction behind) :
    (timeEndings (numberText whole fraction ++ behind)).head?.map numberAndUnit =
      if EndsTime behind then some (numberText whole fraction, unitBehind? behind)
      else if fraction = [] then none
      else some (whole, none) := by
  obtain ⟨fractions, wholes, hfractions, hwholes, hruns⟩ :=
    exists_numeralRuns hne hwhole hfraction hends
  have hwholesNone : wholes.findSome? ending? = none :=
    List.findSome?_eq_none_iff.mpr fun cut hcut => by
      obtain ⟨rest, hshorter⟩ := hwholes cut hcut
      exact ending?_of_isShorter hwhole hshorter
  have hfractionsNone : fractions.findSome? ending? = none :=
    List.findSome?_eq_none_iff.mpr fun cut hcut =>
      ending?_of_isShorter hfraction (hfractions cut hcut)
  have hwholeLast : ∃ b, whole.getLast? = some b ∧ isWordChar b = true :=
    exists_getLast?_of_digits hne hwhole []
  have hwholesLast : ∀ cut ∈ wholes, ∃ b, cut.1.getLast? = some b ∧ isWordChar b = true := by
    intro cut hcut
    obtain ⟨rest, hshorter⟩ := hwholes cut hcut
    exact exists_getLast?_of_isShorter hwhole hshorter
  by_cases hempty : fraction = []
  · rw [if_pos hempty] at hruns ⊢
    have hnumber : numberText whole fraction = whole := by simp [numberText, hempty]
    have hlast : ∀ cut ∈ (whole, behind) :: wholes,
        ∃ b, cut.1.getLast? = some b ∧ isWordChar b = true :=
      List.forall_mem_cons.mpr ⟨hwholeLast, hwholesLast⟩
    rw [map_head?_timeEndings (hruns ▸ hlast), hruns, List.findSome?_cons, hwholesNone, hnumber,
      ending?]
    split_ifs <;> rfl
  · rw [if_neg hempty] at hruns ⊢
    have hnumberLast : ∃ b, (numberText whole fraction).getLast? = some b ∧ isWordChar b = true := by
      obtain ⟨b, hb, hword⟩ := exists_getLast?_of_digits hempty hfraction (whole ++ ['.'])
      exact ⟨b, by simpa [numberText, hempty] using hb, hword⟩
    have hlast : ∀ cut ∈ (numberText whole fraction, behind) ::
        (fractions ++ (whole, '.' :: (fraction ++ behind)) :: wholes),
          ∃ b, cut.1.getLast? = some b ∧ isWordChar b = true :=
      List.forall_mem_cons.mpr ⟨hnumberLast, List.forall_mem_append.mpr
        ⟨fun cut hcut => exists_getLast?_of_isShorter hfraction (hfractions cut hcut),
          List.forall_mem_cons.mpr ⟨hwholeLast, hwholesLast⟩⟩⟩
    -- a point ends a word, and has no unit behind it
    have hpoint : ending? (whole, '.' :: (fraction ++ behind)) = some (whole, none) := by
      have hdot : isWordChar '.' = false := by decide +kernel
      have hunit : unitBehind? ('.' :: (fraction ++ behind)) = none := by
        have hword : firstWord ('.' :: (fraction ++ behind)) = [] := firstWord_eq_nil_iff.mpr hdot
        rw [unitBehind?, List.dropWhile_cons_of_neg (by decide), hword, isUnit_nil]
        rfl
      rw [ending?, if_pos (endsTime_of_head hdot _), hunit]
    rw [map_head?_timeEndings (hruns ▸ hlast), hruns, List.findSome?_cons, List.findSome?_append,
      hfractionsNone, List.findSome?_cons, hpoint, ending?]
    split_ifs <;> rfl

end Numbers

end PlanPlayback.Transcript
