import PlanPlayback.Proofs.Transcript.DecimalLiterals

/-!
# Numbers behind labels

The times and the cost in a search report are cut from the text behind their labels.  Of a decimal
literal there, the digits with the fraction are looked at, and never the exponent.

* The cost is read from the digits and the fraction, whatever is behind them.
* A time is read from the digits and the fraction if a time may end there.  An exponent is not such an
  end, nor is a word that is not a unit.
* Otherwise a time is read from the digits in front of the point (`cutTime`).  If there is no point, the
  label is passed over, and the time behind the next one is read.

So a number without an exponent is read as it is written, unless it is a time and directly in front
of a word that is not a unit.  Any other number is read as it is written by chance only
(`scraped_numbers_read`).
-/

namespace PlanPlayback.Transcript

open Text

/-! ## The first label -/

theorem anywhere?_eq_firstFound? {α : Type} (scanner : List Char → Option α)
    (before : Option Char) (text : List Char) :
    anywhere? (fun _ rest => scanner rest) before text = firstFound? scanner text := by
  cases text <;> rfl

theorem firstFound?_cons {α : Type} (scanner : List Char → Option α) (c : Char)
    (rest : List Char) :
    firstFound? scanner (c :: rest) = (scanner (c :: rest)).or (firstFound? scanner rest) := by
  rw [firstFound?, anywhere?, anywhere?_eq_firstFound?]
  cases scanner (c :: rest) <;> rfl

/-- Whether no proper end of a label is a beginning of it, so that no two places of it overlap. -/
def IsBorderless (label : List Char) : Prop :=
  ∀ n < label.length, 0 < n → label.drop n ≠ label.take (label.length - n)

/-- A label is not found inside a place of it. -/
theorem word?_of_inside {label : String} (hsmall : ∀ w ∈ label.toList, w.toNat < 0x80)
    (hborder : IsBorderless label.toList) {spelled : List Char}
    (hspelled : Spells label.toList spelled) {n : ℕ} (hpos : 0 < n) (hn : n < spelled.length)
    (rest : List Char) : word? label (spelled.drop n ++ rest) = none := by
  have hlength : label.toList.length = spelled.length := hspelled.length_eq
  by_contra hfound
  obtain ⟨after, hafter⟩ := Option.ne_none_iff_exists'.mp hfound
  obtain ⟨other, hother, hmatches⟩ := wordChars?_eq_some_iff.mp hafter
  have hotherLength : other.length = spelled.length := hmatches.length_eq ▸ hlength
  -- the end of the place spells an end of the label, and a beginning of it
  have hend : Spells (label.toList.drop n) (spelled.drop n) := List.forall₂_drop n hspelled
  have hbeginning : Spells (label.toList.take (label.toList.length - n)) (spelled.drop n) := by
    have htake : other.take (label.toList.length - n) = spelled.drop n := by
      have hdrop : (spelled.drop n).length = label.toList.length - n := by
        rw [List.length_drop, hlength]
      have hcut := congrArg (List.take (label.toList.length - n)) hother
      rw [← hdrop, List.take_left, hdrop, List.take_append_of_le_length (by omega)] at hcut
      exact hcut.symm
    rw [← htake]
    exact List.forall₂_take _ hmatches
  refine hborder n (hlength ▸ hn) hpos (hend.inj ?_ ?_ hbeginning)
  · exact fun w hw => hsmall w (List.mem_of_mem_drop hw)
  · exact fun w hw => hsmall w (List.mem_of_mem_take hw)

theorem firstFound?_append {α : Type} {scanner : List Char → Option α} {part rest : List Char}
    (h : ∀ n < part.length, scanner (part.drop n ++ rest) = none) :
    firstFound? scanner (part ++ rest) = firstFound? scanner rest := by
  induction part with
  | nil => rfl
  | cons c part ih =>
    have hfirst : scanner (c :: (part ++ rest)) = none := h 0 (by simp)
    rw [List.cons_append, firstFound?_cons, hfirst, Option.none_or]
    exact ih fun n hn => h (n + 1) (by simpa using hn)

/-- What is read behind the first place of a label, or behind the next one that fits. -/
theorem firstFound?_label {β : Type} {label : String} (hne : label.toList ≠ [])
    (hsmall : ∀ w ∈ label.toList, w.toNat < 0x80) (hborder : IsBorderless label.toList)
    (next : List Char → Option β) {text rest : List Char}
    (h : firstFound? (word? label) text = some rest) :
    firstFound? (fun text => (word? label text).bind next) text =
      (next rest).or (firstFound? (fun text => (word? label text).bind next) rest) := by
  induction text with
  | nil =>
    obtain ⟨spelled, hnil, hspelled⟩ := wordChars?_eq_some_iff.mp h
    obtain ⟨rfl, -⟩ := List.append_eq_nil_iff.mp hnil.symm
    exact absurd (List.forall₂_nil_right_iff.mp hspelled) hne
  | cons c text ih =>
    rw [firstFound?_cons] at h ⊢
    cases hword : word? label (c :: text) with
    | none =>
      rw [hword, Option.none_or] at h
      exact ih h
    | some behind =>
      obtain rfl : behind = rest := by simpa [hword] using h
      obtain ⟨spelled, htext, hspelled⟩ := wordChars?_eq_some_iff.mp hword
      cases spelled with
      | nil => exact absurd (List.forall₂_nil_right_iff.mp hspelled) hne
      | cons d part =>
        obtain rfl : c = d := (List.cons.inj htext).1
        obtain rfl : text = part ++ behind := (List.cons.inj htext).2
        -- the next place where something can be read is behind the label
        have hskip : firstFound? (fun text => (word? label text).bind next) (part ++ behind) =
            firstFound? (fun text => (word? label text).bind next) behind :=
          firstFound?_append fun n hn => by
            have hnone : word? label ((c :: part).drop (n + 1) ++ behind) = none :=
              word?_of_inside hsmall hborder hspelled (Nat.succ_pos n) (by simpa using hn) behind
            rw [List.drop_succ_cons] at hnone
            rw [hnone, Option.bind_none]
        rw [hskip, Option.bind_some]

/-! ## Times -/

/-- What stands behind a label: the spelling of a unit in parentheses, and the text in which the
number is expected. -/
def timeSlot (rest : List Char) : Option (List Char) × List Char :=
  match unitInParens? (skipBlanks rest) with
  | some (unit, others) => (some unit, skipBlanks (optionally [':'] (skipBlanks others)))
  | none => (none, skipBlanks (optionally [':'] (skipBlanks rest)))

/-- The number and the unit in a slot. -/
def timeIn? (rest : List Char) : Option (List Char × Option (List Char)) :=
  ((timeEndings (timeSlot rest).2).head?.map numberAndUnit).map fun (number, unit) =>
    (number, (timeSlot rest).1.or unit)

theorem timeAfter?_eq (label : String) (text : List Char) :
    timeAfter? label text = (word? label text).bind timeIn? := by
  unfold timeAfter? timeIn? timeSlot
  cases word? label text with
  | none => rfl
  | some rest =>
    simp only [Option.bind_eq_bind, Option.bind_some]
    cases unitInParens? (skipBlanks rest) with
    | none =>
      simp only
      cases (timeEndings (skipBlanks (optionally [':'] (skipBlanks rest)))).head? <;> rfl
    | some found =>
      simp only
      cases (timeEndings (skipBlanks (optionally [':'] (skipBlanks found.2)))).head? <;> rfl

/-- The labels of times. -/
def timeLabels : List String :=
  ["planning time", "search time", "heuristic time", "grounding time"]

theorem isLabel_of_mem_timeLabels {label : String} (h : label ∈ timeLabels) :
    label.toList ≠ [] ∧ (∀ w ∈ label.toList, w.toNat < 0x80) ∧ IsBorderless label.toList := by
  have hall : (timeLabels.all fun label => label.toList != [] &&
      (label.toList.all fun w => w.toNat < 0x80) &&
      (List.range label.toList.length).all fun n => n == 0 ||
        label.toList.drop n != label.toList.take (label.toList.length - n)) = true := by
    decide +kernel
  have hlabel := List.all_eq_true.mp hall label h
  simp only [Bool.and_eq_true, List.all_eq_true, List.mem_range, Bool.or_eq_true, beq_iff_eq,
    bne_iff_ne, decide_eq_true_eq] at hlabel
  exact ⟨hlabel.1.1, hlabel.1.2, fun n hn hpos => (hlabel.2 n hn).resolve_left (by omega)⟩

/-- A time as it is found, in seconds. -/
def foundSeconds (found : List Char × Option (List Char)) : Option Float :=
  (Decimal.float? found.1).map (inSeconds · found.2)

theorem firstTime?_eq (label : String) (text : List Char) :
    firstTime? label text =
      (firstFound? (fun text => (word? label text).bind timeIn?) text).bind foundSeconds := by
  have hscanner : timeAfter? label = fun text => (word? label text).bind timeIn? :=
    funext (timeAfter?_eq label)
  unfold firstTime?
  rw [hscanner]
  cases firstFound? (fun text => (word? label text).bind timeIn?) text with
  | none => rfl
  | some found =>
    simp only [Option.bind_eq_bind, Option.bind_some, foundSeconds]
    cases Decimal.float? found.1 <;> rfl

/-- The time that is read if a literal behind a label does not end one: that of the digits in front
of the point, or without a point the one behind the next label that fits. -/
def cutTime (label : String) (rest : List Char) (front : Option (List Char))
    (l : DecimalLiteral) : Option Float :=
  if l.fraction = [] then firstTime? label rest
  else (Decimal.float? l.whole).map (inSeconds · front)

/-- The time that is read where a label stands first, given what is behind the label and a literal
there. -/
def scrapedTime (label : String) (rest : List Char) (front : Option (List Char))
    (l : DecimalLiteral) (behind : List Char) : Option Float :=
  if l.exponent = [] ∧ EndsTime behind then l.seconds (front.or (unitBehind? behind))
  else cutTime label rest front l

/-- Where the label of a time stands first in a text, with a literal behind it. -/
structure IsTimeAt (label : String) (text rest : List Char) (front : Option (List Char))
    (l : DecimalLiteral) (behind : List Char) : Prop where
  first : firstFound? (word? label) text = some rest
  slot : timeSlot rest = (front, l.text ++ behind)
  ends : l.EndsBefore behind

theorem firstTime?_of_isTimeAt {label : String} (hlabel : label ∈ timeLabels)
    {text rest behind : List Char} {front : Option (List Char)} {l : DecimalLiteral}
    (h : IsTimeAt label text rest front l behind) :
    firstTime? label text = scrapedTime label rest front l behind := by
  obtain ⟨hne, hsmall, hborder⟩ := isLabel_of_mem_timeLabels hlabel
  have hhead := head?_timeEndings l.whole_ne_nil l.isDigit_of_mem_whole l.isDigit_of_mem_fraction
    h.ends.endsDigits
  have hslot : timeIn? rest =
      if l.exponent = [] ∧ EndsTime behind then some (l.number, front.or (unitBehind? behind))
      else if l.fraction = [] then none
      else some (l.whole, front) := by
    rw [timeIn?, h.slot, l.text_append, DecimalLiteral.number, hhead]
    simp only [DecimalLiteral.endsTime_exponent_append_iff]
    split_ifs with hwhole hfraction
    · rw [hwhole.1]
      rfl
    · rfl
    · simp
  rw [firstTime?_eq, firstFound?_label hne hsmall hborder timeIn? h.first, hslot, scrapedTime,
    cutTime]
  split_ifs with hwhole hfraction
  · have htext : l.text = l.number := by
      rw [DecimalLiteral.text, hwhole.1, List.append_nil]
    rw [DecimalLiteral.seconds, htext]
    rfl
  · rw [Option.none_or, ← firstTime?_eq]
  · rfl

/-! ## The cost -/

/-- What is behind a label of the plan's cost on a line. -/
def costLabelOn? (line : List Char) : Option (List Char) :=
  costLabel? (line.dropWhile fun c => c == ';' || isBlank c)

/-- The number behind a label of the plan's cost. -/
def costIn? (rest : List Char) : Option (List Char) :=
  (signedNumeral? (skipBlanks (optionally [':', '='] (skipBlanks rest)))).map Prod.fst

theorem planCost?_eq (line : List Char) : planCost? line = (costLabelOn? line).bind costIn? := by
  unfold planCost? costLabelOn? costIn?
  cases costLabel? (line.dropWhile fun c => c == ';' || isBlank c) with
  | none => rfl
  | some rest =>
    simp only [Option.bind_eq_bind, Option.bind_some]
    cases signedNumeral? (skipBlanks (optionally [':', '='] (skipBlanks rest))) <;> rfl

/-- Where a label of the plan's cost stands first in a text, with a sign and a literal behind it. -/
structure IsCostAt (text rest sign : List Char) (l : DecimalLiteral) (behind : List Char) : Prop where
  first : firstOnLine? costLabelOn? text = some rest
  sign_mem : sign ∈ [[], ['-']]
  slot : skipBlanks (optionally [':', '='] (skipBlanks rest)) = sign ++ (l.text ++ behind)
  ends : l.EndsBefore behind

theorem anywhere?_bind {α β : Type} {scanner : Option Char → List Char → Option α}
    {next : α → Option β} {before : Option Char} {text : List Char} {found : α} {value : β}
    (h : anywhere? scanner before text = some found) (hnext : next found = some value) :
    anywhere? (fun before text => (scanner before text).bind next) before text = some value := by
  induction text generalizing before with
  | nil =>
    rw [anywhere?] at h ⊢
    rw [h, Option.bind_some, hnext]
  | cons c rest ih =>
    rw [anywhere?] at h ⊢
    cases hscanner : scanner before (c :: rest) with
    | none =>
      rw [hscanner] at h
      simpa using ih h
    | some other =>
      rw [hscanner] at h
      obtain rfl : other = found := by simpa using h
      simp [hnext]

/-- The cost is read from the digits and the fraction. -/
theorem firstOnLine?_of_isCostAt {text rest sign behind : List Char} {l : DecimalLiteral}
    (h : IsCostAt text rest sign l behind) :
    firstOnLine? planCost? text = some (sign ++ l.number) := by
  have hscanner : atLineStart planCost? =
      fun before text => (atLineStart costLabelOn? before text).bind costIn? := by
    funext before text
    unfold atLineStart
    split
    · exact planCost?_eq text
    · split_ifs
      · exact planCost?_eq text
      · rfl
  have hnext : costIn? rest = some (sign ++ l.number) := by
    rw [costIn?, h.slot, DecimalLiteral.signedNumeral?_append h.sign_mem h.ends]
    rfl
  rw [firstOnLine?, hscanner]
  exact anywhere?_bind h.first hnext

/-! ## The report -/

/-- A time in a report: its label, where it is recorded, and what is read if there is none behind the
label. -/
structure TimeField where
  label : String
  value : Statistics → Option Float
  fallback : List Char → Option Float

/-- The times in a report.  A planning time is read from a comment if there is no other. -/
def timeFields : List TimeField :=
  [⟨"planning time", Statistics.planningTime,
      fun text => (firstOnLine? commentTime? text).bind Decimal.float?⟩,
    ⟨"search time", Statistics.searchTime, fun _ => none⟩,
    ⟨"heuristic time", Statistics.heuristicTime, fun _ => none⟩,
    ⟨"grounding time", fun report => report.grounding.bind Grounding.time, fun _ => none⟩]

theorem label_mem_timeLabels {field : TimeField} (h : field ∈ timeFields) :
    field.label ∈ timeLabels := by
  have hlabels : timeFields.map TimeField.label = timeLabels := rfl
  exact hlabels ▸ List.mem_map_of_mem h

theorem value_searchReport {field : TimeField} (h : field ∈ timeFields) (transcript : String) :
    field.value (searchReport transcript) =
      (firstTime? field.label transcript.toList).or (field.fallback transcript.toList) := by
  simp only [timeFields, List.mem_cons, List.not_mem_nil, or_false] at h
  rcases h with rfl | rfl | rfl | rfl
  · change (firstTime? "planning time" transcript.toList).orElse _ = _
    cases firstTime? "planning time" transcript.toList <;> rfl
  · exact Option.or_none.symm
  · exact Option.or_none.symm
  · -- a report without anything about grounding has no time either
    let grounding : Grounding :=
      { facts := firstCount? (setSize? 'f') transcript.toList
        actions := firstCount? (setSize? 'a') transcript.toList
        time := firstTime? "grounding time" transcript.toList }
    have hgrounding : (searchReport transcript).grounding =
        if grounding.isEmpty then none else some grounding := rfl
    have htime : grounding.isEmpty = true → grounding.time = none := by
      simp [Grounding.isEmpty]
    simp only [hgrounding, Option.or_none]
    split_ifs with hempty
    · exact (htime hempty).symm
    · rfl

/-- Whether nothing is read of a number, or all of it. -/
def IsNoneOr (full value : Option Float) : Prop :=
  value = none ∨ value = full

/-- **What is read of numbers behind labels.**  Wherever the label of a time or of the plan's cost
stands first, with a decimal literal behind it, the time is the one of `scrapedTime`, and the cost is
read from the literal without its exponent.  So all of the literal is read exactly if it has no
exponent and, in a time, no further word directly behind it, or if what is read instead happens to be
the same. -/
theorem scraped_numbers_read (transcript : String) :
    (∀ field ∈ timeFields, ∀ rest front l behind,
      IsTimeAt field.label transcript.toList rest front l behind →
        field.value (searchReport transcript) =
          (scrapedTime field.label rest front l behind).or (field.fallback transcript.toList) ∧
        (l.seconds (front.or (unitBehind? behind)) ≠ none →
          (IsNoneOr (l.seconds (front.or (unitBehind? behind)))
              (field.value (searchReport transcript)) ↔
            (l.exponent = [] ∧ EndsTime behind) ∨
              IsNoneOr (l.seconds (front.or (unitBehind? behind)))
                ((cutTime field.label rest front l).or (field.fallback transcript.toList))))) ∧
    ∀ rest sign l behind, IsCostAt transcript.toList rest sign l behind →
      (searchReport transcript).planCost = Decimal.float? (sign ++ l.number) ∧
        (IsNoneOr (Decimal.float? (sign ++ l.text)) (searchReport transcript).planCost ↔
          l.exponent = [] ∨
            IsNoneOr (Decimal.float? (sign ++ l.text)) (Decimal.float? (sign ++ l.number))) := by
  refine ⟨fun field hfield rest front l behind htime => ?_, fun rest sign l behind hcost => ?_⟩
  · have hvalue : field.value (searchReport transcript) =
        (scrapedTime field.label rest front l behind).or (field.fallback transcript.toList) := by
      rw [value_searchReport hfield, firstTime?_of_isTimeAt (label_mem_timeLabels hfield) htime]
    refine ⟨hvalue, fun hfull => ?_⟩
    rw [hvalue, scrapedTime]
    split_ifs with hends
    · obtain ⟨full, hfull⟩ := Option.ne_none_iff_exists'.mp hfull
      simp [hends, hfull, IsNoneOr]
    · simp [hends]
  · have hplanCost : (searchReport transcript).planCost =
        (firstOnLine? planCost? transcript.toList).bind Decimal.float? := rfl
    have hcost : (searchReport transcript).planCost = Decimal.float? (sign ++ l.number) := by
      rw [hplanCost, firstOnLine?_of_isCostAt hcost, Option.bind_some]
    refine ⟨hcost, ?_⟩
    rw [hcost, iff_or_self]
    intro hexponent
    exact .inr (by rw [DecimalLiteral.text, hexponent, List.append_nil])

/-- The literal `2.50`. -/
def plainLiteral : DecimalLiteral where
  whole := ['2']
  fraction := ['5', '0']
  exponent := []
  whole_ne_nil := by decide
  isDigit_of_mem_whole := List.all_eq_true.mp (by decide +kernel)
  isDigit_of_mem_fraction := List.all_eq_true.mp (by decide +kernel)
  isExponent := .inl rfl

/-- A time and a cost that are read as they are written. -/
theorem plain_numbers_read :
    let transcript := "Search time: 2.50ms\n; Cost = 2.50"
    (searchReport transcript).searchTime = plainLiteral.seconds (some ['m', 's']) ∧
      (searchReport transcript).planCost = Decimal.float? plainLiteral.text := by
  intro transcript
  let field : TimeField := ⟨"search time", Statistics.searchTime, fun _ => none⟩
  let behind := "ms\n; Cost = 2.50".toList
  have htime : IsTimeAt field.label transcript.toList ": 2.50ms\n; Cost = 2.50".toList none
      plainLiteral behind :=
    { first := by decide +kernel
      slot := by decide +kernel
      ends := DecimalLiteral.endsBefore_cons (by decide +kernel) (by decide) (by decide) _ }
  have hcost : IsCostAt transcript.toList " = 2.50".toList [] plainLiteral [] :=
    { first := by decide +kernel
      sign_mem := by decide
      slot := by decide +kernel
      ends := plainLiteral.endsBefore_nil }
  have hends : EndsTime behind := by decide +kernel
  have hunit : unitBehind? behind = some ['m', 's'] := by decide +kernel
  obtain ⟨htimes, hcosts⟩ := scraped_numbers_read transcript
  refine ⟨?_, (hcosts _ _ _ _ hcost).1⟩
  have hread := (htimes field (by simp [field, timeFields]) _ _ _ _ htime).1
  rw [scrapedTime, if_pos ⟨rfl, hends⟩, hunit] at hread
  exact hread.trans Option.or_none

/-- The literal `1.5e-3`. -/
def tinyLiteral : DecimalLiteral where
  whole := ['1']
  fraction := ['5']
  exponent := ['e', '-', '3']
  whole_ne_nil := by decide
  isDigit_of_mem_whole := List.all_eq_true.mp (by decide +kernel)
  isDigit_of_mem_fraction := List.all_eq_true.mp (by decide +kernel)
  isExponent := .inr ⟨'e', by decide, ['-'], by decide, ['3'], by decide,
    List.all_eq_true.mp (by decide +kernel), rfl⟩

/-- Not every number is read as it is written: of the literal `1.5e-3` a search time gets the first
digit. -/
theorem not_numbers_whole :
    ¬∀ (transcript : String), ∀ field ∈ timeFields, ∀ rest front l behind,
      IsTimeAt field.label transcript.toList rest front l behind →
        field.value (searchReport transcript) = none ∨
          field.value (searchReport transcript) = l.seconds (front.or (unitBehind? behind)) := by
  intro h
  let transcript := "Search time: 1.5e-3"
  let field : TimeField := ⟨"search time", Statistics.searchTime, fun _ => none⟩
  have htime : IsTimeAt field.label transcript.toList ": 1.5e-3".toList none tinyLiteral [] :=
    { first := by decide +kernel
      slot := by decide +kernel
      ends := tinyLiteral.endsBefore_nil }
  have hread : (searchReport transcript).searchTime.any (· == 1.0) = true := by decide +kernel
  have hwritten : (tinyLiteral.seconds none).any (· == 1.0) = false := by decide +kernel
  rcases h transcript field (by simp [field, timeFields]) _ _ _ _ htime with hnone | hwhole
  · have hnone : (searchReport transcript).searchTime = none := hnone
    simp [hnone] at hread
  · have hwhole : (searchReport transcript).searchTime = tinyLiteral.seconds none := hwhole
    rw [hwhole, hwritten] at hread
    cases hread

end PlanPlayback.Transcript
