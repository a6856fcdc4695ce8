import PlanPlayback.Proofs.Plan.Assembly
import PlanPlayback.Proofs.Text.LowerCase
import PlanPlayback.Proofs.Transcript.Printing
import PlanPlayback.Transcript.PlanReading

/-!
# The body of a printed plan

A plan that is made only of printed lines is all body.  Nothing in it is taken for an announcement,
a comment or a report on the search, so that no line of it is lost before the rules are tried.  If
each line is recognised by itself, then all of them together give the plan (`planIn?_eq`).

An announcement ends with a colon, and a line of an action has its only colon behind a time.  So it
announces nothing, whatever its tokens are and whatever blank space is around it
(`announces_lineOf`).
-/

namespace PlanPlayback.Transcript

open Binary64 Decimal Text

/-- A line that is kept as it is, and after which the plan goes on. -/
structure IsBodyLine (line : List Char) : Prop where
  announces : announces line = false
  trim : trim line = line
  ne_nil : line ≠ []
  isComment : isComment line = false
  opensStatistics : opensStatistics line = false

theorem map_trim_eq_self {all : List (List Char)} (h : ∀ line ∈ all, IsBodyLine line) :
    all.map trim = all := by
  conv_rhs => rw [← List.map_id all]
  exact List.map_congr_left fun line hline => (h line hline).trim

theorem bodyLines_eq {text : String} (h : ∀ line ∈ lines text.toList, IsBodyLine line) :
    bodyLines text = lines text.toList := by
  have hafter : afterAnnouncement (lines text.toList) = lines text.toList := by
    unfold afterAnnouncement
    have hnone : ∀ line ∈ lines text.toList, (!announces line) = true := by
      intro line hline
      rw [(h line hline).announces]
      rfl
    rw [dropWhile_eq_nil hnone]
  have hkept : (lines text.toList).filter (fun line => !line.isEmpty && !isComment line) =
      lines text.toList := by
    rw [List.filter_eq_self]
    intro line hline
    simp [(h line hline).ne_nil, (h line hline).isComment]
  have hbody : ∀ line ∈ lines text.toList, (!opensStatistics line) = true := by
    intro line hline
    rw [(h line hline).opensStatistics]
    rfl
  simp only [bodyLines, hafter, map_trim_eq_self h, hkept, takeWhile_eq_self hbody]

/-- Reports on the search begin with letters. -/
theorem opensStatistics_cons {c : Char} (hc : c.isDigit = true ∨ c = '(') (rest : List Char) :
    opensStatistics (c :: rest) = false := by
  have hword {word : String} {w : Char} {letters : List Char} (hword : word.toList = w :: letters)
      (hdigit : w.isDigit = false) (hparen : matchesIgnoringCase w '(' = false) :
      word? word (c :: rest) = none := by
    rcases hc with hc | rfl
    · exact word?_cons_of_isDigit hword hdigit hc rest
    · simp [word?, hword, wordChars?, hparen]
  have hlength : word? "plan-length" (c :: rest) = none := hword rfl rfl (by decide)
  have hmetric : word? "metric" (c :: rest) = none := hword rfl rfl (by decide)
  have hplanning : word? "planning time" (c :: rest) = none := hword rfl rfl (by decide)
  have hsearch : word? "search time" (c :: rest) = none := hword rfl rfl (by decide)
  have hexpanded : word? "expanded nodes" (c :: rest) = none := hword rfl rfl (by decide)
  simp [opensStatistics, hlength, hmetric, hplanning, hsearch, hexpanded]

theorem announces_of_colonFree {line : List Char} (hcolon : ':' ∉ line) :
    announces line = false := by
  rw [Bool.eq_false_iff, announces, Ne, hasPart_iff]
  intro hpart
  have hmem : ':' ∈ lowercase line := hpart.subset (by decide)
  exact hcolon (mem_of_mem_lowercaseAfter hmem (by decide))

/-- The only colon of a line does not stand behind a word. -/
theorem announces_append_cons {front rest : List Char} (hsmall : ∀ c ∈ front, IsSmall c)
    (hfront : ∀ c ∈ front, c ≠ 'n' ∧ c ≠ ':') (hrest : ':' ∉ rest) :
    announces (front ++ ':' :: rest) = false := by
  have hcolon : ∀ c ∈ front ++ [':'], IsSmall c := by
    intro c hc
    rcases List.mem_append.mp hc with hc | hc
    · exact hsmall c hc
    · rw [List.mem_singleton.mp hc]
      exact isSmall_of_isMark rfl
  obtain ⟨before, himage⟩ := lowercaseAfter_append_of_isSmall hcolon [] rest
  have hlower : lowercase (front ++ ':' :: rest) = front ++ ':' :: lowercaseAfter before rest := by
    simpa [lowercase] using himage
  rw [Bool.eq_false_iff, announces, hlower, Ne, hasPart_iff]
  rintro ⟨first, last, hline⟩
  have hcue : announcement.toList = "found plan".toList ++ [':'] := rfl
  have hsplit : front ++ ':' :: lowercaseAfter before rest =
      (first ++ "found plan".toList) ++ ':' :: last := by
    rw [← hline, hcue]
    simp
  have himageRest : ':' ∉ lowercaseAfter before rest :=
    fun h => hrest (mem_of_mem_lowercaseAfter h (by decide))
  obtain ⟨hword, -, -⟩ :=
    (List.append_cons_inj_of_notMem (fun h => (hfront _ h).2 rfl) himageRest).mp hsplit
  exact (hfront 'n' (by simp [hword])).1 rfl

theorem announces_lineOf {time : PlainNumeral} {tokens : List (List Char)} {behind : List Char}
    (htokens : ∀ token ∈ tokens, ':' ∉ token) (hbehind : ':' ∉ behind) {front back : List Char}
    (hfront : ∀ c ∈ front, isBlank c = true) (hback : ∀ c ∈ back, isBlank c = true) :
    announces (front ++ (lineOf time tokens behind ++ back)) = false := by
  have hdigits : ∀ c ∈ time.text, IsSmall c ∧ c ≠ 'n' ∧ c ≠ ':' := by
    intro c hc
    have hmem := time.forall_mem_text
      (P := fun c => decide (IsSmall c ∧ c ≠ 'n' ∧ c ≠ ':')) (by decide) c hc
    exact of_decide_eq_true hmem
  have hblank {c : Char} (hc : isBlank c = true) : IsSmall c ∧ c ≠ 'n' ∧ c ≠ ':' := by
    refine ⟨isSmall_of_isMark (by simp [isMark, Token.isPlain, hc]), ?_, ?_⟩
    · rintro rfl
      exact absurd hc (by decide)
    · rintro rfl
      exact absurd hc (by decide)
  have hstart : ∀ c ∈ front ++ time.text, IsSmall c ∧ c ≠ 'n' ∧ c ≠ ':' := by
    intro c hc
    rcases List.mem_append.mp hc with hc | hc
    · exact hblank (hfront c hc)
    · exact hdigits c hc
  have hrest : ':' ∉ ' ' :: (grouped tokens ++ behind) ++ back := by
    rw [List.mem_append, List.mem_cons, List.mem_append]
    rintro ((h | h | h) | h)
    · exact absurd h (by decide)
    · rcases mem_grouped h with h | ⟨token, htoken, h⟩
      · exact absurd h (by decide)
      · exact htokens token htoken h
    · exact hbehind h
    · exact (hblank (hback _ h)).2.2 rfl
  have hline := announces_append_cons (fun c hc => (hstart c hc).1) (fun c hc => (hstart c hc).2)
    hrest
  simpa [lineOf] using hline

theorem isBodyLine_lineOf {time : PlainNumeral} {tokens : List (List Char)} {behind : List Char}
    (htokens : ∀ token ∈ tokens, ∀ c ∈ token, IsSmall c ∧ c ≠ ':')
    (hbehind : ∀ c ∈ behind, IsSmall c ∧ c ≠ ':')
    (hlast : ∀ c ∈ behind.getLast?, isBlank c = false) :
    IsBodyLine (lineOf time tokens behind) := by
  obtain ⟨c, rest, hline, hc⟩ := @exists_lineOf_eq_cons time tokens behind
  have hhead : ∀ d ∈ (lineOf time tokens behind).head?, isBlank d = false := by
    rw [hline]
    rintro d ⟨⟩
    exact isBlank_of_isDigit hc
  have hannounces : announces (lineOf time tokens behind) = false := by
    have hempty : ∀ d ∈ ([] : List Char), isBlank d = true := by simp
    simpa using @announces_lineOf time tokens behind
      (fun token htoken h => (htokens token htoken _ h).2 rfl) (fun h => (hbehind _ h).2 rfl)
      [] [] hempty hempty
  refine ⟨hannounces, trim_eq_self hhead ?_, by simp [hline], ?_, ?_⟩
  · intro d hd
    rw [getLast?_lineOf] at hd
    cases hend : behind.getLast? with
    | none =>
      obtain rfl : ')' = d := by simpa [hend] using hd
      decide
    | some e => exact hlast d (by simpa [hend] using hd)
  · have hmark : (c != ';' && c != '#') = true :=
      of_isDigit (P := fun d => d != ';' && d != '#') (by decide) hc
    simpa [hline, isComment] using hmark
  · rw [hline]
    exact opensStatistics_cons (.inl hc) rest

/-! ## Reading all lines -/

theorem lines_eq_map {text : String} {all : List String} (h : linesOf text = all) :
    lines text.toList = all.map String.toList := by
  rw [← h, linesOf, List.map_map]
  simp [Function.comp_def]

section

variable {dialect : Dialect} {settings : DurationSettings} {actions : List Action}
  {print : Action → String} {record : Action → Action}

theorem actionsOn_eq_map {position : ℕ} (hread : ∀ a ∈ actions, ∀ position,
      actionOnLine dialect settings position (print a).toList = some (record a)) :
    actionsOn dialect settings position ((actions.map print).map String.toList) =
      actions.map record := by
  induction actions generalizing position with
  | nil => rfl
  | cons a rest ih =>
    have hrest := @ih (position + 1) fun b hb => hread b (List.mem_cons_of_mem _ hb)
    simp only [List.map_cons, actionsOn, hread a (by simp) position, hrest]

theorem planIn?_eq {text : String} (hne : actions ≠ []) (htext : linesOf text = actions.map print)
    (hbody : ∀ a ∈ actions, IsBodyLine (print a).toList)
    (hread : ∀ a ∈ actions, ∀ position,
      actionOnLine dialect settings position (print a).toList = some (record a)) :
    planIn? dialect settings text =
      some (Plan.assemble dialect (actions.map record) (searchReport text)) := by
  have hlines : lines text.toList = (actions.map print).map String.toList := lines_eq_map htext
  have hkept : bodyLines text = (actions.map print).map String.toList := by
    rw [← hlines]
    refine bodyLines_eq fun line hline => ?_
    rw [hlines, List.map_map] at hline
    obtain ⟨a, ha, rfl⟩ := List.mem_map.mp hline
    exact hbody a ha
  have hfound : (actions.map record).isEmpty = false := by simpa using hne
  rw [planIn?, hkept, actionsOn_eq_map hread, hfound]
  rfl

end

section

variable {actions : List Action} {duration : Action → Float} {rule : String}

theorem pairwise_recorded (hprintable : ∀ a ∈ actions, IsPrintable a)
    (hsorted : actions.Pairwise fun a b => a.start ≤ b.start) :
    (actions.map fun a => a.recorded (duration a) rule).Pairwise
      fun a b => a.place ≤ b.place := by
  have hplace (a : Action) (ha : a ∈ actions) :
      (a.recorded (duration a) rule).place = orderKey a.start :=
    Action.place_of_isNumber (isNumber_of_finite (hprintable a ha).isFinite)
  rw [List.pairwise_map]
  refine hsorted.imp_of_mem fun {a b} ha hb hle => ?_
  rw [hplace a ha, hplace b hb]
  exact orderKey_le_of_le (hprintable a ha).zero_le (hprintable b hb).zero_le hle

/-- Actions that were printed in order are put into a plan in this order. -/
theorem actions_assemble_recorded (hprintable : ∀ a ∈ actions, IsPrintable a)
    (hsorted : actions.Pairwise fun a b => a.start ≤ b.start) (dialect : Dialect)
    (statistics : Statistics) :
    (Plan.assemble dialect (actions.map fun a => a.recorded (duration a) rule) statistics).actions =
      actions.mapIdx fun i a => { a.recorded (duration a) rule with id := Plan.actionId i } := by
  rw [Plan.actions_assemble_eq (pairwise_recorded hprintable hsorted)]
  exact List.ext_getElem (by simp) (by simp)

end

end PlanPlayback.Transcript
