import PlanPlayback.Proofs.Sexpr.RoundTrip
import PlanPlayback.Proofs.Text.LowerCase
import PlanPlayback.Proofs.Transcript.BodyLines
import PlanPlayback.Transcript.PlanReading
import PlanPlayback.Transcript.SolutionFile

/-!
# Temporal plans survive printing

A plan with times and durations is printed as one line for each action, and both readers read the
plan again from these lines: the one that tries the rules of the temporal dialect, and the one for
solution files, which takes a line apart at its parentheses and reads the call as an s-expression.

## Strategy

Each reader is followed on a single line first.  The rules are tried in order, and the first of them
fits.  The reader of solution files finds the start in front of the parenthesis and the duration in
the brackets behind it, and one duration is enough to make the whole file temporal.  No line is left
out on the way, because all of them are body lines, and sorting changes nothing.
-/

namespace PlanPlayback.Transcript

open Binary64 Decimal Text
open Token (IsWord)

/-- An action that is printed with its duration. -/
structure IsLasting (a : Action) : Prop extends IsPrintable a where
  isFinite_duration : a.duration.isFinite = true
  pos : 0.0 < a.duration
  colonFree : ∀ token ∈ a.tokens, ':' ∉ token.toList

instance (a : Action) : Decidable (IsLasting a) :=
  decidable_of_iff (IsPrintable a ∧ a.duration.isFinite = true ∧ 0.0 < a.duration ∧
      ∀ token ∈ a.tokens, ':' ∉ token.toList)
    ⟨fun h => ⟨h.1, h.2.1, h.2.2.1, h.2.2.2⟩,
      fun h => ⟨h.toIsPrintable, h.isFinite_duration, h.pos, h.colonFree⟩⟩

/-- What stands behind the call. -/
def durationText (duration : PlainNumeral) : List Char :=
  ' ' :: '[' :: (duration.text ++ [']'])

theorem of_mem_durationText {duration : PlainNumeral} {c : Char} (hc : c ∈ durationText duration) :
    IsSmall c ∧ c ≠ ':' := by
  have hdigits := duration.forall_mem_text
    (show List.all _ (fun c => decide (IsSmall c) && c != ':') = true by decide)
  simp only [durationText, List.mem_cons, List.mem_append, List.not_mem_nil, or_false] at hc
  rcases hc with rfl | rfl | hc | rfl
  · decide
  · decide
  · simpa using hdigits c hc
  · decide

namespace IsLasting

variable {a : Action}

theorem exists_duration_eq (h : IsLasting a) :
    ∃ duration : PlainNumeral, (positional a.duration).toList = duration.text ∧
      Decimal.float? duration.text = some a.duration := by
  obtain ⟨duration, hduration⟩ :=
    exists_positional_eq_text h.isFinite_duration (signOf_of_pos h.pos)
  exact ⟨duration, hduration, hduration ▸ float?_positional h.isFinite_duration⟩

/-- The line of an action in its parts, with what is read from its numbers. -/
theorem exists_line_eq (h : IsLasting a) :
    ∃ time duration : PlainNumeral,
      (lastingText a).toList = lineOf time (wordsOfAction a) (durationText duration) ∧
        Decimal.float? time.text = some a.start ∧
          Decimal.float? duration.text = some a.duration := by
  obtain ⟨time, htime, hstart⟩ := h.exists_start_eq
  obtain ⟨duration, hduration, hread⟩ := h.exists_duration_eq
  refine ⟨time, duration, ?_, hstart, hread⟩
  rw [toList_lastingText htime, hduration]
  rfl

theorem isBodyLine (h : IsLasting a) : IsBodyLine (lastingText a).toList := by
  obtain ⟨time, duration, hline, -⟩ := h.exists_line_eq
  rw [hline]
  refine isBodyLine_lineOf (h.isSmall_and_ne_colon h.colonFree)
    (fun c => of_mem_durationText) ?_
  have hclosing : durationText duration = (' ' :: '[' :: duration.text) ++ [']'] := rfl
  rw [hclosing, List.getLast?_concat]
  rintro c ⟨⟩
  decide

theorem statedDuration_eq (h : IsLasting a) (settings : DurationSettings) :
    statedDuration settings a.duration = a.duration := by
  have hnot : ¬a.duration ≤ 0.0 :=
    (Binary64.not_le (isNumber_of_finite h.isFinite_duration) isNumber_zero).mpr h.pos
  rw [statedDuration, if_neg hnot]

/-! ## The rules of the temporal dialect -/

theorem temporalLine_eq (h : IsLasting a) (settings : DurationSettings) (position : ℕ) :
    temporalLine settings position (lastingText a).toList =
      some (a.recorded a.duration "bracket-duration") := by
  obtain ⟨time, duration, hline, hstart, hread⟩ := h.exists_line_eq
  have hscan : scanBracketDuration (lastingText a).toList =
      some ⟨.lasting time.text duration.text, a.name.toList, a.args.map String.toList⟩ := by
    rw [hline]
    exact scanBracketDuration_lineOf h.isWord duration
  have htimes : (TimeText.lasting time.text duration.text).read? settings position =
      some (a.start, a.duration) := by
    simp [TimeText.read?, hstart, hread, h.statedDuration_eq]
  have hrule := h.apply_eq_recorded ⟨"bracket-duration", .bracketDuration⟩ hscan htimes rfl
  rw [larger_eq_left (Binary64.le_of_lt h.pos)] at hrule
  rw [temporalLine, firstApplying, temporalRules, List.findSome?_cons, hrule]
  rfl

end IsLasting

/-! ## Solution files -/

theorem isBlank_of_mem_text {p : PlainNumeral} {c : Char} (hc : c ∈ p.text) :
    isBlank c = false ∧ c ≠ ':' := by
  simpa using p.forall_mem_text (P := fun c => !isBlank c && c != ':') (by decide) c hc

theorem trim_text (p : PlainNumeral) : trim p.text = p.text :=
  trim_eq_self (fun _ hc => (isBlank_of_mem_text (List.mem_of_mem_head? hc)).1)
    fun _ hc => (isBlank_of_mem_text (List.mem_of_getLast? hc)).1

/-- A time with a colon behind it is the label of a line. -/
theorem trim_dropColons_trim (time : PlainNumeral) :
    trim (dropColons (trim (time.text ++ [':', ' ']))) = time.text := by
  have hspace : trim (time.text ++ [':', ' ']) = time.text ++ [':'] := by
    have hsplit : time.text ++ [':', ' '] = (time.text ++ [':']) ++ [' '] := by simp
    have hblank : ∀ c ∈ time.text ++ [':'], isBlank c = false := by
      intro c hc
      rcases List.mem_append.mp hc with hc | hc
      · exact (isBlank_of_mem_text hc).1
      · rw [List.mem_singleton.mp hc]
        decide
    rw [hsplit]
    exact trim_concat (by simp) (by decide) (fun c hc => hblank c (List.mem_of_mem_head? hc))
      fun c hc => hblank c (List.mem_of_getLast? hc)
  have hcolon : dropColons (time.text ++ [':']) = time.text := by
    have hkept : ∀ c ∈ time.text.reverse.head?, (c == ':') = false := by
      intro c hc
      simpa using (isBlank_of_mem_text (List.mem_reverse.mp (List.mem_of_mem_head? hc))).2
    have hdropped := @dropWhile_append_eq _ (· == ':') [':'] time.text.reverse (by simp) hkept
    rw [dropColons, List.reverse_append, List.reverse_singleton, hdropped, List.reverse_reverse]
  rw [hspace, hcolon, trim_text]

theorem of?_lineOf {time : PlainNumeral} {tokens : List (List Char)} {behind : List Char}
    {start : Float} (htokens : ∀ token ∈ tokens, IsWord token)
    (hread : Decimal.float? time.text = some start) :
    SolutionEntry.of? (lineOf time tokens behind) =
      some ⟨some start, grouped tokens, behind, .quiet false⟩ := by
  have hline : lineOf time tokens behind =
      (time.text ++ [':', ' ']) ++ '(' :: (spaced tokens ++ ')' :: behind) := by
    simp [lineOf, grouped]
  have hfront : ∀ c ∈ time.text ++ [':', ' '], (c != '(') = true := by
    intro c hc
    rcases List.mem_append.mp hc with hc | hc
    · exact time.forall_mem_text (P := fun c => c != '(') (by decide) c hc
    · have hmarks : [':', ' '].all (fun c => c != '(') = true := by decide
      exact List.all_eq_true.mp hmarks c hc
  have hinside : ∀ c ∈ spaced tokens, (c != ')') = true := by
    intro c hc
    simpa using (not_isParen_of_mem_spaced htokens hc).2
  have hopening : ∀ c ∈ ('(' :: (spaced tokens ++ ')' :: behind)).head?, (c != '(') = false := by
    rintro c ⟨⟩
    rfl
  have hclosing : ∀ c ∈ (')' :: behind).head?, (c != ')') = false := by
    rintro c ⟨⟩
    rfl
  have hne : time.text.isEmpty = false := by
    obtain ⟨c, rest, htext, -⟩ := time.exists_text_eq_cons
    rw [htext]
    rfl
  have hminus : (time.text.head? == some '-') = false := by
    obtain ⟨c, rest, htext, hc⟩ := time.exists_text_eq_cons
    have hdigit : (c == '-') = false := by
      simpa using of_isDigit (P := fun d => d != '-') (by decide) hc
    simp [htext, beq_eq_false_iff_ne.mp hdigit]
  simp only [SolutionEntry.of?, hline, takeWhile_append_eq hfront hopening,
    dropWhile_append_eq hfront hopening, takeWhile_append_eq hinside hclosing,
    dropWhile_append_eq hinside hclosing, trim_dropColons_trim, hne, hread, hminus, Bool.and_false]
  rfl

theorem bracketNumber?_durationText {duration : PlainNumeral} {d : Float}
    (hread : Decimal.float? duration.text = some d) :
    bracketNumber? (durationText duration) = some d := by
  have hinside : ∀ c ∈ duration.text, (c != ']') = true :=
    duration.forall_mem_text (by decide)
  have hclosing : ∀ c ∈ [']'].head?, (c != ']') = false := by
    rintro c ⟨⟩
    rfl
  have hfront : (durationText duration).dropWhile (· != '[') =
      '[' :: (duration.text ++ [']']) :=
    rfl
  simp [bracketNumber?, hfront, takeWhile_append_eq hinside hclosing, trim_text, hread]

/-- A call is read as one list of atoms. -/
theorem readForms_grouped {tokens : List (List Char)} (h : ∀ token ∈ tokens, IsWord token) :
    Sexpr.readForms (String.ofList (grouped tokens)) =
      [.list (tokens.map fun token => .atom (String.ofList token))] := by
  have hatoms : (tokens.map fun token => Sexpr.atom (String.ofList token)).map Sexpr.render =
      tokens.map String.ofList := by
    simp [Sexpr.render]
  have hrender : String.ofList (grouped tokens) =
      (Sexpr.list (tokens.map fun token => .atom (String.ofList token))).render := by
    apply String.toList_injective
    rw [Sexpr.toList_render_list, Sexpr.renderItems_eq_intercalate, hatoms,
      String.toList_intercalate, List.map_map]
    simp [grouped, spaced]
  have hleaves : Sexpr.leavesAll [.list (tokens.map fun token => .atom (String.ofList token))] =
      tokens.map String.ofList := by
    rw [Sexpr.leavesAll_singleton, Sexpr.leaves, ← Sexpr.leavesAll_map_atom (tokens.map _),
      List.map_map]
    rfl
  have hwords : ∀ word ∈ Sexpr.leavesAll
      [.list (tokens.map fun token => .atom (String.ofList token))], IsWord word.toList := by
    rw [hleaves]
    intro word hword
    obtain ⟨token, htoken, rfl⟩ := List.mem_map.mp hword
    rw [String.toList_ofList]
    exact h token htoken
  rw [hrender]
  simpa using Sexpr.readForms_intercalate_render hwords

/-- Name and arguments are found again in lower case. -/
theorem call?_grouped {name : List Char} {args : List (List Char)}
    (h : ∀ token ∈ name :: args, IsWord token) (time : Option Float) (behind : List Char)
    (timeBits : NaNBits) :
    SolutionEntry.call? ⟨time, grouped (name :: args), behind, timeBits⟩ =
      some (String.ofList (lowercase name), args.map fun arg => String.ofList (lowercase arg)) := by
  have hwords : ∀ token ∈ (name :: args).map lowercase, IsWord token := by
    intro token htoken
    obtain ⟨word, hword, rfl⟩ := List.mem_map.mp htoken
    exact isWord_lowercase (h word hword)
  rw [SolutionEntry.call?, lowercase_grouped, readForms_grouped hwords]
  simp [List.filterMap_map, Function.comp_def, Sexpr.atom?]

variable {a : Action}

theorem call?_eq (h : IsPrintable a) (time : Option Float) (behind : List Char)
    (timeBits : NaNBits) :
    SolutionEntry.call? ⟨time, grouped (wordsOfAction a), behind, timeBits⟩ =
      some (a.name, a.args) := by
  have hcall := call?_grouped h.isWord time behind timeBits
  rw [h.ofList_lowercase_name] at hcall
  refine hcall.trans ?_
  simpa using h.ofList_lowercase_args

/-- The line of an action, as the reader of solution files takes it apart. -/
theorem IsLasting.exists_entry (h : IsLasting a) :
    ∃ entry : SolutionEntry, SolutionEntry.of? (lastingText a).toList = some entry ∧
      bracketNumber? entry.rest = some a.duration ∧
      ∀ settings position, entry.toAction? .temporal settings position =
        some (a.recorded a.duration "solution") := by
  obtain ⟨time, duration, hline, hstart, hread⟩ := h.exists_line_eq
  refine ⟨⟨some a.start, grouped (wordsOfAction a), durationText duration, .quiet false⟩, ?_,
    bracketNumber?_durationText hread, fun settings position => ?_⟩
  · rw [hline, of?_lineOf h.isWord hstart]
  · simp [SolutionEntry.toAction?, call?_eq h.toIsPrintable, bracketNumber?_durationText hread,
      h.statedDuration_eq, Action.make, larger_eq_left (Binary64.le_of_lt h.pos), Action.recorded]

theorem solutionActions_eq_map {settings : DurationSettings} {position : ℕ}
    {actions : List Action} (h : ∀ a ∈ actions, IsLasting a) :
    solutionActions .temporal settings position
        (((actions.map lastingText).map String.toList).filterMap SolutionEntry.of?) =
      actions.map fun a => a.recorded a.duration "solution" := by
  induction actions generalizing position with
  | nil => rfl
  | cons a rest ih =>
    obtain ⟨entry, hentry, -, haction⟩ := (h a (by simp)).exists_entry
    have hrest := @ih (position + 1) fun b hb => h b (List.mem_cons_of_mem _ hb)
    simp only [List.map_cons, List.filterMap_cons, hentry, solutionActions, haction, hrest]

theorem solutionLines_eq {all : List (List Char)} (h : ∀ line ∈ all, IsBodyLine line) :
    solutionLines all = all.filterMap SolutionEntry.of? := by
  have hkept : all.filter (fun line => !line.isEmpty && line.head? != some ';') = all := by
    rw [List.filter_eq_self]
    intro line hline
    obtain ⟨c, rest, rfl⟩ := List.exists_cons_of_ne_nil (h line hline).ne_nil
    have hcomment := (h _ hline).isComment
    simp_all [isComment]
  rw [solutionLines, map_trim_eq_self h, hkept]

theorem solution?_eq {settings : DurationSettings} {actions : List Action} {text : String}
    (hne : actions ≠ []) (htext : linesOf text = actions.map lastingText)
    (h : ∀ a ∈ actions, IsLasting a) : ∃ statistics, solution? settings text =
      some (Plan.assemble .temporal (actions.map fun a => a.recorded a.duration "solution")
        statistics) := by
  have hlines : lines text.toList = (actions.map lastingText).map String.toList :=
    lines_eq_map htext
  have hbody : ∀ line ∈ lines text.toList, IsBodyLine line := by
    intro line hline
    rw [hlines, List.map_map] at hline
    obtain ⟨a, ha, rfl⟩ := List.mem_map.mp hline
    exact (h a ha).isBodyLine
  -- one action with a duration makes the file temporal
  have hdialect : dialectOfLines (solutionLines (lines text.toList)) = .temporal := by
    obtain ⟨a, rest, rfl⟩ := List.exists_cons_of_ne_nil hne
    obtain ⟨entry, hentry, hbracket, -⟩ := (h a (by simp)).exists_entry
    rw [solutionLines_eq hbody, hlines, List.map_cons, List.map_cons, List.filterMap_cons, hentry]
    simp [dialectOfLines, hbracket]
  have hactions : solutionActions .temporal settings 0 (solutionLines (lines text.toList)) =
      actions.map fun a => a.recorded a.duration "solution" := by
    rw [solutionLines_eq hbody, hlines, solutionActions_eq_map h]
  have hfound : (actions.map fun a => a.recorded a.duration "solution").isEmpty = false := by
    simpa using hne
  simp only [solution?, hdialect, hactions, hfound]
  exact ⟨_, rfl⟩

/-- **Temporal plans survive printing.**  Both readers find the actions of a printed plan again, in
their order and with their times, and agree on how long the plan lasts. -/
theorem temporal_plan_of_printed_lines (settings : DurationSettings) {actions : List Action}
    {text : String} (hne : actions ≠ []) (hlasting : ∀ a ∈ actions, IsLasting a)
    (hsorted : actions.Pairwise fun a b => a.start ≤ b.start)
    (htext : linesOf text = actions.map lastingText) :
    ∃ p q, planIn? .temporal settings text = some p ∧ solution? settings text = some q ∧
      p.dialect = .temporal ∧ q.dialect = .temporal ∧
      p.actions = actions.mapIdx (fun i a =>
        { a.recorded a.duration "bracket-duration" with id := Plan.actionId i }) ∧
      q.actions = actions.mapIdx (fun i a =>
        { a.recorded a.duration "solution" with id := Plan.actionId i }) ∧
      p.totalDuration = q.totalDuration := by
  have hread : ∀ a ∈ actions, ∀ position,
      actionOnLine .temporal settings position (lastingText a).toList =
        some (a.recorded a.duration "bracket-duration") :=
    fun a ha position => (hlasting a ha).temporalLine_eq settings position
  have hplan := planIn?_eq hne htext (fun a ha => (hlasting a ha).isBodyLine) hread
  obtain ⟨statistics, hsolution⟩ := @solution?_eq settings actions text hne htext hlasting
  have hprintable : ∀ a ∈ actions, IsPrintable a := fun a ha => (hlasting a ha).toIsPrintable
  refine ⟨_, _, hplan, hsolution, rfl, rfl, ?_, ?_, ?_⟩
  · exact actions_assemble_recorded hprintable hsorted _ _
  · exact actions_assemble_recorded hprintable hsorted _ _
  · rw [Plan.totalDuration_assemble_eq (pairwise_recorded hprintable hsorted),
      Plan.totalDuration_assemble_eq (pairwise_recorded hprintable hsorted)]
    simp [Function.comp_def, Action.recorded]

/-- Two actions, and lines that end in two ways. -/
theorem pick_and_move_of_printed_lines :
    let actions := [Action.make "pick" ["ball", "rooma"] 0.0 2.5,
      Action.make "move" ["rooma", "roomb"] 2.5 0.1]
    let text := "0: (pick ball rooma) [2.5]\r\n2.5: (move rooma roomb) [0.1]\n"
    (actions ≠ [] ∧ (∀ a ∈ actions, IsLasting a) ∧
      (actions.Pairwise fun a b => a.start ≤ b.start) ∧ linesOf text = actions.map lastingText) ∧
    ∃ p q, planIn? .temporal {} text = some p ∧ solution? {} text = some q ∧
      p.dialect = .temporal ∧ q.dialect = .temporal ∧
      p.actions = actions.mapIdx (fun i a =>
        { a.recorded a.duration "bracket-duration" with id := Plan.actionId i }) ∧
      q.actions = actions.mapIdx (fun i a =>
        { a.recorded a.duration "solution" with id := Plan.actionId i }) ∧
      p.totalDuration = q.totalDuration := by
  intro actions text
  have hlasting : ∀ a ∈ actions, IsLasting a := by decide +kernel
  have hsorted : actions.Pairwise fun a b => a.start ≤ b.start := by decide +kernel
  have htext : linesOf text = actions.map lastingText := by decide +kernel
  exact ⟨⟨List.cons_ne_nil _ _, hlasting, hsorted, htext⟩,
    temporal_plan_of_printed_lines {} (List.cons_ne_nil _ _) hlasting hsorted htext⟩

end PlanPlayback.Transcript
