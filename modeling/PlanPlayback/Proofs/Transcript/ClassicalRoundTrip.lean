import PlanPlayback.Proofs.Transcript.BodyLines
import PlanPlayback.Proofs.Transcript.Silence
import PlanPlayback.Transcript.PlanReading

/-!
# Classical plans survive printing

A plan without durations is printed as one line for each action.  Its times alone do not make it
temporal: as long as no token is a word of processes or of numeric effects, the transcript is taken
for classical and read as such.

## Strategy

The cues are looked for in the whole text.  A line is quiet for each of them because its tokens are,
and the end of a line begins no cue, so that the text is quiet as well (`quiet_of_lines`).
Words of durations may occur, but no line has the shape that they need.  The text is then classical,
and the first of the classical rules fits each line.
-/

namespace PlanPlayback.Transcript

open Binary64 Decimal Text
open Token (IsWord isPlain isPlain_iff)

/-- A token with no word of processes or of numeric effects in it. -/
structure IsSilent (token : List Char) : Prop where
  pddlPlus : occurs pddlPlusCue token = false
  numeric : occurs (isWholeWord "numeric") token = false
  scaleUp : occurs (isWholeWord "scale-up") token = false
  scaleDown : occurs (isWholeWord "scale-down") token = false

instance (token : List Char) : Decidable (IsSilent token) :=
  decidable_of_iff (occurs pddlPlusCue token = false ∧
      occurs (isWholeWord "numeric") token = false ∧
      occurs (isWholeWord "scale-up") token = false ∧
      occurs (isWholeWord "scale-down") token = false)
    ⟨fun h => ⟨h.1, h.2.1, h.2.2.1, h.2.2.2⟩,
      fun h => ⟨h.pddlPlus, h.numeric, h.scaleUp, h.scaleDown⟩⟩

/-- An action whose line tells nothing about the dialect. -/
structure IsUnmarked (a : Action) : Prop extends IsPrintable a where
  colonFree : ∀ token ∈ a.tokens, ':' ∉ token.toList
  isSilent : ∀ token ∈ a.tokens, IsSilent token.toList

instance (a : Action) : Decidable (IsUnmarked a) :=
  decidable_of_iff (IsPrintable a ∧ (∀ token ∈ a.tokens, ':' ∉ token.toList) ∧
      ∀ token ∈ a.tokens, IsSilent token.toList)
    ⟨fun h => ⟨h.1, h.2.1, h.2.2⟩, fun h => ⟨h.toIsPrintable, h.colonFree, h.isSilent⟩⟩

/-- A printed line in which all tokens are silent. -/
def IsSilentLine (line : List Char) : Prop :=
  ∃ time tokens, tokens ≠ [] ∧ (∀ token ∈ tokens, IsWord token ∧ IsSilent token) ∧
    line = lineOf time tokens []

/-! ## No cue in the text -/

section Cues

variable {cue : Option Char → List Char → Bool} {text : List Char}

theorem IsSilentLine.exists_eq_cons {line : List Char} (h : IsSilentLine line) :
    ∃ c rest, line = c :: rest ∧ c.isDigit = true := by
  obtain ⟨time, tokens, -, -, rfl⟩ := h
  exact exists_lineOf_eq_cons

theorem IsSilentLine.getLast?_eq {line : List Char} (h : IsSilentLine line) :
    line.getLast? = some ')' := by
  obtain ⟨time, tokens, -, -, rfl⟩ := h
  rw [getLast?_lineOf]
  rfl

theorem isDigit_head_of_lines (hlines : ∀ line ∈ lines text, IsSilentLine line) :
    ∀ c ∈ text.head?, c.isDigit = true := by
  intro c hc
  cases hall : lines text with
  | nil =>
    rw [lines_eq_nil_iff.mp hall] at hc
    cases hc
  | cons line rest =>
    obtain ⟨d, tail, rfl, hd⟩ := (hlines line (by simp [hall])).exists_eq_cons
    obtain ⟨_, _, -, rfl, -⟩ := exists_of_lines_eq_cons hall
    obtain rfl : d = c := by simpa using hc
    exact hd

/-- A text is quiet if its lines are, unless something begins with the end of a line. -/
theorem quiet_of_lines (hlines : ∀ line ∈ lines text, IsSilentLine line)
    (hquiet : ∀ line, IsSilentLine line → ∀ before ∈ [none, some '\n'], ∀ behind,
      FollowsLine behind → Quiet cue before line behind)
    (hend : ∀ c ∈ ['\r', '\n'], ∀ before ∈ [')', '\r'], ∀ rest,
      cue (some before) (c :: rest) = false)
    {before : Option Char} (hbefore : before ∈ [none, some '\n']) : Quiet cue before text [] := by
  generalize hall : lines text = all
  induction all generalizing text before with
  | nil =>
    rw [lines_eq_nil_iff.mp hall]
    trivial
  | cons line rest ih =>
    obtain ⟨ending, behind, hending, rfl, hbehind⟩ := exists_of_lines_eq_cons hall
    have hline : IsSilentLine line := hlines line (by simp [hall])
    have hrest : ∀ other ∈ lines behind, IsSilentLine other := by
      intro other hother
      rw [hbehind] at hother
      exact hlines other (by simp [hall, hother])
    have hlast : lastOf before line = some ')' := by
      rw [lastOf, hline.getLast?_eq]
      rfl
    refine Quiet.append ?_ ?_
    · rw [List.append_nil]
      exact hquiet line hline before hbefore _ (.intro hending (isDigit_head_of_lines hrest))
    · rw [hlast]
      cases hending with
      | feed => exact ⟨hend _ (by simp) _ (by simp) _, ih hrest (by simp) hbehind⟩
      | returnFeed =>
        exact ⟨hend _ (by simp) _ (by simp) _, hend _ (by simp) _ (by simp) _,
          ih hrest (by simp) hbehind⟩
      | last => trivial

theorem occurs_eq_false_of_lines (hlines : ∀ line ∈ lines text, IsSilentLine line)
    (hquiet : ∀ line, IsSilentLine line → ∀ before ∈ [none, some '\n'], ∀ behind,
      FollowsLine behind → Quiet cue before line behind)
    (hend : ∀ c ∈ ['\r', '\n'], ∀ before ∈ [')', '\r'], ∀ rest,
      cue (some before) (c :: rest) = false)
    (hnil : ∀ before, cue before [] = false) : occurs cue text = false :=
  occurs_eq_false_iff.mpr ⟨quiet_of_lines hlines hquiet hend (by simp), hnil _⟩

variable (hlines : ∀ line ∈ lines text, IsSilentLine line)

include hlines

/-- A cue that begins with a letter begins in a token. -/
theorem occurs_eq_false_of_tokens (hnil : ∀ before, cue before [] = false)
    (hhead : ∀ c, c.isLower = false → ∀ before rest, cue before (c :: rest) = false)
    (htokens : ∀ token, IsWord token → IsSilent token → ∀ before ∈ ['(', ' '], ∀ rest,
      FollowsToken rest → Quiet cue (some before) token rest) : occurs cue text = false := by
  have hmark : ∀ c ∈ ['.', ':', '(', ' ', '\r', '\n'], c.isLower = false := by
    have hall : (['.', ':', '(', ' ', '\r', '\n'].all fun c => !c.isLower) = true := by decide
    intro c hc
    simpa using List.all_eq_true.mp hall c hc
  have hinside : ['.', ':', '(', ' '] ⊆ ['.', ':', '(', ' ', '\r', '\n'] := by decide
  have hends : ['\r', '\n'] ⊆ ['.', ':', '(', ' ', '\r', '\n'] := by decide
  refine occurs_eq_false_of_lines hlines ?_ ?_ hnil
  · rintro line ⟨time, tokens, hne, hall, rfl⟩ before - behind -
    refine quiet_lineOf hne (fun token ht => (hall token ht).1) ?_ ?_ ?_
    · rintro c (hc | hc)
      · exact hhead c (isLower_of_isDigit hc)
      · exact hhead c (hmark c (hinside hc))
    · exact fun token ht => htokens token (hall token ht).1 (hall token ht).2
    · exact fun before => hhead ')' (by decide) before behind
  · exact fun c hc before _ => hhead c (hmark c (hends hc)) _

theorem IsWordCue.occurs_eq_false (h : IsWordCue cue)
    (htoken : ∀ token, IsSilent token → occurs cue token = false) : occurs cue text = false := by
  refine occurs_eq_false_of_tokens hlines h.nil h.head ?_
  intro token _ hsilent before hbefore rest hrest
  exact h.quiet (htoken token hsilent) hbefore hrest

theorem occurs_effectOpens : occurs effectOpens text = false := by
  refine occurs_eq_false_of_tokens hlines (fun _ => rfl) (fun _ => effectOpens_of_head) ?_
  intro token hword _ before _ rest hrest
  exact quiet_of_isPlain (effectOpens_append hrest) hword.2 _

theorem occurs_signedNumberFollows : occurs (fun _ => signedNumberFollows) text = false := by
  have hne (c : Char) (hc : c ≠ ')') (rest : List Char) :
      signedNumberFollows (c :: rest) = false := by
    rw [signedNumberFollows, exactly?_cons_of_ne hc]
    rfl
  refine occurs_eq_false_of_lines hlines ?_ ?_ fun _ => rfl
  · rintro line ⟨time, tokens, hnil, htokens, rfl⟩ before - behind hbehind
    refine quiet_lineOf hnil (fun token ht => (htokens token ht).1) ?_ ?_ ?_
    · intro c hc before rest
      refine hne c ?_ rest
      rintro rfl
      exact absurd hc (by decide)
    · intro token ht before _ rest _
      refine quiet_of_head fun c hc _ behind => hne c ?_ behind
      exact (isPlain_iff.mp ((htokens token ht).1.2 c hc)).2.2
    · exact fun _ => hbehind.signedNumberFollows
  · intro c hc before _ rest
    refine hne c ?_ rest
    rintro rfl
    exact absurd hc (by decide)

/-- The only cue that looks for the beginnings of lines. -/
theorem occurs_durativeShape : occurs durativeShape text = false := by
  have hne {c : Char} (hc : c ≠ '\n') (rest : List Char) : durativeShape (some c) rest = false := by
    simp [durativeShape, atLineStart, hc]
  have hnil (before : Option Char) : durativeShape before [] = false := by
    cases before with
    | none => rfl
    | some c =>
      by_cases hc : c = '\n'
      · subst hc
        rfl
      · exact hne hc []
  refine occurs_eq_false_of_lines hlines ?_ ?_ hnil
  · rintro line ⟨time, tokens, -, htokens, rfl⟩ before - behind hbehind
    have hwords : ∀ token ∈ tokens, IsWord token := fun token ht => (htokens token ht).1
    have hshape := @durativeShape_lineOf time tokens behind hwords hbehind before
    have hfeed : '\n' ∉ lineOf time tokens [] := by
      intro hc
      rcases mem_lineOf hc with hc | hc | ⟨token, ht, hc⟩ | hc
      · exact absurd hc (by decide)
      · exact absurd hc (by decide)
      · exact absurd ((hwords token ht).2 _ hc) (by decide)
      · cases hc
    obtain ⟨c, rest, hline, hc⟩ := @exists_lineOf_eq_cons time tokens []
    rw [← lineOf_append] at hshape
    rw [hline, List.mem_cons, not_or] at hfeed
    rw [hline] at hshape ⊢
    exact ⟨hshape, quiet_durativeShape (Ne.symm hfeed.1) hfeed.2⟩
  · intro c _ before hbefore rest
    refine hne ?_ _
    rintro rfl
    exact absurd hbefore (by decide)

theorem occurs_numericCue : occurs numericCue text = false := by
  have hnumeric : occurs (isWholeWord "numeric") text = false :=
    (isWordCue_isWholeWord (by decide)).occurs_eq_false hlines fun _ h => h.numeric
  have hup : occurs (isWholeWord "scale-up") text = false :=
    (isWordCue_isWholeWord (by decide)).occurs_eq_false hlines fun _ h => h.scaleUp
  have hdown : occurs (isWholeWord "scale-down") text = false :=
    (isWordCue_isWholeWord (by decide)).occurs_eq_false hlines fun _ h => h.scaleDown
  exact occurs_or (occurs_or (occurs_or (occurs_or hnumeric (occurs_effectOpens hlines)) hup) hdown)
    (occurs_signedNumberFollows hlines)

theorem occurs_pddlPlusCue : occurs pddlPlusCue text = false := by
  have hcue : IsWordCue pddlPlusCue := isWordCue_wordBegins (by decide)
  exact hcue.occurs_eq_false hlines fun _ h => h.pddlPlus

end Cues

/-! ## The dialect -/

theorem detect_eq_classical {text : String} (hlines : ∀ line ∈ lines text.toList, IsSilentLine line)
    (hsmall : ∀ line ∈ lines text.toList, ∀ c ∈ line, IsSmall c) :
    (detect text).dialect = .classical := by
  have hlower : lowercase text.toList = text.toList := by
    refine lowercase_eq_self_iff.mpr fun c hc => ?_
    rcases exists_mem_lines hc with hc | ⟨line, hline, hc⟩
    · have hends : (['\r', '\n'].all fun c => decide (IsSmall c)) = true := by decide
      exact of_decide_eq_true (List.all_eq_true.mp hends c hc)
    · exact hsmall line hline c hc
  simp [detect, hlower, dialectRules, occurs_pddlPlusCue hlines, occurs_numericCue hlines,
    occurs_durativeShape hlines]

namespace IsUnmarked

variable {a : Action}

theorem exists_line_eq (h : IsUnmarked a) :
    ∃ time : PlainNumeral, (timedText a).toList = lineOf time (wordsOfAction a) [] ∧
      Decimal.float? time.text = some a.start := by
  obtain ⟨time, htime, hstart⟩ := h.exists_start_eq
  exact ⟨time, toList_timedText htime, hstart⟩

theorem isSilentLine (h : IsUnmarked a) : IsSilentLine (timedText a).toList := by
  obtain ⟨time, hline, -⟩ := h.exists_line_eq
  refine ⟨time, wordsOfAction a, by simp [wordsOfAction, Action.tokens], ?_, hline⟩
  intro token htoken
  refine ⟨h.isWord token htoken, ?_⟩
  obtain ⟨text, htext, rfl⟩ := List.mem_map.mp htoken
  exact h.isSilent text htext

theorem isSmall_line (h : IsUnmarked a) : ∀ c ∈ (timedText a).toList, IsSmall c := by
  obtain ⟨time, hline, -⟩ := h.exists_line_eq
  rw [hline]
  exact isSmall_of_mem_lineOf h.isSmall (by simp)

theorem isBodyLine (h : IsUnmarked a) : IsBodyLine (timedText a).toList := by
  obtain ⟨time, hline, -⟩ := h.exists_line_eq
  rw [hline]
  exact isBodyLine_lineOf (h.isSmall_and_ne_colon h.colonFree) (by simp) (by simp)

theorem classicalLine_eq (h : IsUnmarked a) {settings : DurationSettings}
    (hstep : 0.0 ≤ settings.classicalStep) (position : ℕ) :
    classicalLine settings position (timedText a).toList =
      some (a.recorded settings.classicalStep "indexed-paren") := by
  obtain ⟨time, hline, hstart⟩ := h.exists_line_eq
  have hscan : scanIndexedParen (timedText a).toList =
      some ⟨.step (some time.text), a.name.toList, a.args.map String.toList⟩ := by
    rw [hline]
    exact scanIndexedParen_lineOf h.isWord
  have htimes : (TimeText.step (some time.text)).read? settings position =
      some (a.start, settings.classicalStep) := by
    simp [TimeText.read?, hstart]
  have hrule := h.apply_eq_recorded ⟨"indexed-paren", .indexedParen⟩ hscan htimes rfl
  rw [larger_eq_left hstep] at hrule
  rw [classicalLine, firstApplying, classicalRules, List.findSome?_cons, hrule]

end IsUnmarked

/-- **Classical plans survive printing.**  The transcript is taken for classical, though its lines
carry times, and its actions are found again with these times. -/
theorem classical_plan_of_printed_lines {settings : DurationSettings}
    (hstep : 0.0 ≤ settings.classicalStep) {actions : List Action} {text : String}
    (hne : actions ≠ []) (hunmarked : ∀ a ∈ actions, IsUnmarked a)
    (hsorted : actions.Pairwise fun a b => a.start ≤ b.start)
    (htext : linesOf text = actions.map timedText) :
    (detect text).dialect = .classical ∧
      ∃ p, plan? settings text = some p ∧ p.dialect = .classical ∧
        p.actions = actions.mapIdx fun i a =>
          { a.recorded settings.classicalStep "indexed-paren" with id := Plan.actionId i } := by
  have hlines : ∀ line ∈ lines text.toList, ∃ a ∈ actions, (timedText a).toList = line := by
    rw [lines_eq_map htext, List.map_map]
    exact fun line hline => List.mem_map.mp hline
  have hdetect : (detect text).dialect = .classical := by
    refine detect_eq_classical (fun line hline => ?_) fun line hline => ?_
    · obtain ⟨a, ha, rfl⟩ := hlines line hline
      exact (hunmarked a ha).isSilentLine
    · obtain ⟨a, ha, rfl⟩ := hlines line hline
      exact (hunmarked a ha).isSmall_line
  have hread : ∀ a ∈ actions, ∀ position,
      actionOnLine .classical settings position (timedText a).toList =
        some (a.recorded settings.classicalStep "indexed-paren") :=
    fun a ha position => (hunmarked a ha).classicalLine_eq hstep position
  have hplan := planIn?_eq hne htext (fun a ha => (hunmarked a ha).isBodyLine) hread
  refine ⟨hdetect, _, by rw [plan?, hdetect, hplan], rfl, ?_⟩
  exact actions_assemble_recorded (fun a ha => (hunmarked a ha).toIsPrintable) hsorted _ _

/-- Words of durations leave a transcript classical. -/
theorem measure_and_move_of_printed_lines :
    let actions := [Action.make "measure-duration" ["makespan", "temporal"] 0.0 1.0,
      Action.make "move" ["rooma", "roomb"] 2.5 1.0]
    let text := "0: (measure-duration makespan temporal)
2.5: (move rooma roomb)
"
    (0.0 ≤ ({} : DurationSettings).classicalStep ∧ actions ≠ [] ∧ (∀ a ∈ actions, IsUnmarked a) ∧
      (actions.Pairwise fun a b => a.start ≤ b.start) ∧ linesOf text = actions.map timedText) ∧
    (detect text).dialect = .classical ∧
      ∃ p, plan? {} text = some p ∧ p.dialect = .classical ∧
        p.actions = actions.mapIdx fun i a =>
          { a.recorded ({} : DurationSettings).classicalStep "indexed-paren" with
            id := Plan.actionId i } := by
  intro actions text
  have hstep : 0.0 ≤ ({} : DurationSettings).classicalStep := by decide +kernel
  have hunmarked : ∀ a ∈ actions, IsUnmarked a := by decide +kernel
  have hsorted : actions.Pairwise fun a b => a.start ≤ b.start := by decide +kernel
  have htext : linesOf text = actions.map timedText := by decide +kernel
  exact ⟨⟨hstep, List.cons_ne_nil _ _, hunmarked, hsorted, htext⟩,
    classical_plan_of_printed_lines hstep (List.cons_ne_nil _ _) hunmarked hsorted htext⟩

end PlanPlayback.Transcript
