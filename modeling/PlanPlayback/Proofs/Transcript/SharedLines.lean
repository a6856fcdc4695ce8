import PlanPlayback.Proofs.Transcript.NumericLine
import PlanPlayback.Proofs.Transcript.TemporalRoundTrip

/-!
# Lines that both readers know

There are two readers of plans: the one that tries the rules of a dialect on each line of a
transcript, and the one for solution files.  `IsSharedLine` are the lines that are meant for both:
comments, `t: (name args) [d]`, `t: (name args)` with or without numeric effects behind it, and
`(name args)`.

On each of these lines both find the same call at the same time (`ReadAlike`).  They need not find
the same duration.  One that is stated is taken by both, but each reader has a rule of its own for a
line that states none: the one goes by the shape of the line, the other by the dialect of the whole
file (`DurationsRead`).
-/

namespace PlanPlayback.Transcript

open Binary64 Decimal Text
open Token (IsWord)

/-! ## The lines -/

/-- A word in which no colon stands. -/
def IsName (token : List Char) : Prop :=
  IsWord token ∧ ':' ∉ token

instance (token : List Char) : Decidable (IsName token) :=
  inferInstanceAs (Decidable (_ ∧ _))

/-- Whether there is nothing on a line but a comment. -/
def isRemark (line : List Char) : Bool :=
  line.isEmpty || line.head? == some ';'

/-- What may stand behind a call that says nothing about its duration: nothing, numeric effects, or
any other text without a colon. -/
structure IsOpen (behind : List Char) : Prop where
  colonFree : ':' ∉ behind
  bracketed?_eq : bracketed? (skipBlanks behind) = none

instance (behind : List Char) : Decidable (IsOpen behind) :=
  decidable_of_iff (':' ∉ behind ∧ bracketed? (skipBlanks behind) = none)
    ⟨fun h => ⟨h.1, h.2⟩, fun h => ⟨h.colonFree, h.bracketed?_eq⟩⟩

/-- Numeric effects leave the duration open. -/
theorem isOpen_effects (update : Update) (hupdate : update ∈ inlineUpdates) {rest : List Char}
    (hrest : ':' ∉ rest) : IsOpen (' ' :: (update.keyword.toList ++ rest)) := by
  obtain ⟨w, letters, hkeyword⟩ := List.exists_cons_of_ne_nil (keyword_ne_nil hupdate)
  obtain ⟨-, hblank, hbracket⟩ := of_mem_keyword hupdate (w := w) (by simp [hkeyword])
  constructor
  · have hletters : ':' ∉ update.keyword.toList := fun h =>
      absurd (of_mem_keyword hupdate h).1 (by decide)
    simp [hletters, hrest]
  · rw [hkeyword, skipBlanks_space, List.cons_append, skipBlanks_cons hblank, bracketed?,
      exactly?_cons_of_ne hbracket]
    rfl

/-- A line that is meant for both readers. -/
inductive IsSharedLine : List Char → Prop where
  | remark {line : List Char} (hline : isRemark line = true) : IsSharedLine line
  | lasting (time duration : PlainNumeral) {name : List Char} {args : List (List Char)}
      (hnames : ∀ token ∈ name :: args, IsName token) :
      IsSharedLine (lineOf time (name :: args) (durationText duration))
  | timed (time : PlainNumeral) {name : List Char} {args : List (List Char)} {behind : List Char}
      (hnames : ∀ token ∈ name :: args, IsName token) (hbehind : IsOpen behind) :
      IsSharedLine (lineOf time (name :: args) behind)
  | step {name : List Char} {args : List (List Char)}
      (hnames : ∀ token ∈ name :: args, IsName token) :
      IsSharedLine (grouped (name :: args))

/-! ## What is read from a line -/

/-- Two actions with the same call, start and effects, that end together if they last equally
long. -/
structure ReadAlike (a b : Action) : Prop where
  id : a.id = b.id
  name : a.name = b.name
  args : a.args = b.args
  start : a.start = b.start
  startBits : a.startBits = b.startBits
  effects : a.effects = b.effects
  finish : a.duration = b.duration → a.finish = b.finish

/-- The duration that the reader of solution files gives to a line of a dialect that states none. -/
def fallbackDuration (dialect : Dialect) (settings : DurationSettings) : Float :=
  match dialect with
  | .temporal => statedDuration settings settings.unstated
  | _ => settings.classicalStep

/-- How long an action lasts for the reader of transcripts, and for the reader of solution files. -/
inductive DurationsRead (dialect : Dialect) (settings : DurationSettings) (a b : Action) : Prop where
  | stated (hrule : a.rule = some "bracket-duration") (hduration : a.duration = b.duration)
  | timed (hrule : a.rule = some "timed-paren") (hdialect : dialect ≠ .classical)
      (hfirst : a.duration = larger settings.unstated 0.0)
      (hsecond : b.duration = larger (fallbackDuration dialect settings) 0.0)
  | step (hrule : a.rule = some "indexed-paren")
      (hfirst : a.duration = larger settings.classicalStep 0.0)
      (hsecond : b.duration = larger (fallbackDuration dialect settings) 0.0)

/-- Whether a number in brackets stands right behind the call, if there is one on the line. -/
def IsBracketedBehind (entry : SolutionEntry) : Prop :=
  (bracketNumber? entry.rest).isSome = true →
    (bracketed? (skipBlanks entry.rest)).isSome = true

instance (entry : SolutionEntry) : Decidable (IsBracketedBehind entry) :=
  inferInstanceAs (Decidable (_ → _))

/-- The dialects that a solution file can have. -/
def solutionDialects : List Dialect :=
  [.classical, .temporal, .numeric]

/-- Both readers find an action on a line, and the same one up to its duration. -/
def IsReadAlike (dialect : Dialect) (settings : DurationSettings) (line : List Char) : Prop :=
  ∃ entry, SolutionEntry.of? line = some entry ∧ ∀ position, ∃ a b,
    actionOnLine dialect settings position line = some a ∧
      entry.toAction? dialect settings position = some b ∧
      ReadAlike a b ∧ (IsBracketedBehind entry → DurationsRead dialect settings a b)

section Calls

variable {dialect : Dialect} {settings : DurationSettings} {position : ℕ} {name : List Char}
  {args : List (List Char)} {start : Float} {time : PlainNumeral} {behind : List Char}

/-- The same call at the same time, read by two rules. -/
theorem readAlike_called {duration duration' : Float} {rule rule' : String}
    {effects : List PlannedEffect} {startBits : NaNBits} :
    ReadAlike { called name args start duration with
        rule := some rule, effects, startBits }
      { called name args start duration' with
        rule := some rule', effects, startBits } := by
  refine ⟨rfl, rfl, rfl, rfl, rfl, rfl, fun hduration => ?_⟩
  exact congrArg (start + ·) hduration

/-- The duration of an entry for the reader of solution files. -/
def entryDuration (dialect : Dialect) (settings : DurationSettings) (behind : List Char) : Float :=
  match dialect with
  | .temporal => statedDuration settings ((bracketNumber? behind).getD settings.unstated)
  | _ => settings.classicalStep

theorem entryDuration_eq_fallback (hbehind : bracketNumber? behind = none) :
    entryDuration dialect settings behind = fallbackDuration dialect settings := by
  cases dialect <;> simp [entryDuration, fallbackDuration, hbehind]

theorem toAction?_grouped (hwords : ∀ token ∈ name :: args, IsWord token) (time : Option Float) :
    SolutionEntry.toAction? dialect settings position
        ⟨time, grouped (name :: args), behind, .quiet false⟩ =
      some { called name args (time.getD (Float.ofNat position * settings.classicalStep))
          (entryDuration dialect settings behind) with
        rule := some "solution",
        effects := if dialect = .numeric then inlineEffects behind else [],
        startBits := if time.isNone then stepBits settings position else .quiet false } := by
  unfold SolutionEntry.toAction?
  rw [call?_grouped hwords, Option.map_some]
  cases dialect <;> cases time <;> rfl

/-! ## No colon in front, and no effect -/

theorem scanEffect_some_eq_none {before : Char} (hbefore : isWordChar before = false)
    (text : List Char) : scanEffect (some before) text = scanEffect none text := by
  simp [scanEffect, atWordStart, hbefore]

/-- Effects are found behind a call that is quiet as if nothing stood in front of them. -/
theorem inlineEffects_append {call : List Char} (hquiet : Quiet effectFound none call behind)
    (hlast : lastOf none call = some ')') : inlineEffects (call ++ behind) = inlineEffects behind := by
  have hclosing : isWordChar ')' = false := by decide
  rw [inlineEffects, inlineEffects, everywhere_append_of_quiet hquiet, hlast]
  cases behind with
  | nil => rfl
  | cons c rest => rw [everywhere, everywhere, scanEffect_some_eq_none hclosing]

theorem inlineEffects_lineOf_eq (hwords : ∀ token ∈ name :: args, IsWord token) :
    inlineEffects (lineOf time (name :: args) behind) = inlineEffects behind := by
  have hquiet : Quiet effectFound none (lineOf time (name :: args) []) behind :=
    quiet_effectFound_lineOf (List.cons_ne_nil _ _) hwords
  rw [← lineOf_append]
  refine inlineEffects_append hquiet ?_
  rw [lastOf, getLast?_lineOf]
  rfl

theorem inlineEffects_grouped_eq (hwords : ∀ token ∈ name :: args, IsWord token) :
    inlineEffects (grouped (name :: args)) = [] := by
  have hquiet : Quiet effectFound none (grouped (name :: args)) [] :=
    quiet_effectFound_grouped (List.cons_ne_nil _ _) hwords
  have hlast : lastOf none (grouped (name :: args)) = some ')' := by
    have hsplit : grouped (name :: args) = ('(' :: spaced (name :: args)) ++ [')'] := rfl
    rw [lastOf, hsplit, List.getLast?_concat]
    rfl
  rw [← List.append_nil (grouped (name :: args)), inlineEffects_append hquiet hlast]
  rfl

/-! ## Calls without a time -/

theorem timeLabel?_grouped {tokens : List (List Char)} : timeLabel? (grouped tokens) = none := by
  rfl

theorem of?_grouped {tokens : List (List Char)} (hwords : ∀ token ∈ tokens, IsWord token) :
    SolutionEntry.of? (grouped tokens) = some ⟨none, grouped tokens, [], .quiet false⟩ := by
  have hinside : ∀ c ∈ spaced tokens, (c != ')') = true := by
    intro c hc
    simpa using (not_isParen_of_mem_spaced hwords hc).2
  have hclosing : ∀ c ∈ [')'].head?, (c != ')') = false := by
    rintro c ⟨⟩
    rfl
  have hfront : (grouped tokens).takeWhile (· != '(') = [] := rfl
  have hbehind : (grouped tokens).dropWhile (· != '(') = grouped tokens := rfl
  simp only [SolutionEntry.of?, hfront, hbehind]
  simp only [grouped, takeWhile_append_eq hinside hclosing, dropWhile_append_eq hinside hclosing]
  rfl

theorem scanIndexedParen_grouped (hwords : ∀ token ∈ name :: args, IsWord token) :
    scanIndexedParen (grouped (name :: args)) = some ⟨.step none, name, args⟩ := by
  have hgroup := group?_grouped_append (List.cons_ne_nil name args) hwords []
  rw [List.append_nil] at hgroup
  simp [scanIndexedParen, hgroup, LineMatch.of?]

/-- No temporal rule fits a call without a time. -/
theorem firstApplying_temporalRules_grouped {tokens : List (List Char)} :
    firstApplying temporalRules settings position (grouped tokens) = none := by
  have hbracket : scanBracketDuration (grouped tokens) = none := by
    rw [scanBracketDuration, timeLabel?_grouped]
    rfl
  have hbare : scanTimedBare (grouped tokens) = none := by
    rw [scanTimedBare, timeLabel?_grouped]
    rfl
  have hparen : scanTimedParen (grouped tokens) = none := by
    rw [scanTimedParen, timeLabel?_grouped]
    rfl
  have hat : scanAtTime (grouped tokens) = none := rfl
  have hinterval : scanInterval (grouped tokens) = none := rfl
  rw [temporalRules, firstApplying_cons_eq ⟨"bracket-duration", .bracketDuration⟩ hbracket,
    firstApplying_cons_eq ⟨"interval", .interval⟩ hinterval,
    firstApplying_cons_eq ⟨"at-time", .atTime⟩ hat,
    firstApplying_cons_eq ⟨"timed-bare", .timedBare⟩ hbare,
    firstApplying_cons_eq ⟨"timed-paren", .timedParen⟩ hparen]
  rfl

/-! ## One line, read twice -/

theorem classicalLine_of_scan {line : List Char} {start? : Option (List Char)} {start : Float}
    (hscan : scanIndexedParen line = some ⟨.step start?, name, args⟩)
    (hread : (TimeText.step start?).read? settings position =
      some (start, settings.classicalStep)) :
    classicalLine settings position line =
      some { called name args start settings.classicalStep with
        rule := some "indexed-paren",
        startBits := (TimeText.step start?).startBits settings position } := by
  rw [classicalLine, classicalRules, firstApplying, List.findSome?_cons,
    apply_of_scan ⟨"indexed-paren", .indexedParen⟩ hscan hread]

/-- A plain numeral can be read. -/
theorem exists_float?_text (p : PlainNumeral) : ∃ x, Decimal.float? p.text = some x :=
  ⟨_, p.float?_signText_append false⟩

theorem isReadAlike_lasting (settings : DurationSettings) (duration : PlainNumeral)
    (hwords : ∀ token ∈ name :: args, IsWord token) :
    IsReadAlike .temporal settings (lineOf time (name :: args) (durationText duration)) := by
  obtain ⟨start, hstart⟩ := exists_float?_text time
  obtain ⟨d, hd⟩ := exists_float?_text duration
  refine ⟨_, of?_lineOf hwords hstart, fun position => ?_⟩
  have hscan : scanBracketDuration (lineOf time (name :: args) (durationText duration)) =
      some ⟨.lasting time.text duration.text, name, args⟩ :=
    scanBracketDuration_lineOf hwords duration
  have htimes : (TimeText.lasting time.text duration.text).read? settings position =
      some (start, statedDuration settings d) := by
    simp [TimeText.read?, hstart, hd]
  have hfirst := apply_of_scan ⟨"bracket-duration", .bracketDuration⟩ hscan htimes
  have hline : actionOnLine .temporal settings position
      (lineOf time (name :: args) (durationText duration)) =
        some { called name args start (statedDuration settings d) with
          rule := some "bracket-duration" } := by
    rw [actionOnLine, temporalLine, temporalRules, firstApplying, List.findSome?_cons, hfirst]
    rfl
  have hduration : entryDuration .temporal settings (durationText duration) =
      statedDuration settings d := by
    rw [entryDuration, bracketNumber?_durationText hd]
    rfl
  refine ⟨_, _, hline, toAction?_grouped hwords _, readAlike_called, fun _ => ?_⟩
  rw [hduration]
  exact .stated rfl rfl

theorem isReadAlike_timed (settings : DurationSettings) (hdialect : dialect ∈ solutionDialects)
    (hwords : ∀ token ∈ name :: args, IsWord token) (hbehind : IsOpen behind) :
    IsReadAlike dialect settings (lineOf time (name :: args) behind) := by
  obtain ⟨start, hstart⟩ := exists_float?_text time
  refine ⟨_, of?_lineOf hwords hstart, fun position => ?_⟩
  have hsecond (hnumber : IsBracketedBehind ⟨some start, grouped (name :: args), behind, .quiet false⟩) :
      entryDuration dialect settings behind = fallbackDuration dialect settings := by
    refine entryDuration_eq_fallback (Option.not_isSome_iff_eq_none.mp fun hsome => ?_)
    have hbracketed := hnumber hsome
    rw [hbehind.bracketed?_eq] at hbracketed
    cases hbracketed
  have htemporal := @temporalLine_timed settings position time behind name args start hwords hstart
    hbehind.bracketed?_eq
  have haction := @toAction?_grouped dialect settings position name args behind hwords (some start)
  simp only [solutionDialects, List.mem_cons, List.not_mem_nil, or_false] at hdialect
  rcases hdialect with rfl | rfl | rfl
  · have htimes : (TimeText.step (some time.text)).read? settings position =
        some (start, settings.classicalStep) := by
      simp [TimeText.read?, hstart]
    refine ⟨_, _, classicalLine_of_scan (scanIndexedParen_lineOf hwords) htimes, haction,
      readAlike_called, fun hnumber => ?_⟩
    rw [hsecond hnumber]
    exact .step rfl rfl rfl
  · refine ⟨_, _, htemporal, haction, readAlike_called, fun hnumber => ?_⟩
    rw [hsecond hnumber]
    exact .timed rfl (by decide) rfl rfl
  · have hline : actionOnLine .numeric settings position (lineOf time (name :: args) behind) =
        some { called name args start settings.unstated with
          rule := some "timed-paren", effects := inlineEffects behind } := by
      rw [actionOnLine, numericLine, htemporal, inlineEffects_lineOf_eq hwords]
      rfl
    refine ⟨_, _, hline, haction, readAlike_called, fun hnumber => ?_⟩
    rw [hsecond hnumber]
    exact .timed rfl (by decide) rfl rfl

theorem isReadAlike_step (settings : DurationSettings) (hdialect : dialect ∈ solutionDialects)
    (hwords : ∀ token ∈ name :: args, IsWord token) :
    IsReadAlike dialect settings (grouped (name :: args)) := by
  refine ⟨_, of?_grouped hwords, fun position => ?_⟩
  have hsecond : entryDuration dialect settings [] = fallbackDuration dialect settings :=
    entryDuration_eq_fallback rfl
  have hclassical := @classicalLine_of_scan settings position name args (grouped (name :: args))
    none _ (scanIndexedParen_grouped hwords) rfl
  have htemporal : temporalLine settings position (grouped (name :: args)) =
      classicalLine settings position (grouped (name :: args)) := by
    rw [temporalLine, firstApplying_temporalRules_grouped]
    rfl
  have haction := @toAction?_grouped dialect settings position name args [] hwords none
  simp only [solutionDialects, List.mem_cons, List.not_mem_nil, or_false] at hdialect
  rcases hdialect with rfl | rfl | rfl
  · refine ⟨_, _, hclassical, haction, readAlike_called, fun _ => ?_⟩
    rw [hsecond]
    exact .step rfl rfl rfl
  · refine ⟨_, _, htemporal.trans hclassical, haction, readAlike_called, fun _ => ?_⟩
    rw [hsecond]
    exact .step rfl rfl rfl
  · have hline : actionOnLine .numeric settings position (grouped (name :: args)) =
        some { called name args (Float.ofNat position * settings.classicalStep)
            settings.classicalStep with
          rule := some "indexed-paren", effects := []
          startBits := stepBits settings position } := by
      rw [actionOnLine, numericLine, htemporal, hclassical, inlineEffects_grouped_eq hwords]
      rfl
    refine ⟨_, _, hline, haction, readAlike_called, fun _ => ?_⟩
    rw [hsecond]
    exact .step rfl rfl rfl

end Calls

end PlanPlayback.Transcript
