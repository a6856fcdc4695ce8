import PlanPlayback.Proofs.Transcript.Silence

/-!
# Numeric lines survive printing

A numeric plan prints the effects of an action behind its call, as in
`t: (name args) increase (f args) v`.  The effects are found again, in their order, and nothing else
is taken for an effect, whatever the tokens of the action and of the fluents are called.

## Strategy

Effects are looked for at every place of a line.  Only where a keyword stands with a parenthesis
behind it, an effect can begin, and a token has no parenthesis behind it.  So the call of the action
is quiet, and so is the rest of an effect once its keyword was found; what remains is an induction
on the effects (`everywhere_effects`).  On the other side, the rules that come before
`t: (name args)` do not fit, because nothing behind the call is in brackets.
-/

namespace PlanPlayback

/-- A numeric effect in its parts, as a planner prints it next to an action. -/
structure StatedEffect where
  update : Update
  name : String
  args : List String
  amount : Float
  deriving Repr

namespace StatedEffect

/-- Name and arguments of the fluent. -/
def tokens (e : StatedEffect) : List String :=
  e.name :: e.args

/-- `update (name args) amount` -/
def text (e : StatedEffect) : String :=
  e.update.keyword ++ " (" ++ " ".intercalate e.tokens ++ ") " ++ Decimal.positional e.amount

/-- The effect that is read from the parts. -/
def planned (e : StatedEffect) : PlannedEffect :=
  ⟨groundKey e.name e.args, e.update, e.amount⟩

end StatedEffect

namespace Transcript

open Binary64 Decimal Text
open Token (IsWord isPlain isPlain_iff)

/-- The updates that may stand on a line. -/
def inlineUpdates : List Update :=
  [.increase, .decrease, .assign]

/-- An effect that can be printed on a line. -/
structure IsPrintableEffect (e : StatedEffect) : Prop where
  isInline : e.update ∈ inlineUpdates
  isToken : ∀ token ∈ e.tokens, IsToken token
  isFinite : e.amount.isFinite = true

instance (e : StatedEffect) : Decidable (IsPrintableEffect e) :=
  decidable_of_iff (e.update ∈ inlineUpdates ∧ (∀ token ∈ e.tokens, IsToken token) ∧
      e.amount.isFinite = true)
    ⟨fun h => ⟨h.1, h.2.1, h.2.2⟩, fun h => ⟨h.isInline, h.isToken, h.isFinite⟩⟩

/-- Effects behind a call. -/
def effectsText (effects : List StatedEffect) : List Char :=
  effects.flatMap fun e => ' ' :: e.text.toList

/-- `t: (name args)` with effects behind it. -/
def numericText (a : Action) (effects : List StatedEffect) : String :=
  timedText a ++ String.join (effects.map fun e => " " ++ e.text)

/-! ## Where no effect begins -/

/-- Whether an effect is found at a place. -/
def effectFound (before : Option Char) (text : List Char) : Bool :=
  (scanEffect before text).isSome

theorem keyword_ne_nil {update : Update} (hupdate : update ∈ inlineUpdates) :
    update.keyword.toList ≠ [] := by
  have hall : (inlineUpdates.all fun update => !update.keyword.toList.isEmpty) = true := by decide
  simpa using List.all_eq_true.mp hall update hupdate

theorem of_mem_keyword {update : Update} (hupdate : update ∈ inlineUpdates) {w : Char}
    (hw : w ∈ update.keyword.toList) : isWordChar w = true ∧ isBlank w = false ∧ w ≠ '[' := by
  have hall : (inlineUpdates.all fun update => update.keyword.toList.all fun w =>
      isWordChar w && !isBlank w && w != '[') = true := by decide
  simpa [and_assoc] using List.all_eq_true.mp (List.all_eq_true.mp hall update hupdate) w hw

/-- What a line is made of besides tokens and keywords begins no keyword. -/
theorem not_matches_of_mem_keyword {update : Update} (hupdate : update ∈ inlineUpdates) {w : Char}
    (hw : w ∈ update.keyword.toList) {c : Char}
    (hc : c.isDigit = true ∨ c ∈ ['.', ':', '(', ' ', ')', '-']) :
    matchesIgnoringCase w c = false := by
  have hall : (inlineUpdates.all fun update => update.keyword.toList.all fun w => !w.isDigit &&
      ['.', ':', '(', ' ', ')', '-'].all fun c => !matchesIgnoringCase w c) = true := by decide
  have hletter := List.all_eq_true.mp (List.all_eq_true.mp hall update hupdate) w hw
  rw [Bool.and_eq_true] at hletter
  rcases hc with hc | hc
  · exact matchesIgnoringCase_of_isDigit (by simpa using hletter.1) hc
  · simpa using List.all_eq_true.mp hletter.2 c hc

theorem wordChars?_append {word run rest : List Char}
    (hword : ∀ w ∈ word, ∀ mark ∈ [' ', ')'], matchesIgnoringCase w mark = false)
    (hrest : FollowsToken rest) :
    wordChars? word (run ++ rest) = (wordChars? word run).map (· ++ rest) := by
  induction word generalizing run with
  | nil => simp [wordChars?]
  | cons w word ih =>
    cases run with
    | nil =>
      have hspace : matchesIgnoringCase w ' ' = false := hword w (by simp) ' ' (by simp)
      have hclosing : matchesIgnoringCase w ')' = false := hword w (by simp) ')' (by simp)
      cases hrest <;> simp [wordChars?, hspace, hclosing]
    | cons c run =>
      by_cases hc : matchesIgnoringCase w c = true
      · simp [wordChars?, hc, ih fun d hd => hword d (List.mem_cons_of_mem _ hd)]
      · simp [wordChars?, hc]

theorem exists_of_wordChars?_eq_some {word text rest : List Char}
    (h : wordChars? word text = some rest) : ∃ front, text = front ++ rest := by
  induction word generalizing text with
  | nil => exact ⟨[], by simpa [wordChars?] using h⟩
  | cons w word ih =>
    cases text with
    | nil => cases h
    | cons c text =>
      rw [wordChars?] at h
      split_ifs at h
      obtain ⟨front, rfl⟩ := ih h
      exact ⟨c :: front, rfl⟩

theorem effectFound_eq_false {before : Option Char} {text : List Char}
    (h : ∀ update ∈ inlineUpdates,
      ((word? update.keyword text).bind fun rest => exactly? '(' (skipBlanks rest)) = none) :
    effectFound before text = false := by
  have hkeywords : ["increase", "decrease", "assign"] = inlineUpdates.map Update.keyword := rfl
  rw [effectFound, Option.isSome_eq_false_iff, Option.isNone_iff_eq_none, scanEffect, hkeywords]
  split_ifs
  · rfl
  · rw [List.findSome?_eq_none_iff]
    intro keyword hkeyword
    obtain ⟨update, hupdate, rfl⟩ := List.mem_map.mp hkeyword
    have hnone := h update hupdate
    cases hword : word? update.keyword text with
    | none => rfl
    | some rest =>
      rw [hword, Option.bind_some] at hnone
      simp [group?, hnone]

theorem effectFound_of_head {c : Char} (hc : c.isDigit = true ∨ c ∈ ['.', ':', '(', ' ', ')', '-'])
    (before : Option Char) (rest : List Char) : effectFound before (c :: rest) = false := by
  refine effectFound_eq_false fun update hupdate => ?_
  obtain ⟨w, letters, hkeyword⟩ := List.exists_cons_of_ne_nil (keyword_ne_nil hupdate)
  have hw : matchesIgnoringCase w c = false :=
    not_matches_of_mem_keyword hupdate (by simp [hkeyword]) hc
  simp [word?, hkeyword, wordChars?, hw]

/-- A token is the keyword of no effect, because no parenthesis opens behind it. -/
theorem effectFound_append {rest : List Char} (hrest : FollowsToken rest) (before : Option Char)
    (run : List Char) (hrun : ∀ c ∈ run, isPlain c = true) :
    effectFound before (run ++ rest) = false := by
  have hmarks : [' ', ')'] ⊆ ['.', ':', '(', ' ', ')', '-'] := by decide
  refine effectFound_eq_false fun update hupdate => ?_
  rw [word?, wordChars?_append (fun w hw mark hmark =>
    not_matches_of_mem_keyword hupdate hw (.inr (hmarks hmark))) hrest]
  cases hafter : wordChars? update.keyword.toList run with
  | none => rfl
  | some behind =>
    obtain ⟨front, rfl⟩ := exists_of_wordChars?_eq_some hafter
    exact exactly?_skipBlanks_eq_none (fun c hc => hrun c (List.mem_append_right _ hc)) hrest

/-- No effect is found inside a word. -/
theorem effectFound_of_isWordChar {before : Char} (hbefore : isWordChar before = true)
    (text : List Char) : effectFound (some before) text = false := by
  simp [effectFound, scanEffect, atWordStart, hbefore]

theorem quiet_inside {before : Char} {part behind : List Char} (hbefore : isWordChar before = true)
    (hpart : ∀ c ∈ part, isWordChar c = true) : Quiet effectFound (some before) part behind := by
  induction part generalizing before with
  | nil => trivial
  | cons c part ih =>
    refine ⟨effectFound_of_isWordChar hbefore _, ?_⟩
    exact ih (hpart c (by simp)) fun d hd => hpart d (List.mem_cons_of_mem _ hd)

section Calls

variable {tokens : List (List Char)} {behind : List Char} {before : Option Char}

theorem quiet_effectFound_grouped (hne : tokens ≠ []) (hwords : ∀ token ∈ tokens, IsWord token) :
    Quiet effectFound before (grouped tokens) behind := by
  refine quiet_grouped hne hwords ?_ ?_ fun before => effectFound_of_head (.inr (by simp)) before _
  · intro c hc
    have hmarks : ['(', ' '] ⊆ ['.', ':', '(', ' ', ')', '-'] := by decide
    exact effectFound_of_head (.inr (hmarks hc))
  · intro token ht before _ rest hrest
    exact quiet_of_isPlain (effectFound_append hrest) (hwords token ht).2 _

theorem quiet_effectFound_lineOf {time : PlainNumeral} (hne : tokens ≠ [])
    (hwords : ∀ token ∈ tokens, IsWord token) :
    Quiet effectFound before (lineOf time tokens []) behind := by
  refine quiet_lineOf hne hwords ?_ ?_ fun before => effectFound_of_head (.inr (by simp)) before _
  · intro c hc
    have hmarks : ['.', ':', '(', ' '] ⊆ ['.', ':', '(', ' ', ')', '-'] := by decide
    exact effectFound_of_head (hc.imp_right fun hc => hmarks hc)
  · intro token ht before _ rest hrest
    exact quiet_of_isPlain (effectFound_append hrest) (hwords token ht).2 _

end Calls

/-! ## Where an effect begins -/

theorem findSome?_eq_some_of_unique {α β : Type} [DecidableEq α] {f : α → Option β} {items : List α}
    {a : α} {b : β} (ha : a ∈ items) (h : ∀ c ∈ items, f c = if c = a then some b else none) :
    items.findSome? f = some b := by
  induction items with
  | nil => cases ha
  | cons c rest ih =>
    rw [List.findSome?_cons, h c (by simp)]
    by_cases hc : c = a
    · rw [if_pos hc]
    · rw [if_neg hc]
      exact ih ((List.mem_cons.mp ha).resolve_left (Ne.symm hc))
        fun d hd => h d (List.mem_cons_of_mem _ hd)

theorem ofKeyword?_keyword (update : Update) : Update.ofKeyword? update.keyword = some update := by
  cases update <;> decide

theorem lowercased_keyword (update : Update) : lowercased update.keyword = update.keyword := by
  cases update <;> decide

/-- No two keywords fit at one place. -/
theorem word?_keyword_append {update update' : Update} (h : update ∈ inlineUpdates)
    (h' : update' ∈ inlineUpdates) (rest : List Char) :
    word? update.keyword (update'.keyword.toList ++ rest) =
      if update = update' then some rest else none := by
  simp only [inlineUpdates, List.mem_cons, List.not_mem_nil, or_false] at h h'
  rcases h with rfl | rfl | rfl <;> rcases h' with rfl | rfl | rfl <;> rfl

theorem atWordStart_keyword_append {update : Update} (h : update ∈ inlineUpdates)
    (rest : List Char) : atWordStart (some ' ') (update.keyword.toList ++ rest) = true := by
  simp only [inlineUpdates, List.mem_cons, List.not_mem_nil, or_false] at h
  rcases h with rfl | rfl | rfl <;> rfl

/-- A keyword, words in parentheses and a numeral are an effect. -/
theorem scanEffect_keyword_append {update : Update} (hupdate : update ∈ inlineUpdates)
    {rest behind behind' amount name : List Char} {args : List (List Char)} {value : Float}
    (hgroup : group? (skipBlanks rest) = some (name :: args, behind))
    (hamount : signedNumeral? (skipBlanks behind) = some (amount, behind'))
    (hread : Decimal.float? amount = some value) :
    scanEffect (some ' ') (update.keyword.toList ++ rest) =
      some (some ⟨groundKey (String.ofList (lowercase name))
        (args.map fun arg => String.ofList (lowercase arg)), update, value⟩) := by
  have hkeywords : ["increase", "decrease", "assign"] = inlineUpdates.map Update.keyword := rfl
  have hspelled :
      String.ofList (lowercase ((update.keyword.toList ++ rest).take update.keyword.length)) =
        update.keyword := by
    rw [← String.length_toList, List.take_left]
    exact lowercased_keyword update
  rw [scanEffect, atWordStart_keyword_append hupdate, hkeywords, List.findSome?_map]
  refine findSome?_eq_some_of_unique hupdate fun other hother => ?_
  simp only [Function.comp_apply, word?_keyword_append hother hupdate]
  split_ifs with heq
  · subst heq
    simp only [Option.bind_eq_bind, Option.bind_some, hgroup, hamount, hspelled,
      ofKeyword?_keyword, hread, Option.pure_def]
  · rfl

/-! ## The effects of a line -/

/-- The words of an effect. -/
def wordsOfEffect (e : StatedEffect) : List (List Char) :=
  e.tokens.map String.toList

theorem toList_text (e : StatedEffect) : e.text.toList =
    e.update.keyword.toList ++ ' ' :: (grouped (wordsOfEffect e) ++
      ' ' :: (positional e.amount).toList) := by
  simp [StatedEffect.text, wordsOfEffect, grouped, spaced, String.toList_intercalate]

theorem toList_numericText {a : Action} {time : PlainNumeral} (effects : List StatedEffect)
    (htime : (positional a.start).toList = time.text) :
    (numericText a effects).toList = lineOf time (wordsOfAction a) (effectsText effects) := by
  have hspace : " ".toList = [' '] := rfl
  rw [← lineOf_append]
  simp [numericText, effectsText, toList_timedText htime, String.toList_join, List.flatMap_map,
    hspace]

namespace IsPrintableEffect

variable {e : StatedEffect}

theorem isWord (h : IsPrintableEffect e) : ∀ token ∈ wordsOfEffect e, IsWord token :=
  isWord_of_mem_map h.isToken

theorem wordsOfEffect_ne_nil (e : StatedEffect) : wordsOfEffect e ≠ [] := by
  simp [wordsOfEffect, StatedEffect.tokens]

theorem of_mem_amount (h : IsPrintableEffect e) {c : Char} (hc : c ∈ (positional e.amount).toList) :
    c.isDigit = true ∨ c ∈ ['.', '-'] := by
  obtain ⟨p, htext, -⟩ := exists_positional_eq h.isFinite
  rw [htext, List.mem_append] at hc
  rcases hc with hc | hc
  · cases hsign : isMinus (signOf e.amount) <;> simp_all [signText]
  · rcases PlainNumeral.of_mem_text hc with hc | rfl
    · exact .inl hc
    · exact .inr (by simp)

theorem skipBlanks_amount (h : IsPrintableEffect e) (rest : List Char) :
    skipBlanks ((positional e.amount).toList ++ rest) = (positional e.amount).toList ++ rest := by
  obtain ⟨p, htext, -⟩ := exists_positional_eq h.isFinite
  obtain ⟨d, digits, hdigits, -⟩ := p.exists_text_eq_cons
  obtain ⟨c, text, hcons⟩ : ∃ c text, (positional e.amount).toList = c :: text :=
    List.exists_cons_of_ne_nil (by simp [htext, hdigits])
  have hblank : isBlank c = false := by
    rcases h.of_mem_amount (c := c) (by simp [hcons]) with hc | hc
    · exact isBlank_of_isDigit hc
    · have hmarks : (['.', '-'].all fun d => !isBlank d) = true := by decide
      simpa using List.all_eq_true.mp hmarks c hc
  rw [hcons]
  exact skipBlanks_cons hblank _

/-- A printed effect is found where it begins. -/
theorem scanEffect_eq (h : IsPrintableEffect e) {rest : List Char}
    (hrest : ∀ c ∈ rest.head?, Text.isDigit c = false ∧ c ≠ '.') :
    scanEffect (some ' ') (e.text.toList ++ rest) = some (some e.planned) := by
  have hgroup : group? (skipBlanks (' ' :: (grouped (wordsOfEffect e) ++
      ' ' :: ((positional e.amount).toList ++ rest)))) =
        some (wordsOfEffect e, ' ' :: ((positional e.amount).toList ++ rest)) := by
    rw [skipBlanks_space, grouped, List.cons_append, skipBlanks_cons (by decide)]
    exact group?_grouped_append (wordsOfEffect_ne_nil e) h.isWord _
  have hamount : signedNumeral? (skipBlanks (' ' :: ((positional e.amount).toList ++ rest))) =
      some ((positional e.amount).toList, rest) := by
    rw [skipBlanks_space, h.skipBlanks_amount]
    exact signedNumeral?_positional_append h.isFinite hrest
  have hname : String.ofList (lowercase e.name.toList) = e.name :=
    (h.isToken e.name (List.mem_cons_self ..)).2
  have hargs : (e.args.map String.toList).map (fun arg => String.ofList (lowercase arg)) = e.args :=
    map_lowercase_tokens fun arg harg => h.isToken arg (List.mem_cons_of_mem _ harg)
  have hscan := scanEffect_keyword_append h.isInline hgroup hamount (float?_positional h.isFinite)
  rw [hname, hargs] at hscan
  rw [toList_text]
  simpa [StatedEffect.planned] using hscan

/-- Nothing else is found in a printed effect. -/
theorem everywhere_text (h : IsPrintableEffect e) {rest : List Char}
    (hrest : ∀ c ∈ rest.head?, Text.isDigit c = false ∧ c ≠ '.') :
    everywhere scanEffect (some ' ') (e.text.toList ++ rest) =
      some e.planned :: everywhere scanEffect (lastOf (some ' ') e.text.toList) rest := by
  have hscan := h.scanEffect_eq hrest
  have hkeyword : ∀ c ∈ e.update.keyword.toList, isWordChar c = true :=
    fun c hc => (of_mem_keyword h.isInline hc).1
  obtain ⟨w, letters, hcons⟩ := List.exists_cons_of_ne_nil (keyword_ne_nil h.isInline)
  have hquiet : Quiet effectFound (some w) (letters ++ ' ' :: (grouped (wordsOfEffect e) ++
      ' ' :: (positional e.amount).toList)) rest := by
    have hinside : ∀ c ∈ letters, isWordChar c = true :=
      fun c hc => hkeyword c (by simp [hcons, hc])
    refine (quiet_inside (hkeyword w (by simp [hcons])) hinside).append
      ⟨effectFound_of_head (.inr (by simp)) _ _, ?_⟩
    refine (quiet_effectFound_grouped (wordsOfEffect_ne_nil e) h.isWord).append
      ⟨effectFound_of_head (.inr (by simp)) _ _, quiet_of_head fun c hc => ?_⟩
    have hmarks : ['.', '-'] ⊆ ['.', ':', '(', ' ', ')', '-'] := by decide
    exact effectFound_of_head ((h.of_mem_amount hc).imp_right fun hc => hmarks hc)
  have htext : e.text.toList = w :: (letters ++ ' ' :: (grouped (wordsOfEffect e) ++
      ' ' :: (positional e.amount).toList)) := by
    rw [toList_text, hcons]
    rfl
  rw [htext] at hscan ⊢
  rw [List.cons_append, everywhere, ← List.cons_append, hscan, everywhere_append_of_quiet hquiet,
    lastOf_cons]
  rfl

end IsPrintableEffect

/-- The effects of a line are found one after the other. -/
theorem everywhere_effects {effects : List StatedEffect} (h : ∀ e ∈ effects, IsPrintableEffect e)
    (before : Option Char) :
    everywhere scanEffect before (effectsText effects) = effects.map fun e => some e.planned := by
  unfold effectsText
  induction effects generalizing before with
  | nil => rfl
  | cons e rest ih =>
    have hrest : ∀ c ∈ (rest.flatMap fun e => ' ' :: e.text.toList).head?,
        Text.isDigit c = false ∧ c ≠ '.' := by
      cases rest with
      | nil => simp
      | cons next rest =>
        rintro c ⟨⟩
        decide
    have hspace : scanEffect before (' ' :: (e.text.toList ++
        rest.flatMap fun e => ' ' :: e.text.toList)) = none := by
      simpa [effectFound] using effectFound_of_head (.inr (by simp)) before _
    rw [List.flatMap_cons, List.cons_append, everywhere, hspace,
      (h e (by simp)).everywhere_text hrest, ih fun d hd => h d (List.mem_cons_of_mem _ hd)]
    rfl

theorem inlineEffects_lineOf {a : Action} (ha : IsPrintable a) {effects : List StatedEffect}
    (heffects : ∀ e ∈ effects, IsPrintableEffect e) {time : PlainNumeral} :
    inlineEffects (lineOf time (wordsOfAction a) (effectsText effects)) =
      effects.map StatedEffect.planned := by
  have hquiet : Quiet effectFound none (lineOf time (wordsOfAction a) []) (effectsText effects) :=
    quiet_effectFound_lineOf (by simp [wordsOfAction, Action.tokens]) ha.isWord
  rw [inlineEffects, ← lineOf_append, everywhere_append_of_quiet hquiet,
    everywhere_effects heffects, List.filterMap_map]
  simp

theorem exactly?_skipBlanks_effectsText {effects : List StatedEffect}
    (heffects : ∀ e ∈ effects, IsPrintableEffect e) :
    exactly? '[' (skipBlanks (effectsText effects)) = none := by
  cases effects with
  | nil => rfl
  | cons e rest =>
    have hinline : e.update ∈ inlineUpdates := (heffects e (by simp)).isInline
    obtain ⟨w, letters, hcons⟩ := List.exists_cons_of_ne_nil (keyword_ne_nil hinline)
    have hmem : w ∈ e.update.keyword.toList := by simp [hcons]
    obtain ⟨-, hblank, hbracket⟩ := of_mem_keyword hinline hmem
    rw [effectsText, List.flatMap_cons, toList_text, hcons]
    simp only [List.cons_append, skipBlanks_space, skipBlanks_cons hblank,
      exactly?_cons_of_ne hbracket]

/-! ## The rule of a line -/

section Rules

variable {settings : DurationSettings} {position : ℕ} {line : List Char}

/-- A rule that does not fit is passed over. -/
theorem firstApplying_cons_eq (rule : ActionRule) {rules : List ActionRule}
    (h : rule.shape.scan line = none) :
    firstApplying (rule :: rules) settings position line =
      firstApplying rules settings position line := by
  have hnone : rule.apply settings position line = none := by
    rw [ActionRule.apply, h]
    rfl
  rw [firstApplying, List.findSome?_cons, hnone]
  rfl

variable {time : PlainNumeral} {tokens : List (List Char)} {behind : List Char}

theorem scanBracketDuration_eq_none (hne : tokens ≠ []) (hwords : ∀ token ∈ tokens, IsWord token)
    (hbehind : bracketed? (skipBlanks behind) = none) :
    scanBracketDuration (lineOf time tokens behind) = none := by
  simp [scanBracketDuration, timeLabel?_lineOf, group?_grouped_append hne hwords, hbehind]

theorem scanInterval_eq_none : scanInterval (lineOf time tokens behind) = none := by
  obtain ⟨c, rest, hline, hc⟩ := @exists_lineOf_eq_cons time tokens behind
  have hne : c ≠ '[' := by
    rintro rfl
    exact absurd hc (by decide)
  rw [hline, scanInterval, exactly?_cons_of_ne hne]
  rfl

theorem scanAtTime_eq_none : scanAtTime (lineOf time tokens behind) = none := by
  obtain ⟨c, rest, hline, hc⟩ := @exists_lineOf_eq_cons time tokens behind
  have hword : word? "at" (c :: rest) = none := word?_cons_of_isDigit rfl rfl hc rest
  rw [hline, scanAtTime, hword]
  rfl

theorem scanTimedBare_eq_none : scanTimedBare (lineOf time tokens behind) = none := by
  have hparen : (grouped tokens ++ behind).any isParen = true := by
    rw [List.any_eq_true]
    exact ⟨'(', by simp [grouped], rfl⟩
  rw [scanTimedBare, timeLabel?_lineOf]
  simp only [Option.bind_eq_bind, Option.bind_some, hparen, Bool.true_or, if_true]

/-- The first temporal rule that fits a call with a time in front and no duration behind it. -/
theorem temporalLine_timed {name : List Char} {args : List (List Char)} {start : Float}
    (hwords : ∀ token ∈ name :: args, IsWord token) (hstart : Decimal.float? time.text = some start)
    (hbehind : bracketed? (skipBlanks behind) = none) :
    temporalLine settings position (lineOf time (name :: args) behind) =
      some { called name args start settings.unstated with rule := some "timed-paren" } := by
  have hbracket : scanBracketDuration (lineOf time (name :: args) behind) = none :=
    scanBracketDuration_eq_none (List.cons_ne_nil _ _) hwords hbehind
  have htimes : (TimeText.at time.text).read? settings position =
      some (start, settings.unstated) := by
    simp [TimeText.read?, hstart]
  have hscan : scanTimedParen (lineOf time (name :: args) behind) =
      some ⟨.at time.text, name, args⟩ :=
    scanTimedParen_lineOf hwords
  have hrule := apply_of_scan ⟨"timed-paren", .timedParen⟩ hscan htimes
  rw [temporalLine, temporalRules,
    firstApplying_cons_eq ⟨"bracket-duration", .bracketDuration⟩ hbracket,
    firstApplying_cons_eq ⟨"interval", .interval⟩ scanInterval_eq_none,
    firstApplying_cons_eq ⟨"at-time", .atTime⟩ scanAtTime_eq_none,
    firstApplying_cons_eq ⟨"timed-bare", .timedBare⟩ scanTimedBare_eq_none,
    firstApplying, List.findSome?_cons, hrule]
  rfl

theorem temporalLine_lineOf {a : Action} (h : IsPrintable a)
    (hstart : Decimal.float? time.text = some a.start)
    (hbehind : exactly? '[' (skipBlanks behind) = none) :
    temporalLine settings position (lineOf time (wordsOfAction a) behind) =
      some (a.recorded (larger settings.unstated 0.0) "timed-paren") := by
  have hbracketed : bracketed? (skipBlanks behind) = none := by simp [bracketed?, hbehind]
  have hline := @temporalLine_timed settings position time behind a.name.toList
    (a.args.map String.toList) a.start h.isWord hstart hbracketed
  rw [called, h.ofList_lowercase_name, h.ofList_lowercase_args] at hline
  exact hline

end Rules

/-- **Numeric lines survive printing.**  The effects behind an action are found again, in their
order and with their amounts, and the action is read as if they were not there. -/
theorem numeric_line_of_printed_effects (settings : DurationSettings) (position : ℕ) {a : Action}
    (ha : IsPrintable a) {effects : List StatedEffect}
    (heffects : ∀ e ∈ effects, IsPrintableEffect e) :
    ∃ read, numericLine settings position (numericText a effects).toList = some read ∧
      read = { a.recorded (larger settings.unstated 0.0) "timed-paren" with
        effects := effects.map StatedEffect.planned } ∧
      (0.0 ≤ settings.unstated → read.duration = settings.unstated) := by
  obtain ⟨time, htime, hstart⟩ := ha.exists_start_eq
  have hline := toList_numericText effects htime
  have haction := @temporalLine_lineOf settings position time (effectsText effects) a ha hstart
    (exactly?_skipBlanks_effectsText heffects)
  refine ⟨_, ?_, rfl, fun hunstated => larger_eq_left hunstated⟩
  rw [numericLine, hline, inlineEffects_lineOf ha heffects, haction]
  rfl

/-- The last argument has the name of an update, and so has a fluent. -/
theorem move_of_printed_effects :
    let a := Action.make "move" ["r1", "increase"] 0.5 1.0
    let effects : List StatedEffect :=
      [⟨.decrease, "battery", ["r1"], -20.25⟩, ⟨.assign, "assign", [], 3.0⟩]
    (IsPrintable a ∧ ∀ e ∈ effects, IsPrintableEffect e) ∧
    ∃ read, numericLine {} 0 (numericText a effects).toList = some read ∧
      read = { a.recorded (larger ({} : DurationSettings).unstated 0.0) "timed-paren" with
        effects := effects.map StatedEffect.planned } ∧
      (0.0 ≤ ({} : DurationSettings).unstated →
        read.duration = ({} : DurationSettings).unstated) := by
  intro a effects
  have ha : IsPrintable a := by decide +kernel
  have heffects : ∀ e ∈ effects, IsPrintableEffect e := by decide +kernel
  exact ⟨⟨ha, heffects⟩, numeric_line_of_printed_effects {} 0 ha heffects⟩

end Transcript

end PlanPlayback
