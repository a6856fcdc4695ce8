import PlanPlayback.Proofs.Transcript.Printing
import PlanPlayback.Transcript.Cues

/-!
# Cues do not reach over tokens

A cue is found in a printed line only if it is found in one of its tokens.  All cues begin with a
letter, and letters stand in tokens only; and no cue has a blank or a parenthesis in it, so that it
cannot reach over the end of its token.  What looks past a word for an opening parenthesis finds the
next token or a closing parenthesis instead.

* `FollowsToken` says what stands behind a token;
* `quiet_grouped` and `quiet_lineOf` put the parts of a call and of a line together;
* `IsWordCue.quiet` is about words, `exactly?_skipBlanks_eq_none` about what follows them.
-/

namespace PlanPlayback.Transcript

open Binary64 Decimal Text
open Token (IsWord IsDelimited isPlain isPlain_iff)

/-- What stands behind a token of a call: the closing parenthesis, or a blank and the next token. -/
inductive FollowsToken : List Char → Prop where
  | closing (rest : List Char) : FollowsToken (')' :: rest)
  | next (c : Char) (rest : List Char) (hc : isPlain c = true) : FollowsToken (' ' :: c :: rest)

theorem FollowsToken.isDelimited {rest : List Char} (h : FollowsToken rest) : IsDelimited rest := by
  cases h with
  | closing => exact Token.isDelimited_cons (by decide)
  | next => exact Token.isDelimited_cons (by decide)

section Parts

variable {found : Option Char → List Char → Bool} {before : Option Char}
  {tokens : List (List Char)} {behind : List Char}

/-- A call is quiet if its tokens are, whatever of the call is behind them. -/
theorem quiet_grouped (hne : tokens ≠ []) (hwords : ∀ token ∈ tokens, IsWord token)
    (hmarks : ∀ c ∈ ['(', ' '], ∀ before rest, found before (c :: rest) = false)
    (htokens : ∀ token ∈ tokens, ∀ before ∈ ['(', ' '], ∀ rest, FollowsToken rest →
      Quiet found (some before) token rest)
    (hclosing : ∀ before, found before (')' :: behind) = false) :
    Quiet found before (grouped tokens) behind := by
  have hspaced (mark : Char) (hmark : mark ∈ ['(', ' ']) :
      Quiet found (some mark) (spaced tokens) (')' :: behind) := by
    induction tokens generalizing mark with
    | nil => exact absurd rfl hne
    | cons first rest ih =>
      cases rest with
      | nil =>
        have hsingle : spaced [first] = first := by simp [spaced]
        rw [hsingle]
        exact htokens first (by simp) mark hmark _ (.closing behind)
      | cons second rest =>
        have hsecond : IsWord second := hwords second (by simp)
        have hfollows : FollowsToken ((' ' :: spaced (second :: rest)) ++ ')' :: behind) := by
          obtain ⟨c, token, rfl⟩ := List.exists_cons_of_ne_nil hsecond.1
          have hplain : isPlain c = true := hsecond.2 c (by simp)
          cases rest with
          | nil => simpa [spaced] using FollowsToken.next c (token ++ ')' :: behind) hplain
          | cons third rest =>
            rw [spaced_cons_cons]
            exact .next c _ hplain
        rw [spaced_cons_cons]
        refine (htokens first (by simp) mark hmark _ hfollows).append ⟨hmarks ' ' (by simp) _ _, ?_⟩
        exact ih (List.cons_ne_nil _ _)
          (fun token htoken => hwords token (List.mem_cons_of_mem _ htoken))
          (fun token htoken => htokens token (List.mem_cons_of_mem _ htoken)) ' ' (by simp)
  refine ⟨hmarks '(' (by simp) _ _, (hspaced '(' (by simp)).append ?_⟩
  exact quiet_singleton (hclosing _)

theorem quiet_lineOf {time : PlainNumeral} (hne : tokens ≠ [])
    (hwords : ∀ token ∈ tokens, IsWord token)
    (hmarks : ∀ c, c.isDigit = true ∨ c ∈ ['.', ':', '(', ' '] →
      ∀ before rest, found before (c :: rest) = false)
    (htokens : ∀ token ∈ tokens, ∀ before ∈ ['(', ' '], ∀ rest, FollowsToken rest →
      Quiet found (some before) token rest)
    (hclosing : ∀ before, found before (')' :: behind) = false) :
    Quiet found before (lineOf time tokens []) behind := by
  have htime : ∀ c ∈ time.text, ∀ before rest, found before (c :: rest) = false := by
    intro c hc
    rcases PlainNumeral.of_mem_text hc with hc | rfl
    · exact hmarks c (.inl hc)
    · exact hmarks '.' (.inr (by simp))
  rw [lineOf, List.append_nil]
  refine (quiet_of_head htime).append ⟨hmarks ':' (.inr (by simp)) _ _,
    hmarks ' ' (.inr (by simp)) _ _, ?_⟩
  refine quiet_grouped hne hwords (fun c hc => hmarks c (.inr ?_)) htokens hclosing
  exact List.mem_cons_of_mem _ (List.mem_cons_of_mem _ hc)

end Parts

/-- A token is quiet if nothing is found where the rest of a token stands. -/
theorem quiet_of_isPlain {found : Option Char → List Char → Bool} {token rest : List Char}
    (h : ∀ before run, (∀ c ∈ run, isPlain c = true) → found before (run ++ rest) = false)
    (htoken : ∀ c ∈ token, isPlain c = true) (before : Option Char) :
    Quiet found before token rest := by
  induction token generalizing before with
  | nil => trivial
  | cons c token ih =>
    refine ⟨h before (c :: token) htoken, ?_⟩
    exact ih (fun d hd => htoken d (List.mem_cons_of_mem _ hd)) (some c)

/-! ## Words -/

theorem isLower_of_isDigit {c : Char} (hc : c.isDigit = true) : c.isLower = false := by
  simpa using of_isDigit (P := fun d => !d.isLower) (by decide) hc

theorem afterPrefix?_append {word run rest : List Char} (hword : ∀ c ∈ word, isPlain c = true)
    (hrest : IsDelimited rest) :
    afterPrefix? word (run ++ rest) = (afterPrefix? word run).map (· ++ rest) := by
  induction word generalizing run with
  | nil => simp [afterPrefix?]
  | cons w word ih =>
    cases run with
    | nil =>
      cases rest with
      | nil => simp [afterPrefix?]
      | cons c rest =>
        have hne : w ≠ c := by
          rintro rfl
          have := hrest w rfl
          simp [hword w (by simp)] at this
        simp [afterPrefix?, hne]
    | cons c run =>
      by_cases hc : w = c
      · simp [afterPrefix?, hc, ih fun d hd => hword d (List.mem_cons_of_mem _ hd)]
      · simp [afterPrefix?, hc]

/-- Behind a token or a part of it there is no opening parenthesis. -/
theorem exactly?_skipBlanks_eq_none {run rest : List Char} (hrun : ∀ c ∈ run, isPlain c = true)
    (hrest : FollowsToken rest) : exactly? '(' (skipBlanks (run ++ rest)) = none := by
  have hplain {c : Char} (hc : isPlain c = true) (text : List Char) :
      exactly? '(' (skipBlanks (c :: text)) = none := by
    obtain ⟨hblank, hopening, -⟩ := isPlain_iff.mp hc
    rw [skipBlanks_cons hblank, exactly?_cons_of_ne hopening]
  cases run with
  | nil =>
    cases hrest with
    | closing => rfl
    | next c rest hc => exact hplain hc rest
  | cons c run => exact hplain (hrun c (by simp)) (run ++ rest)

theorem startsWithWordChar_append {run rest : List Char} (hrest : FollowsToken rest) :
    startsWithWordChar (run ++ rest) = startsWithWordChar run := by
  cases run with
  | nil => cases hrest <;> rfl
  | cons c run => rfl

/-- A cue that is a word: it begins where a word begins, looks no further back, and cannot be
continued behind a token. -/
structure IsWordCue (cue : Option Char → List Char → Bool) : Prop where
  nil : ∀ before, cue before [] = false
  head : ∀ c, c.isLower = false → ∀ before rest, cue before (c :: rest) = false
  before : ∀ mark ∈ ['(', ' '], ∀ text, cue (some mark) text = cue none text
  append : ∀ c run rest, FollowsToken rest → ∀ before,
    cue before (c :: (run ++ rest)) = cue before (c :: run)

/-- A word that is not found in a token is not found at the token within a line. -/
theorem IsWordCue.quiet {cue : Option Char → List Char → Bool} (h : IsWordCue cue)
    {token : List Char} (hnone : occurs cue token = false) {mark : Char} (hmark : mark ∈ ['(', ' '])
    {rest : List Char} (hrest : FollowsToken rest) : Quiet cue (some mark) token rest := by
  have hquiet : Quiet cue none token rest :=
    (occurs_eq_false_iff.mp hnone).1.extend fun before c run => h.append c run rest hrest before
  exact hquiet.change fun text htext => (h.before mark hmark text).trans htext

/-- The words that cues are made of: no blank and no parenthesis, and a small letter in front. -/
def isCueWord (word : String) : Bool :=
  word.toList.head?.any Char.isLower && word.toList.all isPlain

section Words

variable {word : String}

theorem isPlain_of_isCueWord (h : isCueWord word = true) : ∀ c ∈ word.toList, isPlain c = true := by
  rw [isCueWord, Bool.and_eq_true] at h
  exact List.all_eq_true.mp h.2

theorem afterPrefix?_of_isCueWord (h : isCueWord word = true) {c : Char} (hc : c.isLower = false)
    (rest : List Char) : afterPrefix? word.toList (c :: rest) = none := by
  rw [isCueWord, Bool.and_eq_true] at h
  cases hword : word.toList with
  | nil => simp [hword] at h
  | cons w letters =>
    have hne : w ≠ c := by
      rintro rfl
      simp [hword, hc] at h
    simp [afterPrefix?, hne]

theorem atWordStart_mark {mark : Char} (hmark : mark ∈ ['(', ' ']) (text : List Char) :
    atWordStart (some mark) text = atWordStart none text := by
  have hmarks : ['(', ' '].all (fun c => !isWordChar c) = true := by decide
  have hword : isWordChar mark = false := by simpa using List.all_eq_true.mp hmarks mark hmark
  simp [atWordStart, hword]

end Words

theorem isWordCue_wordBegins {starts : List String} (h : ∀ start ∈ starts, isCueWord start = true) :
    IsWordCue (wordBegins starts) where
  nil _ := rfl
  head c hc before rest := by
    have hnone : (starts.any fun start =>
        (afterPrefix? start.toList (c :: rest)).isSome) = false := by
      rw [List.any_eq_false]
      intro start hstart
      simp [afterPrefix?_of_isCueWord (h start hstart) hc]
    rw [wordBegins, hnone, Bool.and_false]
  before mark hmark text := by rw [wordBegins, wordBegins, atWordStart_mark hmark]
  append c run rest hrest before := by
    have hsame : ∀ start ∈ starts, (afterPrefix? start.toList ((c :: run) ++ rest)).isSome =
        (afterPrefix? start.toList (c :: run)).isSome := by
      intro start hstart
      rw [afterPrefix?_append (isPlain_of_isCueWord (h start hstart)) hrest.isDelimited,
        Option.isSome_map]
    have hany : (starts.any fun start => (afterPrefix? start.toList ((c :: run) ++ rest)).isSome) =
        starts.any fun start => (afterPrefix? start.toList (c :: run)).isSome := by
      rw [Bool.eq_iff_iff, List.any_eq_true, List.any_eq_true]
      exact exists_congr fun start => and_congr_right fun hstart => by rw [hsame start hstart]
    rw [wordBegins, wordBegins, ← List.cons_append, hany]
    rfl

theorem isWordCue_isWholeWord {word : String} (h : isCueWord word = true) :
    IsWordCue (isWholeWord word) where
  nil _ := rfl
  head c hc before rest := by
    rw [isWholeWord, afterPrefix?_of_isCueWord h hc, Option.any_none, Bool.and_false]
  before mark hmark text := by rw [isWholeWord, isWholeWord, atWordStart_mark hmark]
  append c run rest hrest before := by
    have happend := @afterPrefix?_append word.toList (c :: run) rest (isPlain_of_isCueWord h)
      hrest.isDelimited
    rw [isWholeWord, isWholeWord, ← List.cons_append, happend, Option.any_map]
    simp only [startsWithWordChar_append hrest]
    rfl

/-! ## Effects and signed numbers -/

theorem isCueWord_of_effect :
    ∀ word ∈ ["increase", "decrease", "assign"], isCueWord word = true := by
  have hall : ["increase", "decrease", "assign"].all isCueWord = true := by decide
  exact List.all_eq_true.mp hall

theorem effectOpens_eq_false {before : Option Char} {text : List Char}
    (h : ∀ word, isCueWord word = true → ((afterPrefix? word.toList text).bind
      fun rest => exactly? '(' (skipBlanks rest)) = none) : effectOpens before text = false := by
  have hnone : (["increase", "decrease", "assign"].any fun word =>
      ((afterPrefix? word.toList text).bind fun rest => exactly? '(' (skipBlanks rest)).isSome) =
        false := by
    rw [List.any_eq_false]
    intro word hword
    simp [h word (isCueWord_of_effect word hword)]
  rw [effectOpens, hnone, Bool.and_false]

theorem effectOpens_of_head {c : Char} (hc : c.isLower = false) (before : Option Char)
    (rest : List Char) : effectOpens before (c :: rest) = false := by
  refine effectOpens_eq_false fun word hword => ?_
  rw [afterPrefix?_of_isCueWord hword hc, Option.bind_none]

/-- A token is the word of no effect, because no parenthesis opens behind it. -/
theorem effectOpens_append {rest : List Char} (hrest : FollowsToken rest) (before : Option Char)
    (run : List Char) (hrun : ∀ c ∈ run, isPlain c = true) :
    effectOpens before (run ++ rest) = false := by
  refine effectOpens_eq_false fun word hword => ?_
  rw [afterPrefix?_append (isPlain_of_isCueWord hword) hrest.isDelimited]
  cases hafter : afterPrefix? word.toList run with
  | none => rfl
  | some behind =>
    rw [afterPrefix?_eq_some_iff] at hafter
    have hbehind : ∀ c ∈ behind, isPlain c = true :=
      fun c hc => hrun c (hafter ▸ List.mem_append_right _ hc)
    exact exactly?_skipBlanks_eq_none hbehind hrest

/-! ## Lines -/

/-- What stands behind a printed line: its end, and then nothing or the time of the next line. -/
inductive FollowsLine : List Char → Prop where
  | intro {ending behind : List Char} (hending : IsLineEnd ending behind)
      (hnext : ∀ c ∈ behind.head?, c.isDigit = true) : FollowsLine (ending ++ behind)

theorem FollowsLine.head_skipBlanks {rest : List Char} (h : FollowsLine rest) :
    ∀ c ∈ (skipBlanks rest).head?, c.isDigit = true := by
  obtain ⟨hending, hnext⟩ := h
  rename_i ending behind
  have hskip : skipBlanks (ending ++ behind) = behind := by
    have hbehind : skipBlanks behind = behind :=
      skipBlanks_eq_self fun c hc => isBlank_of_isDigit (hnext c hc)
    cases hending <;> exact hbehind
  rwa [hskip]

/-- Only digits stand behind the blank space after a printed line, and no sign. -/
theorem FollowsLine.signedNumberFollows {rest : List Char} (h : FollowsLine rest) :
    signedNumberFollows (')' :: rest) = false := by
  have hhead := h.head_skipBlanks
  unfold Transcript.signedNumberFollows
  rw [exactly?_cons, Option.bind_some]
  cases rest with
  | nil => rfl
  | cons c rest =>
    by_cases hc : isBlank c = true
    · have hskip : skipBlanks (c :: rest) = skipBlanks rest := by simp [skipBlanks, hc]
      rw [hskip] at hhead
      rw [someBlanks?, if_pos hc]
      generalize skipBlanks rest = found at hhead ⊢
      rcases found with _ | ⟨sign, _ | ⟨digit, others⟩⟩
      · rfl
      · rfl
      · have hsign : (sign != '+' && sign != '-') = true :=
          of_isDigit (P := fun d => d != '+' && d != '-') (by decide) (hhead sign rfl)
        simp_all
    · rw [someBlanks?, if_neg hc]

section Shapes

variable {time : PlainNumeral} {tokens : List (List Char)} {behind : List Char}

/-- A printed line without a duration has no shape that only temporal planners print. -/
theorem bracketShape_lineOf (htokens : ∀ token ∈ tokens, IsWord token)
    (hbehind : FollowsLine behind) :
    bracketShape (lineOf time tokens behind) = false := by
  have hcolon : ∀ c ∈ (':' :: ' ' :: (grouped tokens ++ behind)).head?,
      Text.isDigit c = false ∧ c ≠ '.' := by
    rintro c ⟨⟩
    decide
  have hbracket : exactly? '[' (skipBlanks behind) = none := by
    have hhead := hbehind.head_skipBlanks
    generalize skipBlanks behind = found at hhead ⊢
    cases found with
    | nil => rfl
    | cons c rest =>
      refine exactly?_cons_of_ne ?_ rest
      rintro rfl
      exact absurd (hhead '[' rfl) (by decide)
  have hgroup : grouped tokens ++ behind = '(' :: (spaced tokens ++ ')' :: behind) := by
    simp [grouped]
  rw [bracketShape, lineOf, time.numeral?_text_append hcolon, hgroup]
  simp [skipBlanks_cons (show isBlank ':' = false by decide),
    skipBlanks_cons (show isBlank '(' = false by decide), parenFree_spaced_append htokens, hbracket]

theorem durativeShape_lineOf (htokens : ∀ token ∈ tokens, IsWord token)
    (hbehind : FollowsLine behind) (before : Option Char) :
    durativeShape before (lineOf time tokens behind) = false := by
  have hbracket := @bracketShape_lineOf time tokens behind htokens hbehind
  obtain ⟨c, rest, hline, hc⟩ := @exists_lineOf_eq_cons time tokens behind
  have hmark : (c != '[' && c != 'a') = true :=
    of_isDigit (P := fun d => d != '[' && d != 'a') (by decide) hc
  rw [Bool.and_eq_true, bne_iff_ne, bne_iff_ne] at hmark
  have hinterval : intervalShape (lineOf time tokens behind) = false := by
    rw [hline, intervalShape, exactly?_cons_of_ne hmark.1]
    rfl
  have hat : atShape (lineOf time tokens behind) = false := by
    simp [hline, atShape, afterPrefix?, Ne.symm hmark.2]
  have hskip : skipBlanks (lineOf time tokens behind) = lineOf time tokens behind := by
    rw [hline]
    exact skipBlanks_cons (isBlank_of_isDigit hc) rest
  simp only [durativeShape, atLineStart, hskip, hbracket, hinterval, hat]
  cases before <;> simp

theorem quiet_durativeShape {c : Char} {part : List Char} (hc : c ≠ '\n') (hpart : '\n' ∉ part) :
    Quiet durativeShape (some c) part behind := by
  induction part generalizing c with
  | nil => trivial
  | cons d part ih =>
    rw [List.mem_cons, not_or] at hpart
    refine ⟨?_, ih (Ne.symm hpart.1) hpart.2⟩
    simp [durativeShape, atLineStart, hc]

end Shapes

end PlanPlayback.Transcript
