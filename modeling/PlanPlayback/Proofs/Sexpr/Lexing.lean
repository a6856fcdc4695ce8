import Mathlib.Data.List.TakeWhile
import PlanPlayback.Sexpr.Token

/-!
# How a text falls into tokens

A text is blank space, parentheses and words, where a word is a maximal run of other characters.
`tokenize` does not go through a text in this way: it sets the parentheses apart first and splits
the result at blank space.  Here both are shown to come to the same.

## Strategy

`Token.lexing_induction` takes a text apart from the left, and for each of its cases there is an
equation that says what the tokens are.  What holds of all tokens of all texts is then proved by this
induction, and what the tokens of a given text are is computed with the equations.
-/

namespace PlanPlayback

theorem Text.words_run_append {run rest : List Char} (hne : run ≠ [])
    (hrun : ∀ c ∈ run, isBlank c = false) (hrest : ∀ c ∈ rest.head?, isBlank c = true) :
    words (run ++ rest) = run :: words rest := by
  induction run with
  | nil => exact absurd rfl hne
  | cons c run ih =>
    have hc : isBlank c = false := hrun c List.mem_cons_self
    cases run with
    | nil =>
      cases rest with
      | nil => simp [words, hc]
      | cons next rest =>
        have hnext : isBlank next = true := hrest next rfl
        simp [words, hc, hnext]
    | cons next run =>
      have hnext : isBlank next = false := hrun next (by simp)
      have htail : words (next :: (run ++ rest)) = (next :: run) :: words rest :=
        ih (List.cons_ne_nil _ _) fun c hc => hrun c (List.mem_cons_of_mem _ hc)
      rw [List.cons_append, List.cons_append, words]
      simp [hc, hnext, htail]

namespace Token

/-- Whether a character may stand in an atom: it is neither blank nor a parenthesis. -/
def isPlain (c : Char) : Bool :=
  !(Text.isBlank c || c = '(' || c = ')')

/-- The characters of an atom. -/
def IsWord (run : List Char) : Prop :=
  run ≠ [] ∧ ∀ c ∈ run, isPlain c = true

instance (run : List Char) : Decidable (IsWord run) :=
  -- by the members of the list, not by all characters
  letI : Decidable (∀ c ∈ run, isPlain c = true) := List.decidableBAll _ run
  inferInstanceAs (Decidable (_ ∧ _))

/-- A text that begins with no character of an atom. -/
def IsDelimited (rest : List Char) : Prop :=
  ∀ c ∈ rest.head?, isPlain c = false

theorem isPlain_iff {c : Char} :
    isPlain c = true ↔ Text.isBlank c = false ∧ c ≠ '(' ∧ c ≠ ')' := by
  simp [isPlain, and_assoc]

theorem isDelimited_nil : IsDelimited [] := by
  simp [IsDelimited]

theorem isDelimited_cons {c : Char} {rest : List Char} (hc : isPlain c = false) :
    IsDelimited (c :: rest) := by
  simpa [IsDelimited] using hc

/-- A text is taken apart from the left: a blank character, a parenthesis or a whole word. -/
theorem lexing_induction {P : List Char → Prop} (nil : P [])
    (blank : ∀ c rest, Text.isBlank c = true → P rest → P (c :: rest))
    (paren : ∀ c rest, c = '(' ∨ c = ')' → P rest → P (c :: rest))
    (word : ∀ run rest, IsWord run → IsDelimited rest → P rest → P (run ++ rest))
    (text : List Char) : P text := by
  induction hlength : text.length using Nat.strongRecOn generalizing text with
  | ind n ih =>
    cases text with
    | nil => exact nil
    | cons c text =>
      have hshorter : text.length < n := by simp [← hlength]
      cases hplain : isPlain c with
      | false =>
        have hrest : P text := ih text.length hshorter text rfl
        by_cases hparen : c = '(' ∨ c = ')'
        · exact paren c text hparen hrest
        · refine blank c text ?_ hrest
          simpa [isPlain, not_or.mp hparen] using hplain
      | true =>
        -- the word is as long as it can be, so that what follows it is delimited
        have hword : IsWord (c :: text.takeWhile isPlain) := by
          refine ⟨List.cons_ne_nil _ _, ?_⟩
          simpa [hplain] using fun x hx => List.mem_takeWhile_imp hx
        have hdelimited : IsDelimited (text.dropWhile isPlain) := by
          intro x hx
          have hhead := List.head?_dropWhile_not isPlain text
          rwa [Option.mem_def.mp hx] at hhead
        have hdropped : (text.dropWhile isPlain).length < n :=
          (List.length_dropWhile_le _ _).trans_lt hshorter
        have := word _ _ hword hdelimited (ih _ hdropped _ rfl)
        rwa [List.cons_append, List.takeWhile_append_dropWhile] at this

/-! ## The tokens, part by part -/

/-- The tokens of a text that is given by its characters. -/
def tokensOf (text : List Char) : List Token :=
  (Text.words (setApart text)).map ofWord

theorem tokenize_eq (text : String) : tokenize text = tokensOf text.toList := rfl

@[simp] theorem tokensOf_nil : tokensOf [] = [] := rfl

theorem tokensOf_cons_of_isBlank {c : Char} (hc : Text.isBlank c = true) (rest : List Char) :
    tokensOf (c :: rest) = tokensOf rest := by
  have hparen : ¬(c = '(' ∨ c = ')') := by
    rintro (rfl | rfl) <;> exact absurd hc (by decide)
  simp [tokensOf, setApart, hparen, Text.words_cons_of_isBlank hc]

theorem tokensOf_cons_of_paren {c : Char} (hc : c = '(' ∨ c = ')') (rest : List Char) :
    tokensOf (c :: rest) = ofWord [c] :: tokensOf rest := by
  have hblank : Text.isBlank c = false := by
    rcases hc with rfl | rfl <;> decide
  have hapart : setApart (c :: rest) = ' ' :: ([c] ++ ' ' :: setApart rest) := by
    simp [setApart, hc]
  have hspace_blank : Text.isBlank ' ' = true := by decide
  have hspace (text : List Char) : Text.words (' ' :: text) = Text.words text :=
    Text.words_cons_of_isBlank hspace_blank text
  have hword : Text.words ([c] ++ ' ' :: setApart rest) = [c] :: Text.words (setApart rest) := by
    rw [Text.words_run_append (by simp) (by simpa using hblank) (by simp [hspace_blank]), hspace]
  rw [tokensOf, hapart, hspace, hword]
  rfl

@[simp] theorem tokensOf_cons_opening (rest : List Char) :
    tokensOf ('(' :: rest) = .opening :: tokensOf rest :=
  tokensOf_cons_of_paren (.inl rfl) rest

@[simp] theorem tokensOf_cons_closing (rest : List Char) :
    tokensOf (')' :: rest) = .closing :: tokensOf rest :=
  tokensOf_cons_of_paren (.inr rfl) rest

@[simp] theorem tokensOf_cons_space (rest : List Char) : tokensOf (' ' :: rest) = tokensOf rest :=
  tokensOf_cons_of_isBlank (by decide) rest

theorem setApart_eq_self {run : List Char} (hrun : ∀ c ∈ run, isPlain c = true) :
    setApart run = run := by
  induction run with
  | nil => rfl
  | cons c run ih =>
    have hc := isPlain_iff.mp (hrun c List.mem_cons_self)
    have hrest : setApart run = run := ih fun c hc => hrun c (List.mem_cons_of_mem _ hc)
    simp [setApart, hc.2] at hrest ⊢
    exact hrest

theorem isBlank_of_mem_head?_setApart {rest : List Char} (hrest : IsDelimited rest) :
    ∀ c ∈ (setApart rest).head?, Text.isBlank c = true := by
  cases rest with
  | nil => simp [setApart]
  | cons c rest =>
    by_cases hparen : c = '(' ∨ c = ')'
    · have hhead : (setApart (c :: rest)).head? = some ' ' := by simp [setApart, hparen]
      rw [hhead]
      rintro x ⟨⟩
      decide
    · have hhead : (setApart (c :: rest)).head? = some c := by simp [setApart, hparen]
      have hc : isPlain c = false := hrest c rfl
      rw [hhead]
      simpa [isPlain, not_or.mp hparen] using hc

theorem ofWord_of_isWord {run : List Char} (hrun : IsWord run) :
    ofWord run = .atom (String.ofList run) := by
  have hne (c : Char) (hc : isPlain c = false) : run ≠ [c] := by
    rintro rfl
    exact absurd (hrun.2 c (by simp)) (by simp [hc])
  rw [ofWord, if_neg (hne '(' (by decide)), if_neg (hne ')' (by decide))]

theorem tokensOf_append {run rest : List Char} (hrun : IsWord run) (hrest : IsDelimited rest) :
    tokensOf (run ++ rest) = .atom (String.ofList run) :: tokensOf rest := by
  have hapart : setApart (run ++ rest) = run ++ setApart rest := by
    rw [setApart, List.flatMap_append, ← setApart, ← setApart, setApart_eq_self hrun.2]
  have hwords : Text.words (run ++ setApart rest) = run :: Text.words (setApart rest) :=
    Text.words_run_append hrun.1 (fun c hc => (isPlain_iff.mp (hrun.2 c hc)).1)
      (isBlank_of_mem_head?_setApart hrest)
  rw [tokensOf, hapart, hwords, List.map_cons, ofWord_of_isWord hrun]
  rfl

/-- **All atoms are words.**  The tokens of a text hold no atom that is empty or has blank space or a
parenthesis in it. -/
theorem isWord_of_mem_tokensOf {text : List Char} {word : String}
    (h : .atom word ∈ tokensOf text) : IsWord word.toList := by
  induction text using lexing_induction with
  | nil => simp at h
  | blank c rest hc ih =>
    rw [tokensOf_cons_of_isBlank hc] at h
    exact ih h
  | paren c rest hc ih =>
    rcases hc with rfl | rfl
    · exact ih (by simpa using h)
    · exact ih (by simpa using h)
  | word run rest hrun hrest ih =>
    rw [tokensOf_append hrun hrest] at h
    rcases List.mem_cons.mp h with hfirst | hrest
    · have hword : word = String.ofList run := Token.atom.inj hfirst
      rwa [hword, String.toList_ofList]
    · exact ih hrest

/-- **All atoms stand in the text.** -/
theorem isInfix_of_mem_tokensOf {text : List Char} {word : String}
    (h : .atom word ∈ tokensOf text) : word.toList <:+: text := by
  induction text using lexing_induction with
  | nil => simp at h
  | blank c rest hc ih =>
    rw [tokensOf_cons_of_isBlank hc] at h
    exact List.infix_cons (ih h)
  | paren c rest hc ih =>
    rcases hc with rfl | rfl
    · exact List.infix_cons (ih (by simpa using h))
    · exact List.infix_cons (ih (by simpa using h))
  | word run rest hrun hrest ih =>
    rw [tokensOf_append hrun hrest] at h
    rcases List.mem_cons.mp h with hfirst | hrest
    · have hword : word = String.ofList run := Token.atom.inj hfirst
      rw [hword, String.toList_ofList]
      exact (List.prefix_append run rest).isInfix
    · exact (ih hrest).trans (List.suffix_append run rest).isInfix

end Token

end PlanPlayback
