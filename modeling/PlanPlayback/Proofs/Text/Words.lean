import PlanPlayback.Proofs.Sexpr.Lexing
import PlanPlayback.Proofs.Text.Scanning
import PlanPlayback.Text.LetterCase

/-!
# Tokens of a line

Names and arguments are written with single blanks between them.  They are found again as words, and
as a group when parentheses stand around them.  Lower case does nothing to a text exactly if it does
nothing to any of its characters, so that it may be told token by token.
-/

namespace PlanPlayback.Text

open Token (IsWord isPlain isPlain_iff lexing_induction)

/-! ## Words of a text -/

theorem isWord_of_mem_words {text : List Char} (hfree : ∀ c ∈ text, isParen c = false) :
    ∀ token ∈ words text, IsWord token := by
  induction text using lexing_induction with
  | nil => simp [words]
  | blank c rest hc ih =>
    rw [words_cons_of_isBlank hc]
    exact ih fun d hd => hfree d (List.mem_cons_of_mem c hd)
  | paren c rest hc ih =>
    have hparen := hfree c List.mem_cons_self
    rcases hc with rfl | rfl <;> cases hparen
  | word run rest hrun hrest ih =>
    have hbehind : ∀ c ∈ rest, isParen c = false := fun c hc =>
      hfree c (List.mem_append_right run hc)
    -- what ends a word is no parenthesis here
    have hblank : ∀ c ∈ rest.head?, isBlank c = true := by
      intro c hc
      have hplain := hrest c hc
      have hparen := hbehind c (List.mem_of_mem_head? hc)
      simp only [isParen, Bool.or_eq_false_iff, beq_eq_false_iff_ne] at hparen
      simpa [isPlain, hparen] using hplain
    have hwords := words_run_append hrun.1 (fun c hc => (isPlain_iff.mp (hrun.2 c hc)).1) hblank
    rw [hwords, List.forall_mem_cons]
    exact ⟨hrun, ih hbehind⟩

/-! ## Words with blanks between them -/

/-- Texts with single blanks between them. -/
def spaced (tokens : List (List Char)) : List Char :=
  [' '].intercalate tokens

theorem intercalate_cons_cons (separator : Char) (first second : List Char)
    (rest : List (List Char)) :
    [separator].intercalate (first :: second :: rest) =
      first ++ separator :: [separator].intercalate (second :: rest) := by
  simp

theorem spaced_cons_cons (first second : List Char) (rest : List (List Char)) :
    spaced (first :: second :: rest) = first ++ ' ' :: spaced (second :: rest) :=
  intercalate_cons_cons _ _ _ _

theorem mem_intercalate {separator : Char} {parts : List (List Char)} {c : Char}
    (hc : c ∈ [separator].intercalate parts) : c = separator ∨ ∃ part ∈ parts, c ∈ part := by
  induction parts with
  | nil => simp at hc
  | cons first rest ih =>
    cases rest with
    | nil => exact .inr ⟨first, by simp, by simpa using hc⟩
    | cons second rest =>
      rw [intercalate_cons_cons, List.mem_append, List.mem_cons] at hc
      rcases hc with hc | rfl | hc
      · exact .inr ⟨first, by simp, hc⟩
      · exact .inl rfl
      · rcases ih hc with rfl | ⟨part, hpart, hc⟩
        · exact .inl rfl
        · exact .inr ⟨part, List.mem_cons_of_mem _ hpart, hc⟩

theorem mem_spaced {tokens : List (List Char)} {c : Char} (hc : c ∈ spaced tokens) :
    c = ' ' ∨ ∃ token ∈ tokens, c ∈ token :=
  mem_intercalate hc

theorem words_spaced {tokens : List (List Char)} (h : ∀ token ∈ tokens, IsWord token) :
    words (spaced tokens) = tokens := by
  have hblank {token : List Char} (htoken : IsWord token) : ∀ c ∈ token, isBlank c = false :=
    fun c hc => (isPlain_iff.mp (htoken.2 c hc)).1
  induction tokens with
  | nil => rfl
  | cons first rest ih =>
    have hfirst : IsWord first := h first (by simp)
    cases rest with
    | nil =>
      have hwords := @words_run_append first [] hfirst.1 (hblank hfirst) (by simp)
      simpa [spaced, words] using hwords
    | cons second rest =>
      have hspace : ∀ c ∈ (' ' :: spaced (second :: rest)).head?, isBlank c = true := by
        rintro c ⟨⟩
        rfl
      rw [spaced_cons_cons, words_run_append hfirst.1 (hblank hfirst) hspace,
        words_cons_of_isBlank rfl, ih fun token htoken => h token (List.mem_cons_of_mem _ htoken)]

/-- Words in parentheses. -/
def grouped (tokens : List (List Char)) : List Char :=
  '(' :: (spaced tokens ++ [')'])

theorem mem_grouped {tokens : List (List Char)} {c : Char} (hc : c ∈ grouped tokens) :
    c ∈ ['(', ' ', ')'] ∨ ∃ token ∈ tokens, c ∈ token := by
  rw [grouped, List.mem_cons, List.mem_append] at hc
  rcases hc with rfl | hc | hc
  · exact .inl (by simp)
  · rcases mem_spaced hc with rfl | htoken
    · exact .inl (by simp)
    · exact .inr htoken
  · exact .inl (by simp_all)

theorem not_isParen_of_mem_spaced {tokens : List (List Char)} (h : ∀ token ∈ tokens, IsWord token)
    {c : Char} (hc : c ∈ spaced tokens) : c ≠ '(' ∧ c ≠ ')' := by
  rcases mem_spaced hc with rfl | ⟨token, htoken, hc⟩
  · decide
  · exact (isPlain_iff.mp ((h token htoken).2 c hc)).2

theorem parenFree_spaced_append {tokens : List (List Char)} (h : ∀ token ∈ tokens, IsWord token)
    (rest : List Char) :
    parenFree (spaced tokens ++ ')' :: rest) = (spaced tokens, ')' :: rest) := by
  have hfree : ∀ c ∈ spaced tokens, (!isParen c) = true := by
    intro c hc
    simp [isParen, not_isParen_of_mem_spaced h hc]
  have hparen : ∀ c ∈ (')' :: rest).head?, (!isParen c) = false := by
    rintro c ⟨⟩
    rfl
  rw [parenFree, takeWhile_append_eq hfree hparen, dropWhile_append_eq hfree hparen]

theorem group?_grouped_append {tokens : List (List Char)} (hne : tokens ≠ [])
    (h : ∀ token ∈ tokens, IsWord token) (rest : List Char) :
    group? (grouped tokens ++ rest) = some (tokens, rest) := by
  have hgroup : grouped tokens ++ rest = '(' :: (spaced tokens ++ ')' :: rest) := by
    simp [grouped]
  rw [hgroup]
  simp [group?, parenFree_spaced_append h, words_spaced h, hne]

/-! ## Blank space at the ends -/

theorem trim_eq_self {text : List Char} (hhead : ∀ c ∈ text.head?, isBlank c = false)
    (hlast : ∀ c ∈ text.getLast?, isBlank c = false) : trim text = text := by
  have hstart : trimStart text = text := skipBlanks_eq_self hhead
  have hend : text.reverse.dropWhile isBlank = text.reverse :=
    skipBlanks_eq_self (by simpa using hlast)
  rw [trim, hstart, trimEnd, hend, List.reverse_reverse]

theorem trim_concat {text : List Char} {c : Char} (hne : text ≠ []) (hc : isBlank c = true)
    (hhead : ∀ d ∈ text.head?, isBlank d = false)
    (hlast : ∀ d ∈ text.getLast?, isBlank d = false) : trim (text ++ [c]) = text := by
  have hstart : trimStart (text ++ [c]) = text ++ [c] := by
    obtain ⟨d, rest, rfl⟩ := List.exists_cons_of_ne_nil hne
    exact skipBlanks_cons (hhead d rfl) _
  have hend : text.reverse.dropWhile isBlank = text.reverse :=
    skipBlanks_eq_self (by simpa using hlast)
  simp [trim, hstart, trimEnd, hc, hend]

/-- Behind what remains of a text there was nothing but blank space. -/
theorem trim_append_takeWhile (text : List Char) :
    trim text ++ ((trimStart text).reverse.takeWhile isBlank).reverse = trimStart text := by
  rw [trim, trimEnd, ← List.reverse_append, List.takeWhile_append_dropWhile, List.reverse_reverse]

/-- What is not blank at the ends of a text is what remains of it. -/
theorem exists_append_trim (text : List Char) : ∃ front back, text = front ++ (trim text ++ back) ∧
    (∀ c ∈ front, isBlank c = true) ∧ ∀ c ∈ back, isBlank c = true := by
  refine ⟨text.takeWhile isBlank, ((trimStart text).reverse.takeWhile isBlank).reverse, ?_,
    fun c hc => List.mem_takeWhile_imp hc,
    fun c hc => List.mem_takeWhile_imp (List.mem_reverse.mp hc)⟩
  rw [trim_append_takeWhile, trimStart, List.takeWhile_append_dropWhile]

theorem length_trim_le (text : List Char) : (trim text).length ≤ text.length := by
  obtain ⟨front, back, htext, -, -⟩ := exists_append_trim text
  have hlength := congrArg List.length htext
  rw [List.length_append, List.length_append] at hlength
  omega

theorem mem_of_mem_trim {text : List Char} {c : Char} (hc : c ∈ trim text) : c ∈ text := by
  obtain ⟨front, back, htext, -, -⟩ := exists_append_trim text
  rw [htext]
  exact List.mem_append_right front (List.mem_append_left back hc)

@[simp] theorem trim_trim (text : List Char) : trim (trim text) = trim text := by
  apply trim_eq_self
  · intro c hc
    have hfirst := head?_dropWhile_eq_false isBlank text c
    rw [← trimStart, ← trim_append_takeWhile, List.head?_append, Option.mem_def.mp hc] at hfirst
    exact hfirst rfl
  · intro c hc
    rw [trim, trimEnd, List.getLast?_reverse] at hc
    exact head?_dropWhile_eq_false isBlank _ c hc

/-! ## Lower case -/

/-- A character that lower case leaves as it is, wherever it stands. -/
def IsSmall (c : Char) : Prop :=
  c ≠ 'Σ' ∧ lowerChar c = [c]

instance (c : Char) : Decidable (IsSmall c) :=
  inferInstanceAs (Decidable (_ ∧ _))

/-- The image of a character between two texts. -/
def imageOf (before : List Char) (c : Char) (after : List Char) : List Char :=
  if c == 'Σ' then [if endsWord before after then 'ς' else 'σ'] else lowerChar c

theorem lowercaseAfter_cons (before : List Char) (c : Char) (rest : List Char) :
    lowercaseAfter before (c :: rest) =
      imageOf before c rest ++ lowercaseAfter (c :: before) rest :=
  rfl

theorem imageOf_ne_nil (before : List Char) (c : Char) (after : List Char) :
    imageOf before c after ≠ [] := by
  unfold imageOf lowerChar
  split_ifs <;> try simp
  split <;> simp

theorem imageOf_eq_iff (before : List Char) (c : Char) (after : List Char) :
    imageOf before c after = [c] ↔ IsSmall c := by
  unfold imageOf IsSmall
  by_cases hsigma : c = 'Σ'
  · subst hsigma
    split_ifs <;> simp_all
  · simp [hsigma]

theorem length_le_length_lowercaseAfter (before text : List Char) :
    text.length ≤ (lowercaseAfter before text).length := by
  induction text generalizing before with
  | nil => simp
  | cons c rest ih =>
    have hrest := ih (c :: before)
    have hpos := List.length_pos_iff.mpr (imageOf_ne_nil before c rest)
    rw [lowercaseAfter_cons, List.length_append, List.length_cons]
    omega

theorem lowercaseAfter_eq_self_iff (before text : List Char) :
    lowercaseAfter before text = text ↔ ∀ c ∈ text, IsSmall c := by
  induction text generalizing before with
  | nil => simp [lowercaseAfter]
  | cons c rest ih =>
    rw [lowercaseAfter_cons, List.forall_mem_cons, ← ih (c :: before),
      ← imageOf_eq_iff before c rest]
    constructor
    -- a longer image of the first character would make the whole image longer
    · intro h
      have hlength := congrArg List.length h
      have hrest := length_le_length_lowercaseAfter (c :: before) rest
      obtain ⟨d, image, himage⟩ := List.exists_cons_of_ne_nil (imageOf_ne_nil before c rest)
      rw [himage] at h hlength ⊢
      rw [List.length_append, List.length_cons, List.length_cons] at hlength
      obtain rfl : image = [] := List.length_eq_zero_iff.mp (by omega)
      obtain ⟨rfl, htail⟩ := List.cons.inj h
      exact ⟨rfl, htail⟩
    · rintro ⟨himage, hrest⟩
      rw [himage, hrest]
      rfl

/-- Lower case does nothing to a text exactly if it does nothing to its characters. -/
theorem lowercase_eq_self_iff {text : List Char} :
    lowercase text = text ↔ ∀ c ∈ text, IsSmall c :=
  lowercaseAfter_eq_self_iff [] text

theorem lowercased_eq_self_iff {text : String} :
    lowercased text = text ↔ ∀ c ∈ text.toList, IsSmall c := by
  rw [← lowercase_eq_self_iff, lowercased, ← String.toList_inj, String.toList_ofList]

end PlanPlayback.Text
