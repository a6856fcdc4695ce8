import Mathlib.Data.List.TakeWhile
import Mathlib.Tactic.IntervalCases
import PlanPlayback.Text.Scan

/-!
# What scanners take

A run of characters of one kind is taken as a whole if what follows begins with a character of
another kind, or if nothing follows.  The lemmas here say so for each of the scanners; a text that
was put together from parts is then taken apart at the same places.
-/

namespace PlanPlayback.Text

section Runs

variable {α : Type} {p : α → Bool} {run rest : List α}

theorem takeWhile_append_eq (hrun : ∀ c ∈ run, p c = true) (hrest : ∀ c ∈ rest.head?, p c = false) :
    (run ++ rest).takeWhile p = run := by
  rw [List.takeWhile_append_of_pos hrun]
  cases rest with
  | nil => simp
  | cons c rest => simp [hrest c rfl]

theorem dropWhile_append_eq (hrun : ∀ c ∈ run, p c = true) (hrest : ∀ c ∈ rest.head?, p c = false) :
    (run ++ rest).dropWhile p = rest := by
  rw [List.dropWhile_append_of_pos hrun]
  cases rest with
  | nil => rfl
  | cons c rest => simp [hrest c rfl]

theorem takeWhile_eq_self (hrun : ∀ c ∈ run, p c = true) : run.takeWhile p = run := by
  simpa using @takeWhile_append_eq _ p run [] hrun (by simp)

theorem dropWhile_eq_nil (hrun : ∀ c ∈ run, p c = true) : run.dropWhile p = [] := by
  simpa using @dropWhile_append_eq _ p run [] hrun (by simp)

theorem head?_dropWhile_eq_false (p : α → Bool) (text : List α) :
    ∀ c ∈ (text.dropWhile p).head?, p c = false := by
  intro c hc
  have hfirst := List.head?_dropWhile_not p text
  rwa [Option.mem_def.mp hc] at hfirst

end Runs

@[simp] theorem exactly?_cons (c : Char) (rest : List Char) :
    exactly? c (c :: rest) = some rest := by
  simp [exactly?]

theorem exactly?_cons_of_ne {wanted c : Char} (h : c ≠ wanted) (rest : List Char) :
    exactly? wanted (c :: rest) = none := by
  simp [exactly?, h]

@[simp] theorem skipBlanks_space (text : List Char) : skipBlanks (' ' :: text) = skipBlanks text :=
  rfl

theorem skipBlanks_eq_self {text : List Char} (h : ∀ c ∈ text.head?, isBlank c = false) :
    skipBlanks text = text :=
  @dropWhile_append_eq _ isBlank [] text (by simp) h

theorem skipBlanks_cons {c : Char} (hc : isBlank c = false) (rest : List Char) :
    skipBlanks (c :: rest) = c :: rest :=
  skipBlanks_eq_self (by simpa using hc)

/-! ## Digits -/

/-- What holds of ten digits holds of every digit. -/
theorem of_isDigit {P : Char → Bool}
    (h : ['0', '1', '2', '3', '4', '5', '6', '7', '8', '9'].all P = true) {c : Char}
    (hc : c.isDigit = true) : P c = true := by
  simp only [Char.isDigit, Bool.and_eq_true, decide_eq_true_eq] at hc
  have hlow : 48 ≤ c.toNat := UInt32.le_iff_toNat_le.mp hc.1
  have hhigh : c.toNat ≤ 57 := UInt32.le_iff_toNat_le.mp hc.2
  refine List.all_eq_true.mp h c ?_
  rw [← Char.ofNat_toNat c]
  generalize c.toNat = n at hlow hhigh ⊢
  interval_cases n <;> decide

theorem isBlank_of_isDigit {c : Char} (hc : c.isDigit = true) : isBlank c = false := by
  simpa using of_isDigit (P := fun d => !isBlank d) (by decide) hc

theorem matchesIgnoringCase_of_isDigit {small c : Char} (hsmall : small.isDigit = false)
    (hc : c.isDigit = true) : matchesIgnoringCase small c = false := by
  have hlower : (c.toLower == c) = true := of_isDigit (P := fun d => d.toLower == d) (by decide) hc
  have hfold : (c != 'ſ' && c != '\u212A') = true :=
    of_isDigit (P := fun d => d != 'ſ' && d != '\u212A') (by decide) hc
  have hne : c ≠ small := by
    rintro rfl
    rw [hc] at hsmall
    cases hsmall
  simp only [beq_iff_eq, Bool.and_eq_true, bne_iff_ne] at hlower hfold
  simp [matchesIgnoringCase, hlower, hfold, hne]

/-- No word begins with a digit. -/
theorem word?_cons_of_isDigit {word : String} {w : Char} {letters : List Char}
    (hword : word.toList = w :: letters) (hw : w.isDigit = false) {c : Char} (hc : c.isDigit = true)
    (rest : List Char) : word? word (c :: rest) = none := by
  simp [word?, hword, wordChars?, matchesIgnoringCase_of_isDigit hw hc]

theorem digits?_append_of_isDigit {run rest : List Char} (hne : run ≠ [])
    (hrun : ∀ c ∈ run, isDigit c = true) (hrest : ∀ c ∈ rest.head?, isDigit c = false) :
    digits? (run ++ rest) = some (run, rest) := by
  rw [digits?, takeWhile_append_eq hrun hrest, dropWhile_append_eq hrun hrest]
  simp [hne]

theorem digits?_append {run rest : List Char} (hne : run ≠ [])
    (hrun : ∀ c ∈ run, c.isDigit = true) (hrest : ∀ c ∈ rest.head?, isDigit c = false) :
    digits? (run ++ rest) = some (run, rest) :=
  digits?_append_of_isDigit hne (fun c hc => by simp [isDigit, hrun c hc]) hrest

end PlanPlayback.Text
