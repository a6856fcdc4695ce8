import PlanPlayback.Proofs.Text.LowerCase
import PlanPlayback.Proofs.Text.Occurrence

/-!
# Lines under lower case

A text may be mapped to lower case as a whole or line by line, and both come to the same
(`lines_lowercase`).  The ends of lines stay where they are, since no other character has one of them
as its image, and a capital sigma does not look over them.  What a line holds in front of a semicolon
may be mapped by itself for the same reasons (`takeWhile_lowercase`).

Texts are put together from the back: what stands in front of a text joins the first of its lines
(`lines_append`) and leaves the others alone (`tail_lines_append`).
-/

namespace PlanPlayback.Text

/-! ## Texts that begin a line -/

/-- A text in front of the first of some lines. -/
def joinFirst (front : List Char) : List (List Char) → List (List Char)
  | [] => [front]
  | line :: others => (front ++ line) :: others

theorem joinFirst_joinFirst (front middle : List Char) (all : List (List Char)) :
    joinFirst front (joinFirst middle all) = joinFirst (front ++ middle) all := by
  cases all <;> simp [joinFirst]

@[simp] theorem tail_joinFirst (front : List Char) (all : List (List Char)) :
    (joinFirst front all).tail = all.tail := by
  cases all <;> rfl

/-- A character in front of a text begins its first line, unless it ends a line. -/
theorem lines_cons {c : Char} {text : List Char} (hfeed : c ≠ '\n')
    (hreturn : c = '\r' → text.head? ≠ some '\n') :
    lines (c :: text) = joinFirst [c] (lines text) := by
  rw [lines]
  · cases lines text <;> rfl
  · exact hfeed
  · rintro rest rfl rfl
    exact hreturn rfl rfl

theorem lines_append {run text : List Char} (hne : run ≠ []) (hfeed : '\n' ∉ run)
    (hreturn : '\r' ∈ run → text.head? ≠ some '\n') :
    lines (run ++ text) = joinFirst run (lines text) := by
  induction run with
  | nil => exact absurd rfl hne
  | cons c run ih =>
    rw [List.mem_cons, not_or] at hfeed
    have hc : c ≠ '\n' := Ne.symm hfeed.1
    cases run with
    | nil => exact lines_cons hc fun h => hreturn (by simp [h])
    | cons d run =>
      have hbehind : (d :: run ++ text).head? ≠ some '\n' := by
        intro hd
        obtain rfl : d = '\n' := by simpa using hd
        exact hfeed.2 List.mem_cons_self
      have hrest := ih (List.cons_ne_nil d run) hfeed.2 fun h => hreturn (List.mem_cons_of_mem c h)
      rw [List.cons_append, lines_cons hc fun _ => hbehind, hrest, joinFirst_joinFirst]
      rfl

theorem tail_lines_cons {c : Char} (hfeed : c ≠ '\n') (text : List Char) :
    (lines (c :: text)).tail = (lines text).tail := by
  by_cases hreturn : c = '\r' → text.head? ≠ some '\n'
  · rw [lines_cons hfeed hreturn, tail_joinFirst]
  · -- a carriage return and a line feed are one end
    push Not at hreturn
    obtain ⟨rfl, hhead⟩ := hreturn
    obtain ⟨behind, rfl⟩ := List.head?_eq_some_iff.mp hhead
    rfl

theorem tail_lines_append {run : List Char} (hfeed : '\n' ∉ run) (text : List Char) :
    (lines (run ++ text)).tail = (lines text).tail := by
  induction run with
  | nil => rfl
  | cons c run ih =>
    rw [List.mem_cons, not_or] at hfeed
    rw [List.cons_append, tail_lines_cons (Ne.symm hfeed.1), ih hfeed.2]

theorem tail_lines_of_isLineEnd {ending behind : List Char} (h : IsLineEnd ending behind) :
    (lines (ending ++ behind)).tail = lines behind := by
  cases h <;> rfl

/-! ## Lower case, line by line -/

/-- Lines in lower case, where `before` precedes the first of them. -/
def lowercaseLines (before : List Char) : List (List Char) → List (List Char)
  | [] => []
  | line :: others => lowercaseAfter before line :: others.map lowercase

@[simp] theorem lowercaseLines_nil (all : List (List Char)) :
    lowercaseLines [] all = all.map lowercase := by
  cases all <;> rfl

/-- The image of a character is found in its line. -/
theorem imageOf_lines {text line : List Char} {others : List (List Char)}
    (h : lines text = line :: others) (before : List Char) (c : Char) :
    imageOf before c text = imageOf before c line := by
  obtain ⟨ending, behind, hending, rfl, -⟩ := exists_of_lines_eq_cons h
  cases hending with
  | feed => exact (imageOf_append_cons (isBorder_of_mem (by decide)).1 _ _ [] _ c).2
  | returnFeed => exact (imageOf_append_cons (isBorder_of_mem (by decide)).1 _ _ [] _ c).2
  | last => simp

theorem head?_lowercaseAfter_ne {text : List Char} (h : text.head? ≠ some '\n')
    (before : List Char) : (lowercaseAfter before text).head? ≠ some '\n' := by
  cases text with
  | nil => simp [lowercaseAfter]
  | cons c rest =>
    obtain ⟨d, image, himage⟩ := List.exists_cons_of_ne_nil (imageOf_ne_nil before c rest)
    rw [lowercaseAfter_cons, himage]
    intro hd
    obtain rfl : d = '\n' := by simpa using hd
    have hc : '\n' = c := eq_of_mem_imageOf (himage ▸ List.mem_cons_self) (by decide)
    exact h (by rw [hc]; rfl)

/-- A character that ends no line joins the first line behind it, and so does its image. -/
theorem lines_lowercaseAfter_cons {c : Char} {before rest : List Char} (hfeed : c ≠ '\n')
    (hreturn : c = '\r' → rest.head? ≠ some '\n')
    (hrest : lines (lowercaseAfter (c :: before) rest) = lowercaseLines (c :: before) (lines rest)) :
    lines (lowercaseAfter before (c :: rest)) = lowercaseLines before (lines (c :: rest)) := by
  have himageFeed : '\n' ∉ imageOf before c rest := by
    intro hd
    exact hfeed (eq_of_mem_imageOf hd (by decide)).symm
  have himageReturn : '\r' ∈ imageOf before c rest →
      (lowercaseAfter (c :: before) rest).head? ≠ some '\n' := by
    intro hd
    have hc : c = '\r' := (eq_of_mem_imageOf hd (by decide)).symm
    exact head?_lowercaseAfter_ne (hreturn hc) (c :: before)
  rw [lowercaseAfter_cons, lines_append (imageOf_ne_nil before c rest) himageFeed himageReturn,
    hrest, lines_cons hfeed hreturn]
  cases hlines : lines rest with
  | nil =>
    obtain rfl : rest = [] := lines_eq_nil_iff.mp hlines
    show [imageOf before c []] = [imageOf before c [] ++ []]
    rw [List.append_nil]
  | cons line others =>
    show (imageOf before c rest ++ _) :: _ = (imageOf before c line ++ _) :: _
    rw [imageOf_lines hlines]
    rfl

theorem lines_lowercaseAfter (before text : List Char) :
    lines (lowercaseAfter before text) = lowercaseLines before (lines text) := by
  induction text using lines.induct generalizing before with
  | case1 => rfl
  | case2 rest ih =>
    have hfeed : IsBorder '\n' ∧ IsSmall '\n' := isBorder_of_mem (by decide)
    have hrest : lines (lowercase rest) = (lines rest).map lowercase := by
      rw [lowercase, ih, lowercaseLines_nil]
    rw [lowercaseAfter_cons_border hfeed.1 hfeed.2, lines, lines, hrest]
    rfl
  | case3 rest ih =>
    have hreturn : IsBorder '\r' ∧ IsSmall '\r' := isBorder_of_mem (by decide)
    have hfeed : IsBorder '\n' ∧ IsSmall '\n' := isBorder_of_mem (by decide)
    have hrest : lines (lowercase rest) = (lines rest).map lowercase := by
      rw [lowercase, ih, lowercaseLines_nil]
    rw [lowercaseAfter_cons_border hreturn.1 hreturn.2, lowercase,
      lowercaseAfter_cons_border hfeed.1 hfeed.2, lines, lines, hrest]
    rfl
  -- the last two cases tell apart whether a line follows, which does not matter here
  | case4 c rest hfeed hreturn _ ih =>
    refine lines_lowercaseAfter_cons hfeed ?_ (ih (c :: before))
    intro hc hhead
    exact hreturn _ hc (List.eq_cons_of_mem_head? hhead)
  | case5 c rest hfeed hreturn _ _ _ ih =>
    refine lines_lowercaseAfter_cons hfeed ?_ (ih (c :: before))
    intro hc hhead
    exact hreturn _ hc (List.eq_cons_of_mem_head? hhead)

/-- **The lines of a text in lower case are its lines in lower case.** -/
theorem lines_lowercase (text : List Char) :
    lines (lowercase text) = (lines text).map lowercase := by
  rw [lowercase, lines_lowercaseAfter, lowercaseLines_nil]

/-! ## Lower case in front of a semicolon -/

theorem takeWhile_lowercase (line : List Char) :
    (lowercase line).takeWhile (· != ';') = lowercase (line.takeWhile (· != ';')) := by
  have hcode : ∀ c ∈ lowercase (line.takeWhile (· != ';')), (c != ';') = true := by
    intro c hc
    rw [bne_iff_ne]
    rintro rfl
    have hsemicolon := mem_of_mem_lowercaseAfter hc (by decide)
    exact absurd (List.mem_takeWhile_imp (p := (· != ';')) hsemicolon) (by decide)
  have hline : line.takeWhile (· != ';') ++ line.dropWhile (· != ';') = line :=
    List.takeWhile_append_dropWhile
  cases hcomment : line.dropWhile (· != ';') with
  | nil =>
    rw [hcomment, List.append_nil] at hline
    rw [hline] at hcode ⊢
    exact takeWhile_eq_self hcode
  | cons c comment =>
    have hhead := List.head?_dropWhile_not (· != ';') line
    obtain rfl : c = ';' := by simpa [hcomment] using hhead
    have himage : lowercase line =
        lowercase (line.takeWhile (· != ';')) ++ ';' :: lowercase comment := by
      rw [← lowercase_append_of_mem (by decide), ← hcomment, hline]
    rw [himage]
    exact takeWhile_append_eq hcode (by simp)

end PlanPlayback.Text
