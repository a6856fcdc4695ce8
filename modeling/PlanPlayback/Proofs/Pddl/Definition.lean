import PlanPlayback.Pddl.Sections
import PlanPlayback.Proofs.Sexpr.RoundTrip
import PlanPlayback.Proofs.Text.LowerCase
import PlanPlayback.Proofs.Text.Occurrence

/-!
# The definition in a text

A text is prepared before its definition is read: it is mapped to lower case and its comments are
dropped.  Preparing does nothing to a text that has been prepared.  So a definition is read again
from its rendering, and what is read once holds only atoms that preparing leaves as they are.

* `IsPrepared` says what the atoms of a definition look like;
* `isPrepared_of_definition?`: all atoms of a definition do;
* `definition?_render`: a list of such atoms is read from its rendering.
-/

namespace PlanPlayback

open Sexpr Text

/-! ## Texts without comments -/

namespace Text

theorem lines_eq_singleton {text : List Char} (hne : text ≠ []) (hfeed : '\n' ∉ text) :
    lines text = [text] := by
  cases h : lines text with
  | nil => exact absurd (lines_eq_nil_iff.mp h) hne
  | cons line rest =>
    obtain ⟨ending, behind, hending, rfl, rfl⟩ := exists_of_lines_eq_cons h
    cases hending with
    | feed => exact absurd (by simp) hfeed
    | returnFeed => exact absurd (by simp) hfeed
    | last => simp [lines]

theorem mem_of_mem_lines {text line : List Char} (hline : line ∈ lines text) {c : Char}
    (hc : c ∈ line) : c ∈ text := by
  generalize hall : lines text = all at hline
  induction all generalizing text with
  | nil => cases hline
  | cons first rest ih =>
    obtain ⟨ending, behind, -, rfl, hbehind⟩ := exists_of_lines_eq_cons hall
    rcases List.mem_cons.mp hline with rfl | hline
    · exact List.mem_append_left _ hc
    · exact List.mem_append_right _ (List.mem_append_right _ (ih hbehind hline))

end Text

theorem withoutComments_eq_self {text : String}
    (h : ∀ c ∈ text.toList, c ≠ '\n' ∧ c ≠ ';') : withoutComments text = text := by
  have hkept : text.toList.takeWhile (· != ';') = text.toList :=
    takeWhile_eq_self fun c hc => bne_iff_ne.mpr (h c hc).2
  by_cases hne : text.toList = []
  · simp [withoutComments, hne, lines, ← String.toList_inj]
  · rw [withoutComments, lines_eq_singleton hne fun hc => (h _ hc).1 rfl]
    simp [hkept]

/-- Without comments a text holds no semicolon, and nothing new but line feeds. -/
theorem mem_withoutComments {text : String} {c : Char} (hc : c ∈ (withoutComments text).toList) :
    c = '\n' ∨ c ≠ ';' ∧ c ∈ text.toList := by
  rw [withoutComments, String.toList_ofList] at hc
  rcases mem_intercalate hc with rfl | ⟨part, hpart, hc⟩
  · exact .inl rfl
  · obtain ⟨line, hline, rfl⟩ := List.mem_map.mp hpart
    have hkept : (c != ';') = true := List.mem_takeWhile_imp (p := (· != ';')) hc
    exact .inr ⟨bne_iff_ne.mp hkept, mem_of_mem_lines hline ((List.takeWhile_prefix _).subset hc)⟩

/-! ## Prepared words -/

/-- A word that preparing a text leaves as it is: it is in lower case, and no comment begins in
it. -/
structure IsPrepared (word : String) : Prop where
  isWord : Token.IsWord word.toList
  isSmall : ∀ c ∈ word.toList, IsSmall c
  semicolon : ';' ∉ word.toList

instance (word : String) : Decidable (IsPrepared word) :=
  -- by the characters of the word, not by all characters
  letI : Decidable (∀ c ∈ word.toList, IsSmall c) := List.decidableBAll _ word.toList
  decidable_of_iff
    (Token.IsWord word.toList ∧ (∀ c ∈ word.toList, IsSmall c) ∧ ';' ∉ word.toList)
    ⟨fun h => ⟨h.1, h.2.1, h.2.2⟩, fun h => ⟨h.isWord, h.isSmall, h.semicolon⟩⟩

/-- The atoms of a prepared text. -/
theorem isPrepared_of_mem_leavesAll {text word : String}
    (h : word ∈ leavesAll (readForms (withoutComments (lowercased text)))) : IsPrepared word := by
  have hword := isWord_of_mem_leavesAll_readForms h
  have hfrom : ∀ c ∈ word.toList, c ≠ ';' ∧ c ∈ (lowercased text).toList := by
    intro c hc
    have hpart := Token.isInfix_of_mem_tokensOf (mem_tokenize_of_mem_leavesAll h)
    rcases mem_withoutComments (hpart.subset hc) with rfl | hkept
    · exact absurd (hword.2 _ hc) (by decide)
    · exact hkept
  refine ⟨hword, fun c hc => ?_, fun hc => (hfrom _ hc).1 rfl⟩
  have hlower := (hfrom c hc).2
  rw [lowercased, String.toList_ofList] at hlower
  exact isSmall_of_mem_lowercaseAfter hlower

/-- What is written with prepared words is prepared. -/
theorem prepared_render {e : Sexpr} (h : ∀ word ∈ e.leaves, IsPrepared word) :
    withoutComments (lowercased e.render) = e.render := by
  have hall : ∀ c ∈ e.render.toList, IsSmall c ∧ c ≠ '\n' ∧ c ≠ ';' := by
    intro c hc
    have hitem : c ∈ (renderItems [e]).toList := hc
    rcases mem_renderItems hitem with hmark | ⟨word, hword, hc⟩
    · refine ⟨(isBorder_of_mem (List.mem_append_left _ hmark)).2, ?_, ?_⟩ <;>
      · rintro rfl
        exact absurd hmark (by decide)
    · rw [leavesAll_singleton] at hword
      have hprepared := h word hword
      refine ⟨hprepared.isSmall c hc, ?_, ?_⟩
      · rintro rfl
        exact absurd (hprepared.isWord.2 _ hc) (by decide)
      · rintro rfl
        exact hprepared.semicolon hc
  rw [lowercased_eq_self_iff.mpr fun c hc => (hall c hc).1,
    withoutComments_eq_self fun c hc => (hall c hc).2]

/-! ## Definitions -/

theorem leaves_subset_leavesAll {e : Sexpr} {forms : List Sexpr} (he : e ∈ forms) :
    e.leaves ⊆ leavesAll forms := by
  obtain ⟨front, behind, rfl⟩ := List.append_of_mem he
  rw [leavesAll_append]
  exact fun word hword => List.mem_append_right _ (List.mem_append_left _ hword)

/-- The atoms of a definition. -/
theorem isPrepared_of_definition? {text : String} {form : Sexpr}
    (h : definition? text = some form) : ∀ word ∈ form.leaves, IsPrepared word := fun _ hword =>
  isPrepared_of_mem_leavesAll (leaves_subset_leavesAll (List.mem_of_find?_eq_some h) hword)

/-- **A definition is read from its rendering.** -/
theorem definition?_render {form : Sexpr} (hhead : form.head? = some "define")
    (h : ∀ word ∈ form.leaves, IsPrepared word) : definition? form.render = some form := by
  have hread : readForms form.render = [form] :=
    readForms_render fun word hword => (h word hword).isWord
  simp [definition?, prepared_render h, hread, hhead]

end PlanPlayback
