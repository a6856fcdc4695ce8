import PlanPlayback.Proofs.Sexpr.Forest
import PlanPlayback.Proofs.Sexpr.Lexing

/-!
# Reading what was written

Rendering puts blanks between the items of a list and nowhere else.  That is enough for reading to
find every expression again, as long as no atom is empty or holds blank space or a parenthesis; and
of that kind are all expressions that were themselves read.

## Strategy

The written form of a forest falls into the tokens of the forest (`tokensOf_renderItems_append`), by
induction on the forest.  An atom is told apart from what follows it because a blank, a closing
parenthesis or the end of the text comes next.  From the tokens on, nothing is left to show but that
reading keeps balanced tokens (`Reading.ofTokens_tokensAll_append`).  A text that was read has words
for atoms because its tokens have (`Token.isWord_of_mem_tokensOf`).
-/

namespace PlanPlayback

namespace Sexpr

open Token (IsWord IsDelimited tokensOf tokensOf_append isDelimited_nil isDelimited_cons tokenize)

theorem renderItems_eq_intercalate (forms : List Sexpr) :
    renderItems forms = " ".intercalate (forms.map render) := by
  apply String.toList_injective
  rw [String.toList_intercalate]
  induction forms with
  | nil => rfl
  | cons e rest ih =>
    cases rest with
    | nil => simp [renderItems]
    | cons next rest => simp [renderItems, ih]

/-- What is written behind the first expression of a forest. -/
def renderRest (rest : List Sexpr) : List Char :=
  if rest.isEmpty then [] else ' ' :: (renderItems rest).toList

theorem toList_renderItems_cons (e : Sexpr) (rest : List Sexpr) :
    (renderItems (e :: rest)).toList = e.render.toList ++ renderRest rest := by
  cases rest with
  | nil => simp [renderItems, renderRest]
  | cons next rest => simp [renderItems, renderRest]

theorem toList_render_list (items : List Sexpr) :
    (render (.list items)).toList = '(' :: ((renderItems items).toList ++ [')']) := by
  simp [render]

theorem mem_renderRest {rest : List Sexpr} {c : Char} (hc : c ∈ renderRest rest) :
    c = ' ' ∨ c ∈ (renderItems rest).toList := by
  unfold renderRest at hc
  split_ifs at hc
  · cases hc
  · exact List.mem_cons.mp hc

/-- Besides its atoms, the written form of a forest holds blanks and parentheses. -/
theorem mem_renderItems {forms : List Sexpr} {c : Char} (hc : c ∈ (renderItems forms).toList) :
    c ∈ ['(', ' ', ')'] ∨ ∃ word ∈ leavesAll forms, c ∈ word.toList := by
  have hrest {e : Sexpr} {rest : List Sexpr}
      (h : c ∈ ['(', ' ', ')'] ∨ ∃ word ∈ leavesAll rest, c ∈ word.toList) :
      c ∈ ['(', ' ', ')'] ∨ ∃ word ∈ leavesAll (e :: rest), c ∈ word.toList :=
    h.imp_right fun ⟨word, hword, hc⟩ => ⟨word, List.mem_append_right _ hword, hc⟩
  induction forms using forest_induction with
  | nil => cases hc
  | atom text rest ih =>
    rw [toList_renderItems_cons, render, List.mem_append] at hc
    rcases hc with hc | hc
    · exact .inr ⟨text, by simp [leavesAll, leaves], hc⟩
    · rcases mem_renderRest hc with rfl | hc
      · exact .inl (by simp)
      · exact hrest (ih hc)
  | list items rest ihItems ih =>
    rw [toList_renderItems_cons, toList_render_list, List.mem_append, List.mem_cons,
      List.mem_append, List.mem_singleton] at hc
    rcases hc with (rfl | hc | rfl) | hc
    · exact .inl (by simp)
    · refine (ihItems hc).imp_right ?_
      rintro ⟨word, hword, hc⟩
      exact ⟨word, List.mem_append_left _ hword, hc⟩
    · exact .inl (by simp)
    · rcases mem_renderRest hc with rfl | hc
      · exact .inl (by simp)
      · exact hrest (ih hc)

theorem isDelimited_renderRest_append (rest : List Sexpr) {behind : List Char}
    (hbehind : IsDelimited behind) : IsDelimited (renderRest rest ++ behind) := by
  unfold renderRest
  split_ifs
  · exact hbehind
  · exact isDelimited_cons (by decide)

theorem tokensOf_renderRest_append (rest : List Sexpr) (behind : List Char) :
    tokensOf (renderRest rest ++ behind) = tokensOf ((renderItems rest).toList ++ behind) := by
  cases rest with
  | nil => simp [renderRest, renderItems]
  | cons next rest => simp [renderRest]

/-- The written form of a forest falls into its tokens, whatever delimits it. -/
theorem tokensOf_renderItems_append {forms : List Sexpr}
    (hwords : ∀ word ∈ leavesAll forms, IsWord word.toList) {behind : List Char}
    (hbehind : IsDelimited behind) :
    tokensOf ((renderItems forms).toList ++ behind) = tokensAll forms ++ tokensOf behind := by
  induction forms using forest_induction generalizing behind with
  | nil => rfl
  | atom text rest ih =>
    simp only [leavesAll, leaves, List.singleton_append, List.forall_mem_cons] at hwords
    obtain ⟨htext, hrest⟩ := hwords
    rw [toList_renderItems_cons, render, List.append_assoc,
      tokensOf_append htext (isDelimited_renderRest_append rest hbehind),
      tokensOf_renderRest_append, ih hrest hbehind, String.ofList_toList]
    rfl
  | list items rest ihItems ih =>
    simp only [leavesAll, leaves, List.forall_mem_append] at hwords
    obtain ⟨hitems, hrest⟩ := hwords
    -- the items are delimited by the parenthesis of their list
    have hclosing : IsDelimited (')' :: (renderRest rest ++ behind)) :=
      isDelimited_cons (by decide)
    rw [toList_renderItems_cons, toList_render_list]
    simp only [List.cons_append, List.append_assoc, List.nil_append, Token.tokensOf_cons_opening,
      ihItems hitems hclosing, Token.tokensOf_cons_closing, tokensOf_renderRest_append,
      ih hrest hbehind, tokensAll, tokens]

theorem tokenize_renderItems {forms : List Sexpr}
    (hwords : ∀ word ∈ leavesAll forms, IsWord word.toList) :
    tokenize (renderItems forms) = tokensAll forms := by
  have h := tokensOf_renderItems_append hwords isDelimited_nil
  simpa [Token.tokenize_eq] using h

theorem tokenize_render {e : Sexpr} (hwords : ∀ word ∈ e.leaves, IsWord word.toList) :
    tokenize e.render = e.tokens := by
  rw [← tokensAll_singleton, ← tokenize_renderItems (by rwa [leavesAll_singleton])]
  rfl

theorem readForms_intercalate_render {forms : List Sexpr}
    (hwords : ∀ word ∈ leavesAll forms, IsWord word.toList) :
    readForms (" ".intercalate (forms.map render)) = forms := by
  have hreading : Reading.ofTokens (tokensAll forms) = ⟨forms, []⟩ := by
    have h := Reading.ofTokens_tokensAll_append forms []
    simpa [Reading.precededBy, Reading.ofTokens, Reading.empty] using h
  rw [← renderItems_eq_intercalate, readForms, tokenize_renderItems hwords, hreading]
  simp [Reading.forms]

theorem readForms_render {e : Sexpr} (hwords : ∀ word ∈ e.leaves, IsWord word.toList) :
    readForms e.render = [e] := by
  rw [← leavesAll_singleton] at hwords
  have h := readForms_intercalate_render hwords
  rwa [← renderItems_eq_intercalate] at h

/-- The atoms of what is read are among the tokens. -/
theorem mem_tokenize_of_mem_leavesAll {text word : String}
    (h : word ∈ leavesAll (readForms text)) : .atom word ∈ tokenize text := by
  rw [readForms, Reading.leavesAll_forms_ofTokens] at h
  obtain ⟨t, ht, htext⟩ := List.mem_filterMap.mp h
  cases t with
  | atom text =>
    rw [Token.text?, Option.some.injEq] at htext
    exact htext ▸ ht
  | opening => cases htext
  | closing => cases htext

/-- The atoms of what is read are words. -/
theorem isWord_of_mem_leavesAll_readForms {text word : String}
    (h : word ∈ leavesAll (readForms text)) : IsWord word.toList :=
  Token.isWord_of_mem_tokensOf (mem_tokenize_of_mem_leavesAll h)

/-- **Reading inverts rendering.**  Expressions whose atoms are words are read again from their
written forms with single blanks between them.  A single one is read at the first token, and
nothing is left behind it.  So rendering what was read of any text, with its parentheses in balance
or not, and reading that again changes nothing. -/
theorem reading_inverts_rendering :
    (∀ forms : List Sexpr, (∀ word ∈ leavesAll forms, IsWord word.toList) →
      readForms (" ".intercalate (forms.map render)) = forms) ∧
    (∀ e : Sexpr, (∀ word ∈ e.leaves, IsWord word.toList) →
      readAt (tokenize e.render) 0 = (e, (tokenize e.render).length)) ∧
    ∀ text : String,
      readForms (" ".intercalate ((readForms text).map render)) = readForms text := by
  refine ⟨fun forms hwords => readForms_intercalate_render hwords, fun e hwords => ?_,
    fun text => readForms_intercalate_render fun word hword =>
      isWord_of_mem_leavesAll_readForms hword⟩
  rw [tokenize_render hwords]
  have hread : readAt e.tokens 0 = (e, 0 + e.tokens.length) :=
    Reading.readAt_of_drop (List.append_nil _).symm
  rw [hread, Nat.zero_add]

/-- An action with an empty parameter list, and an atom behind it. -/
theorem action_read_from_rendering :
    let action : Sexpr := .list [.atom ":action", .atom "dock", .list [], .list [.atom "at"]]
    (∀ word ∈ leavesAll [action, .atom "end"], IsWord word.toList) ∧
      readForms "(:action dock () (at)) end" = [action, .atom "end"] ∧
      readAt (tokenize "(:action dock () (at))") 0 = (action, 9) := by
  intro action
  have hwords : ∀ word ∈ leavesAll [action, .atom "end"], IsWord word.toList := by decide
  have haction : ∀ word ∈ action.leaves, IsWord word.toList := by decide
  refine ⟨hwords, ?_, ?_⟩
  · have hrendered :
        " ".intercalate ([action, .atom "end"].map render) = "(:action dock () (at)) end" := by
      decide +kernel
    have hread := reading_inverts_rendering.1 [action, .atom "end"] hwords
    rwa [hrendered] at hread
  · have hrendered : action.render = "(:action dock () (at))" := by decide +kernel
    have hcount : (tokenize "(:action dock () (at))").length = 9 := by decide +kernel
    have hread := reading_inverts_rendering.2.1 action haction
    rwa [hrendered, hcount] at hread

end Sexpr

end PlanPlayback
