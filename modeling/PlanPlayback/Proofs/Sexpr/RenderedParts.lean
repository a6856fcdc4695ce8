import Mathlib.Data.List.Basic
import PlanPlayback.Proofs.Sexpr.RoundTrip
import PlanPlayback.Proofs.Text.Scanning

/-!
# Parts of a rendering

Two kinds of texts are looked for in the rendering of an expression: the beginning of a list with a
certain first atom, and two pieces of words with a blank between them.  Both can be told from the
expression.

* `infix_openingOf_iff`: an opening parenthesis, a word and a blank are found exactly if some list
  begins with the word as its first item and has a second one;
* `infix_pairOf_iff`: two pieces of words are found exactly if two atoms stand side by side in some
  list, of which the first ends with the first piece and the second begins with the second piece.

An atom is a word, so that a parenthesis in a rendering always opens or closes a list and a blank
always stands between two items.  Hence a text with one such mark in it occurs only where the
rendering has the mark, and what is before and behind the mark is compared there.
-/

namespace PlanPlayback

open Token (IsWord IsDelimited isPlain)

/-! ## Where a mark stands -/

section Marks

variable {α : Type} {mark : α} {part front behind : List α}

/-- What begins with a mark is found behind a text without the mark. -/
theorem infix_append_of_head_notMem (h : mark ∉ front) :
    mark :: part <:+: front ++ behind ↔ mark :: part <:+: behind := by
  rw [List.infix_append_iff]
  constructor
  · rintro (hfront | hbehind | ⟨left, right, hpart, hleft, hright⟩)
    · exact absurd (hfront.subset List.mem_cons_self) h
    · exact hbehind
    · cases left with
      | nil => exact hpart ▸ hright.isInfix
      | cons c left =>
        obtain ⟨rfl, -⟩ := List.cons.inj hpart
        exact absurd (hleft.subset List.mem_cons_self) h
  · exact fun hbehind => .inr (.inl hbehind)

/-- What does not hold a mark is found on one side of it. -/
theorem infix_append_cons_of_notMem (h : mark ∉ part) :
    part <:+: front ++ mark :: behind ↔ part <:+: front ∨ part <:+: behind := by
  rw [List.infix_append_iff, List.infix_cons_iff]
  constructor
  · rintro (hfront | (hbegin | hbehind) | ⟨left, right, rfl, hleft, hright⟩)
    · exact .inl hfront
    · rcases List.prefix_cons_iff.mp hbegin with rfl | ⟨rest, rfl, -⟩
      · exact .inl List.nil_infix
      · exact absurd List.mem_cons_self h
    · exact .inr hbehind
    · rcases List.prefix_cons_iff.mp hright with rfl | ⟨rest, rfl, -⟩
      · rw [List.append_nil]
        exact .inl hleft.isInfix
      · exact absurd (List.mem_append_right _ List.mem_cons_self) h
  · rintro (hfront | hbehind)
    · exact .inl hfront
    · exact .inr (.inl (.inr hbehind))

/-- What holds a mark once is found on one side of a mark, or both marks are the same. -/
theorem infix_append_cons_iff {left right : List α} (hleft : mark ∉ left) (hright : mark ∉ right) :
    left ++ mark :: right <:+: front ++ mark :: behind ↔
      left ++ mark :: right <:+: front ∨ (left <:+ front ∧ right <+: behind) ∨
        left ++ mark :: right <:+: behind := by
  have hmeet (before after : List α) (hsplit : left ++ mark :: right = before ++ mark :: after) :
      left = before ∧ right = after := by
    obtain ⟨hbefore, -, hafter⟩ := (List.append_cons_inj_of_notMem hleft hright).mp hsplit
    exact ⟨hbefore, hafter⟩
  rw [List.infix_append_iff, List.infix_cons_iff]
  constructor
  · rintro (hfront | (hbegin | hbehind) | ⟨before, after, hsplit, hbefore, hafter⟩)
    · exact .inl hfront
    · rcases List.prefix_cons_iff.mp hbegin with hnil | ⟨rest, hrest, hbehind⟩
      · simp at hnil
      · obtain ⟨rfl, rfl⟩ := hmeet [] rest hrest
        exact .inr (.inl ⟨List.nil_suffix, hbehind⟩)
    · exact .inr (.inr hbehind)
    · rcases List.prefix_cons_iff.mp hafter with rfl | ⟨rest, rfl, hrest⟩
      · rw [List.append_nil] at hsplit
        exact .inl (hsplit ▸ hbefore.isInfix)
      · obtain ⟨rfl, rfl⟩ := hmeet before rest hsplit
        exact .inr (.inl ⟨hbefore, hrest⟩)
  · rintro (hfront | ⟨hfront, hbehind⟩ | hbehind)
    · exact .inl hfront
    · exact .inr (.inr ⟨left, mark :: right, rfl, hfront, List.cons_prefix_cons.mpr ⟨rfl, hbehind⟩⟩)
    · exact .inr (.inl (.inr hbehind))

end Marks

/-! ## Runs of plain characters -/

section Runs

variable {run other rest behind : List Char}

/-- Where a run ends is told by what follows it. -/
theorem run_append_inj (hrun : ∀ c ∈ run, isPlain c = true) (hother : ∀ c ∈ other, isPlain c = true)
    (hrest : IsDelimited rest) (hbehind : IsDelimited behind) :
    run ++ rest = other ++ behind ↔ run = other ∧ rest = behind := by
  constructor
  · intro h
    have hfirst := congrArg (List.takeWhile isPlain) h
    rw [Text.takeWhile_append_eq hrun hrest, Text.takeWhile_append_eq hother hbehind] at hfirst
    have hsecond := congrArg (List.dropWhile isPlain) h
    rw [Text.dropWhile_append_eq hrun hrest, Text.dropWhile_append_eq hother hbehind] at hsecond
    exact ⟨hfirst, hsecond⟩
  · rintro ⟨rfl, rfl⟩
    rfl

/-- A run does not reach over the end of a word. -/
theorem run_prefix_append_iff (hrun : ∀ c ∈ run, isPlain c = true) (hbehind : IsDelimited behind) :
    run <+: other ++ behind ↔ run <+: other := by
  constructor
  · rintro ⟨rest, h⟩
    rcases List.append_eq_append_iff.mp h with ⟨middle, rfl, -⟩ | ⟨middle, rfl, rfl⟩
    · exact List.prefix_append run middle
    · cases middle with
      | nil => simp
      | cons c middle =>
        have hplain : isPlain c = true := hrun c (by simp)
        rw [hbehind c rfl] at hplain
        cases hplain
  · exact fun h => h.trans (List.prefix_append other behind)

end Runs

namespace Sexpr

/-! ## Beginnings of lists -/

/-- Whether some list in an expression begins with an atom and has a further item. -/
def HasCall (word : String) (e : Sexpr) : Prop :=
  ∃ next rest, .atom word :: next :: rest ∈ e.groups

/-- How a list begins whose first item is an atom and which has a further item. -/
def openingOf (word : String) : List Char :=
  '(' :: (word.toList ++ [' '])

/-- A word and a blank stand at the beginning of the items of a list exactly if the word is the first
of several items. -/
theorem prefix_renderItems_iff {word : String} (hword : IsWord word.toList) {items : List Sexpr}
    (hitems : ∀ text ∈ leavesAll items, IsWord text.toList) (behind : List Char) :
    word.toList ++ [' '] <+: (renderItems items).toList ++ ')' :: behind ↔
      ∃ next rest, items = .atom word :: next :: rest := by
  obtain ⟨c, letters, hletters⟩ := List.exists_cons_of_ne_nil hword.1
  have hne (mark : Char) (hmark : isPlain mark = false) : c ≠ mark := by
    rintro rfl
    exact absurd (hword.2 c (by simp [hletters])) (by simp [hmark])
  cases items with
  | nil => simp [renderItems, hletters, hne ')' (by decide)]
  | cons e rest =>
    rw [toList_renderItems_cons, List.append_assoc]
    cases e with
    | list inner => simp [toList_render_list, hletters, hne '(' (by decide)]
    | atom text =>
      have htext : IsWord text.toList := hitems text (by simp [leavesAll, leaves])
      have hrest : IsDelimited (renderRest rest ++ ')' :: behind) :=
        isDelimited_renderRest_append rest (Token.isDelimited_cons (by decide))
      have hblank (after : List Char) : IsDelimited (' ' :: after) :=
        Token.isDelimited_cons (by decide)
      rw [render]
      constructor
      · rintro ⟨after, h⟩
        rw [List.append_assoc, List.singleton_append,
          run_append_inj hword.2 htext.2 (hblank after) hrest, String.toList_inj] at h
        obtain ⟨rfl, hafter⟩ := h
        cases rest with
        | nil => simp [renderRest] at hafter
        | cons next rest => exact ⟨next, rest, rfl⟩
      · rintro ⟨next, rest, ⟨⟩⟩
        simp [renderRest]

theorem parens_notMem {text : String} (h : IsWord text.toList) :
    '(' ∉ text.toList ∧ ')' ∉ text.toList ∧ ' ' ∉ text.toList := by
  have hmark {mark : Char} (hmark : isPlain mark = false) : mark ∉ text.toList := fun hmem => by
    rw [h.2 mark hmem] at hmark
    cases hmark
  exact ⟨hmark (by decide), hmark (by decide), hmark (by decide)⟩

theorem infix_openingOf_renderRest_iff (word : String) (rest : List Sexpr) (behind : List Char) :
    openingOf word <:+: renderRest rest ++ behind ↔
      openingOf word <:+: (renderItems rest).toList ++ behind := by
  cases rest with
  | nil => rfl
  | cons next rest =>
    have hblank : '(' ∉ [' '] := by decide
    exact infix_append_of_head_notMem hblank

theorem infix_openingOf_renderItems_iff {word : String} (hword : IsWord word.toList)
    {forms : List Sexpr} (hforms : ∀ text ∈ leavesAll forms, IsWord text.toList)
    (behind : List Char) :
    openingOf word <:+: (renderItems forms).toList ++ behind ↔
      (∃ next rest, .atom word :: next :: rest ∈ groupsAll forms) ∨ openingOf word <:+: behind := by
  induction forms using forest_induction generalizing behind with
  | nil => simp [renderItems, groupsAll]
  | atom text rest ih =>
    simp only [leavesAll, leaves, List.singleton_append, List.forall_mem_cons] at hforms
    obtain ⟨htext, hrest⟩ := hforms
    rw [toList_renderItems_cons, render, List.append_assoc, openingOf,
      infix_append_of_head_notMem (parens_notMem htext).1, ← openingOf,
      infix_openingOf_renderRest_iff, ih hrest]
    rfl
  | list items rest ihItems ih =>
    simp only [leavesAll, leaves, List.forall_mem_append] at hforms
    obtain ⟨hitems, hrest⟩ := hforms
    have hclosing : '(' ∉ [')'] := by decide
    -- the opening stands at the beginning of this list, inside it, or behind it
    have hinside : openingOf word <:+: (renderItems items).toList ++
          ')' :: (renderRest rest ++ behind) ↔
        (∃ next rest, .atom word :: next :: rest ∈ groupsAll items) ∨
          (∃ next others, .atom word :: next :: others ∈ groupsAll rest) ∨
            openingOf word <:+: behind := by
      rw [ihItems hitems, ← ih hrest, ← infix_openingOf_renderRest_iff]
      exact or_congr_right (infix_append_of_head_notMem hclosing)
    have hbeginning := prefix_renderItems_iff hword hitems (renderRest rest ++ behind)
    rw [toList_renderItems_cons, toList_render_list]
    simp only [List.cons_append, List.append_assoc, List.nil_append]
    rw [List.infix_cons_iff, hinside, openingOf, List.cons_prefix_cons, hbeginning]
    simp only [true_and, groupsAll, groups, List.cons_append, List.mem_cons, List.mem_append,
      exists_or, or_assoc, eq_comm]

/-- **An opening is found exactly where a list begins.**  The atoms of the expression are words, and so
is the atom that is looked for.  A parenthesis, the atom and a blank are found in the rendering
exactly if some list begins with the atom and has a further item. -/
theorem infix_openingOf_iff {word : String} (hword : IsWord word.toList) {e : Sexpr}
    (he : ∀ text ∈ e.leaves, IsWord text.toList) :
    openingOf word <:+: e.render.toList ↔ e.HasCall word := by
  rw [← leavesAll_singleton] at he
  have h := infix_openingOf_renderItems_iff hword he []
  simpa [renderItems, groupsAll, openingOf, HasCall] using h

/-! ## Items side by side -/

/-- Whether two atoms stand side by side among some items, of which the first ends with one piece and
the second begins with the other. -/
def HasPair (left right : String) (items : List Sexpr) : Prop :=
  ∃ first second, [.atom first, .atom second] <:+: items ∧
    left.toList <:+ first.toList ∧ right.toList <+: second.toList

/-- Two pieces of words with a blank between them. -/
def pairOf (left right : String) : List Char :=
  left.toList ++ ' ' :: right.toList

/-- Whether such a pair is made of an expression and the first of the others. -/
def IsPairAt (left right : String) (e : Sexpr) (rest : List Sexpr) : Prop :=
  ∃ first second others, e = .atom first ∧ rest = .atom second :: others ∧
    left.toList <:+ first.toList ∧ right.toList <+: second.toList

section

variable {left right : String} {e : Sexpr} {rest : List Sexpr}

theorem not_hasPair_nil : ¬HasPair left right [] := by
  rintro ⟨first, second, hpart, -⟩
  simp at hpart

theorem hasPair_cons_iff :
    HasPair left right (e :: rest) ↔ IsPairAt left right e rest ∨ HasPair left right rest := by
  constructor
  · rintro ⟨first, second, hpart, hfirst, hsecond⟩
    rcases List.infix_cons_iff.mp hpart with hbegin | hrest
    · obtain ⟨rfl, others, rfl⟩ := List.cons_prefix_cons.mp hbegin
      exact .inl ⟨first, second, others, rfl, rfl, hfirst, hsecond⟩
    · exact .inr ⟨first, second, hrest, hfirst, hsecond⟩
  · rintro (⟨first, second, others, rfl, rfl, hfirst, hsecond⟩ | ⟨first, second, hpart, hpieces⟩)
    · exact ⟨first, second, ⟨[], others, rfl⟩, hfirst, hsecond⟩
    · exact ⟨first, second, List.infix_cons hpart, hpieces⟩

theorem suffix_render_iff (hleft : IsWord left.toList) :
    left.toList <:+ e.render.toList ↔ ∃ first, e = .atom first ∧ left.toList <:+ first.toList := by
  cases e with
  | atom text => simp [render]
  | list items =>
    have hnot : ¬ left.toList <:+ (render (.list items)).toList := by
      rw [toList_render_list, ← List.cons_append]
      intro hsuffix
      rcases List.suffix_concat_iff.mp hsuffix with hnil | ⟨front, hfront, -⟩
      · exact hleft.1 hnil
      · exact (parens_notMem hleft).2.1 (by simp [hfront])
    simp [hnot]

theorem prefix_renderItems_cons_iff (hright : IsWord right.toList) :
    right.toList <+: (renderItems (e :: rest)).toList ↔
      ∃ second, e = .atom second ∧ right.toList <+: second.toList := by
  rw [toList_renderItems_cons]
  cases e with
  | atom text =>
    have hrest : IsDelimited (renderRest rest) := by
      simpa using isDelimited_renderRest_append rest Token.isDelimited_nil
    rw [run_prefix_append_iff hright.2 hrest]
    simp [render]
  | list items =>
    have hnot : ¬ right.toList <+: (render (.list items)).toList ++ renderRest rest := by
      rw [toList_render_list]
      intro hbegin
      rcases List.prefix_cons_iff.mp hbegin with hnil | ⟨behind, hbehind, -⟩
      · exact hright.1 hnil
      · exact (parens_notMem hright).1 (by simp [hbehind])
    simp [hnot]

variable (hleft : IsWord left.toList) (hright : IsWord right.toList)

include hleft hright

theorem infix_pairOf_cons_iff :
    pairOf left right <:+: (renderItems (e :: rest)).toList ↔
      pairOf left right <:+: e.render.toList ∨ IsPairAt left right e rest ∨
        pairOf left right <:+: (renderItems rest).toList := by
  rw [toList_renderItems_cons]
  cases rest with
  | nil => simp [renderRest, renderItems, IsPairAt, pairOf]
  | cons next others =>
    have hsplit : renderRest (next :: others) = ' ' :: (renderItems (next :: others)).toList := rfl
    rw [hsplit, pairOf, infix_append_cons_iff (parens_notMem hleft).2.2 (parens_notMem hright).2.2,
      suffix_render_iff hleft, prefix_renderItems_cons_iff hright]
    refine or_congr_right (or_congr_left ?_)
    constructor
    · rintro ⟨⟨first, rfl, hfirst⟩, second, rfl, hsecond⟩
      exact ⟨first, second, others, rfl, rfl, hfirst, hsecond⟩
    · rintro ⟨first, second, _, rfl, ⟨⟩, hfirst, hsecond⟩
      exact ⟨⟨first, rfl, hfirst⟩, second, rfl, hsecond⟩

theorem infix_pairOf_render_list_iff {items : List Sexpr} :
    pairOf left right <:+: (render (.list items)).toList ↔
      pairOf left right <:+: (renderItems items).toList := by
  have hparens : '(' ∉ pairOf left right ∧ ')' ∉ pairOf left right := by
    simp [pairOf, parens_notMem hleft, parens_notMem hright]
  have hne : ¬ pairOf left right <:+: [] := by simp [pairOf]
  rw [toList_render_list, ← List.nil_append ('(' :: _), infix_append_cons_of_notMem hparens.1,
    infix_append_cons_of_notMem hparens.2]
  simp [hne]

theorem infix_pairOf_renderItems_iff {forms : List Sexpr}
    (hforms : ∀ text ∈ leavesAll forms, IsWord text.toList) :
    pairOf left right <:+: (renderItems forms).toList ↔
      HasPair left right forms ∨ ∃ items ∈ groupsAll forms, HasPair left right items := by
  induction forms using forest_induction with
  | nil => simp [renderItems, groupsAll, pairOf, not_hasPair_nil]
  | atom text rest ih =>
    simp only [leavesAll, leaves, List.singleton_append, List.forall_mem_cons] at hforms
    have htext : ¬ pairOf left right <:+: (render (.atom text)).toList := fun hpart =>
      (parens_notMem hforms.1).2.2 (hpart.subset (by simp [pairOf]))
    rw [infix_pairOf_cons_iff hleft hright, ih hforms.2, hasPair_cons_iff, or_assoc]
    simp [htext, groupsAll, groups]
  | list items rest ihItems ih =>
    simp only [leavesAll, leaves, List.forall_mem_append] at hforms
    have hlist : ¬IsPairAt left right (.list items) rest := by simp [IsPairAt]
    rw [infix_pairOf_cons_iff hleft hright, infix_pairOf_render_list_iff hleft hright,
      ihItems hforms.1, ih hforms.2, hasPair_cons_iff]
    simp only [groupsAll, groups, List.cons_append, List.mem_cons, List.mem_append, or_and_right,
      exists_or, exists_eq_left, hlist, false_or, or_assoc]
    exact (or_left_comm.trans (or_congr_right or_left_comm)).symm

/-- **A pair is found exactly where two atoms meet.**  The atoms of the expression and the two pieces
are words.  The pieces with a blank between them are found in the rendering exactly if two atoms
stand side by side in some list, of which the first ends with the one piece and the second begins
with the other. -/
theorem infix_pairOf_iff {e : Sexpr} (he : ∀ text ∈ e.leaves, IsWord text.toList) :
    pairOf left right <:+: e.render.toList ↔ ∃ items ∈ e.groups, HasPair left right items := by
  rw [← leavesAll_singleton] at he
  have h := infix_pairOf_renderItems_iff hleft hright he
  have hsingle : ¬HasPair left right [e] := by
    simp [hasPair_cons_iff, not_hasPair_nil, IsPairAt]
  simpa [renderItems, groupsAll, hsingle] using h

end

end Sexpr

end PlanPlayback
