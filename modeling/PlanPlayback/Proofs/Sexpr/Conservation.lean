import PlanPlayback.Proofs.Sexpr.Forest

/-!
# Nothing is lost in reading

Parentheses may stand in any order.  A list that is not closed ends with the text and a closing
parenthesis without a partner is passed over, so that reading never fails; but it leaves nothing out
either.  Every atom of the text is an atom of what is read, in the same order, and every opening
parenthesis is a list.

The reading of a text is a fold over its tokens, and the reading of one expression finds its end by
counting parentheses.  Both can also be read as loops over an index.  `formsFrom` reads one
expression after the other, and `itemsFrom` does so up to the parenthesis that closes a list.  Each
turn of these loops moves the index on and leaves it within the tokens
(`lt_readAt_and_readAt_le`), and so they end; and they read the same (`formsFrom_eq`,
`readAt_of_opening`).
-/

namespace PlanPlayback

open Sexpr

namespace Sexpr

/-- Reading one expression moves the index on, at most to the end of the tokens. -/
theorem lt_readAt_and_readAt_le {ts : List Token} {start : Nat} (h : start < ts.length) :
    start < (readAt ts start).2 ∧ (readAt ts start).2 ≤ ts.length := by
  have hlength : (ts.drop start).length = ts.length - start := List.length_drop
  cases hdrop : ts.drop start with
  | nil => simp [hdrop] at hlength; omega
  | cons t rest =>
    rw [hdrop, List.length_cons] at hlength
    cases t with
    | atom text => simp only [readAt, hdrop]; omega
    | closing => simp only [readAt, hdrop]; omega
    | opening =>
      have hgroup : (afterGroup 0 rest).length ≤ rest.length :=
        (Reading.afterGroup_suffix 0 rest).length_le
      simp only [readAt, hdrop]
      omega

theorem lt_length_of_getElem? {ts : List Token} {start : Nat} {t : Token}
    (h : ts[start]? = some t) : start < ts.length :=
  (List.getElem?_eq_some_iff.mp h).1

/-- The expressions from an index on, one after the other.  Closing parentheses between them are
passed over. -/
def formsFrom (ts : List Token) (start : Nat) : List Sexpr :=
  match h : ts[start]? with
  | none => []
  | some .closing => formsFrom ts (start + 1)
  | some _ => (readAt ts start).1 :: formsFrom ts (readAt ts start).2
termination_by ts.length - start
decreasing_by
  · have := lt_length_of_getElem? h
    omega
  · have := lt_readAt_and_readAt_le (lt_length_of_getElem? h)
    omega

/-- The expressions from an index on up to the first closing parenthesis that has no partner among
them, or to the end of the tokens, with the index behind them. -/
def itemsFrom (ts : List Token) (start : Nat) : List Sexpr × Nat :=
  match h : ts[start]? with
  | none => ([], start)
  | some .closing => ([], start + 1)
  | some _ =>
      let others := itemsFrom ts (readAt ts start).2
      ((readAt ts start).1 :: others.1, others.2)
termination_by ts.length - start
decreasing_by
  have := lt_readAt_and_readAt_le (lt_length_of_getElem? h)
  omega

open Reading (ofTokens ofTokens_drop)

section

variable {ts : List Token} {start : Nat} {t : Token}

/-- An expression begins at any token but a closing parenthesis. -/
theorem ofTokens_drop_of_ne_closing (h : ts[start]? = some t) (hclosing : t ≠ .closing) :
    ofTokens (ts.drop start) =
      (ofTokens (ts.drop (readAt ts start).2)).precededBy [(readAt ts start).1] := by
  rw [ofTokens_drop, h]
  cases t with
  | closing => exact absurd rfl hclosing
  | atom text => rfl
  | opening => rfl

theorem afterGroup_drop_of_ne_closing (h : ts[start]? = some t) (hclosing : t ≠ .closing) :
    afterGroup 0 (ts.drop start) = afterGroup 0 (ts.drop (readAt ts start).2) := by
  rw [← List.head?_drop] at h
  obtain ⟨rest, hrest⟩ := List.head?_eq_some_iff.mp h
  cases t with
  | closing => exact absurd rfl hclosing
  | atom text => simp only [hrest, afterGroup, readAt, Reading.drop_succ hrest]
  | opening => rw [Reading.drop_readAt_of_opening hrest, hrest, afterGroup, Reading.afterGroup_succ]

end

/-- Read one after the other, the expressions are those of the reading as a whole. -/
theorem formsFrom_eq (ts : List Token) (start : Nat) :
    formsFrom ts start = (ofTokens (ts.drop start)).forms := by
  fun_induction formsFrom ts start with
  | case1 start h =>
    rw [ofTokens_drop, h]
    rfl
  | case2 start h ih =>
    rw [ofTokens_drop, h, ih]
    rfl
  | case3 start t hclosing h ih =>
    rw [ofTokens_drop_of_ne_closing h hclosing, ih]
    rfl

/-- Read one after the other up to a closing parenthesis, the expressions are those in front of it in
the reading as a whole, and the index is the one behind it. -/
theorem itemsFrom_eq {ts : List Token} {start : Nat} (hstart : start ≤ ts.length) :
    itemsFrom ts start =
      ((ofTokens (ts.drop start)).items, ts.length - (afterGroup 0 (ts.drop start)).length) := by
  fun_induction itemsFrom ts start with
  | case1 start h =>
    have hend : start = ts.length := Nat.le_antisymm hstart (List.getElem?_eq_none_iff.mp h)
    simp [hend, afterGroup, Reading.ofTokens, Reading.empty]
  | case2 start h =>
    have hlength := lt_length_of_getElem? h
    rw [← List.head?_drop] at h
    obtain ⟨rest, hrest⟩ := List.head?_eq_some_iff.mp h
    have hbehind : rest.length = ts.length - (start + 1) := by
      rw [← Reading.drop_succ hrest, List.length_drop]
    simp only [hrest, afterGroup, Reading.ofTokens_cons, Reading.push, Prod.mk.injEq, true_and]
    omega
  | case3 start t hclosing h others ih =>
    have hnext := (lt_readAt_and_readAt_le (lt_length_of_getElem? h)).2
    rw [ofTokens_drop_of_ne_closing h hclosing, afterGroup_drop_of_ne_closing h hclosing]
    simp only [others, ih hnext, Reading.precededBy, List.singleton_append]

/-- The list that begins at an opening parenthesis is read item by item. -/
theorem readAt_of_opening {ts : List Token} {start : Nat} (h : ts[start]? = some .opening) :
    readAt ts start =
      (.list (itemsFrom ts (start + 1)).1, (itemsFrom ts (start + 1)).2) := by
  rw [itemsFrom_eq (lt_length_of_getElem? h)]
  rw [← List.head?_drop] at h
  obtain ⟨rest, hrest⟩ := List.head?_eq_some_iff.mp h
  simp only [readAt, hrest, Reading.drop_succ hrest]

/-- **Reading loses and invents nothing.**  Whatever the text, the atoms of what is read, from left to
right and at any depth, are the atoms among the tokens, and there are as many lists as opening
parentheses.  From any index within the tokens, reading one expression moves on and stays within
them, and so it comes to an end to read one expression after the other: the text is read in this
way, and so are the items of every list. -/
theorem reading_conserves (text : String) :
    let ts := Token.tokenize text
    leavesAll (readForms text) = ts.filterMap Token.text? ∧
      (groupsAll (readForms text)).length = ts.count .opening ∧
      (∀ start < ts.length, start < (readAt ts start).2 ∧ (readAt ts start).2 ≤ ts.length) ∧
      readForms text = formsFrom ts 0 ∧
      ∀ start, ts[start]? = some .opening →
        readAt ts start = (.list (itemsFrom ts (start + 1)).1, (itemsFrom ts (start + 1)).2) :=
  ⟨Reading.leavesAll_forms_ofTokens _, Reading.length_groupsAll_forms_ofTokens _,
    fun _ h => lt_readAt_and_readAt_le h, (formsFrom_eq _ 0).symm, fun _ h => readAt_of_opening h⟩

/-- A parenthesis that closes nothing, and two lists that are not closed. -/
example :
    let ts := Token.tokenize ") (a (b"
    leavesAll (readForms ") (a (b") = ["a", "b"] ∧ ts.count .opening = 2 ∧
      (readAt ts 0).2 = 1 ∧ (readAt ts 1).2 = 5 := by
  decide +kernel

end Sexpr

end PlanPlayback
