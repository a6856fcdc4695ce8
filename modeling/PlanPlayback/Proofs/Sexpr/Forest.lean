import PlanPlayback.Sexpr.Reading

/-!
# Forests and their tokens

A text holds a forest: a list of s-expressions.  `tokensAll` writes a forest as tokens, with the
parentheses in balance, and reading these tokens gives the forest back, whatever follows them.  Of
tokens in any order, with or without balance, reading keeps the atoms.

## Strategy

`forest_induction` takes a forest apart at its first expression, so that a statement about single
expressions is one about forests with one expression.  What stands behind a forest is kept general in
every induction, since the items of a list are followed by its closing parenthesis and the rest of
the text.

The fold that reads a token list and the count of parentheses that skips a group meet in
`Reading.ofTokens_afterGroup`: what is read behind a group are the outer runs of the reading.  It
follows that the fold reads what one reads expression by expression, from index to index
(`Reading.ofTokens_drop`).
-/

namespace PlanPlayback

namespace Sexpr

/-- A forest is taken apart at its first expression. -/
@[elab_as_elim]
theorem forest_induction {P : List Sexpr → Prop} (nil : P [])
    (atom : ∀ text rest, P rest → P (.atom text :: rest))
    (list : ∀ items rest, P items → P rest → P (.list items :: rest)) : ∀ forms, P forms
  | [] => nil
  | .atom text :: rest => atom text rest (forest_induction nil atom list rest)
  | .list items :: rest =>
      list items rest (forest_induction nil atom list items) (forest_induction nil atom list rest)

mutual

/-- The tokens of an expression. -/
def tokens : Sexpr → List Token
  | .atom text => [.atom text]
  | .list items => .opening :: (tokensAll items ++ [.closing])

/-- The tokens of a forest. -/
def tokensAll : List Sexpr → List Token
  | [] => []
  | e :: rest => e.tokens ++ tokensAll rest

end

mutual

/-- The atoms of an expression at any depth, from left to right. -/
def leaves : Sexpr → List String
  | .atom text => [text]
  | .list items => leavesAll items

/-- The atoms of a forest at any depth, from left to right. -/
def leavesAll : List Sexpr → List String
  | [] => []
  | e :: rest => e.leaves ++ leavesAll rest

end

mutual

/-- The items of every list in an expression, the expression itself included. -/
def groups : Sexpr → List (List Sexpr)
  | .atom _ => []
  | .list items => items :: groupsAll items

/-- The items of every list in a forest, at any depth. -/
def groupsAll : List Sexpr → List (List Sexpr)
  | [] => []
  | e :: rest => e.groups ++ groupsAll rest

end

theorem tokensAll_singleton (e : Sexpr) : tokensAll [e] = e.tokens := by
  simp [tokensAll]

theorem leavesAll_singleton (e : Sexpr) : leavesAll [e] = e.leaves := by
  simp [leavesAll]

@[simp] theorem leavesAll_append (forms others : List Sexpr) :
    leavesAll (forms ++ others) = leavesAll forms ++ leavesAll others := by
  induction forms with
  | nil => rfl
  | cons e rest ih => simp [leavesAll, ih]

@[simp] theorem groupsAll_append (forms others : List Sexpr) :
    groupsAll (forms ++ others) = groupsAll forms ++ groupsAll others := by
  induction forms with
  | nil => rfl
  | cons e rest ih => simp [groupsAll, ih]

/-! ## Lists of atoms -/

theorem filterMap_atom?_map_atom (args : List String) :
    (args.map .atom).filterMap atom? = args := by
  rw [List.filterMap_map]
  exact List.filterMap_some

theorem leavesAll_map_atom (args : List String) : leavesAll (args.map .atom) = args := by
  induction args with
  | nil => rfl
  | cons arg args ih => rw [List.map_cons, leavesAll, ih, leaves, List.singleton_append]

theorem filterMap_atom?_subset_leavesAll (forms : List Sexpr) :
    forms.filterMap atom? ⊆ leavesAll forms := by
  induction forms with
  | nil => exact List.nil_subset _
  | cons s rest ih =>
    cases s with
    | atom text => exact List.cons_subset_cons text ih
    | list items => exact List.subset_append_of_subset_right _ ih

end Sexpr

open Sexpr

/-- The text of an atom. -/
def Token.text? : Token → Option String
  | .atom text => some text
  | _ => none

namespace Reading

/-- A reading with a forest in front. -/
def precededBy (forms : List Sexpr) (r : Reading) : Reading :=
  ⟨forms ++ r.items, r.outer⟩

/-- What a reading holds behind the closing parenthesis of a group inside `depth` further groups. -/
def behind (depth : Nat) (r : Reading) : Reading :=
  match r.outer.drop depth with
  | [] => empty
  | items :: outer => ⟨items, outer⟩

theorem ofTokens_cons (t : Token) (rest : List Token) :
    ofTokens (t :: rest) = push t (ofTokens rest) := rfl

/-! ## Tokens in balance -/

theorem ofTokens_tokensAll_append (forms : List Sexpr) (rest : List Token) :
    ofTokens (tokensAll forms ++ rest) = (ofTokens rest).precededBy forms := by
  induction forms using forest_induction generalizing rest with
  | nil => rfl
  | atom text others ih => simp [tokensAll, tokens, ofTokens_cons, ih, push, precededBy]
  | list items others ihItems ih =>
    -- the closing parenthesis puts what follows the list into the outer runs of its items
    have hitems : ofTokens (tokensAll items ++ .closing :: (tokensAll others ++ rest)) =
        ⟨items, (others ++ (ofTokens rest).items) :: (ofTokens rest).outer⟩ := by
      rw [ihItems, ofTokens_cons, ih]
      simp [push, precededBy]
    simp [tokensAll, tokens, ofTokens_cons, hitems, push, precededBy]

theorem afterGroup_tokensAll_append (forms : List Sexpr) (depth : Nat) (rest : List Token) :
    afterGroup depth (tokensAll forms ++ rest) = afterGroup depth rest := by
  induction forms using forest_induction generalizing depth rest with
  | nil => rfl
  | atom text others ih => simp [tokensAll, tokens, afterGroup, ih]
  | list items others ihItems ih => simp [tokensAll, tokens, afterGroup, ihItems, ih]

/-- An expression is read where its tokens stand, and what is read next stands behind them. -/
theorem readAt_of_drop {ts rest : List Token} {start : Nat} {e : Sexpr}
    (h : ts.drop start = e.tokens ++ rest) : readAt ts start = (e, start + e.tokens.length) := by
  have hlength : ts.length - start = e.tokens.length + rest.length := by
    rw [← List.length_drop, h, List.length_append]
  cases e with
  | atom text => simp [readAt, h, tokens]
  | list items =>
    have hinside : ts.drop start = .opening :: (tokensAll items ++ .closing :: rest) := by
      simp [h, tokens]
    have hgroup : afterGroup 0 (tokensAll items ++ .closing :: rest) = rest := by
      rw [afterGroup_tokensAll_append]
      rfl
    have hitems : (ofTokens (tokensAll items ++ .closing :: rest)).items = items := by
      simp [ofTokens_tokensAll_append, ofTokens_cons, push, precededBy]
    have hpos : 0 < (tokens (.list items)).length := by simp [tokens]
    simp only [readAt, hinside, hgroup, hitems, Prod.mk.injEq, true_and]
    omega

/-! ## Any tokens -/

theorem ofTokens_afterGroup (depth : Nat) (ts : List Token) :
    ofTokens (afterGroup depth ts) = (ofTokens ts).behind depth := by
  induction ts generalizing depth with
  | nil => simp [afterGroup, ofTokens, behind, empty]
  | cons t rest ih =>
    rw [ofTokens_cons]
    cases t with
    | atom text => rw [afterGroup, ih]; rfl
    | opening =>
      rw [afterGroup, ih]
      cases houter : (ofTokens rest).outer with
      | nil => simp [behind, push, houter]
      | cons next outer => simp [behind, push, houter]
    | closing =>
      cases depth with
      | zero => rfl
      | succ depth => rw [afterGroup, ih]; rfl

/-- Behind a group inside another one stands what is left of the other one. -/
theorem afterGroup_succ (depth : Nat) (ts : List Token) :
    afterGroup (depth + 1) ts = afterGroup 0 (afterGroup depth ts) := by
  induction ts generalizing depth with
  | nil => simp [afterGroup]
  | cons t rest ih =>
    cases t with
    | atom text => simp only [afterGroup, ih]
    | opening => simp only [afterGroup, ih]
    | closing =>
      cases depth with
      | zero => rfl
      | succ depth => simp only [afterGroup, ih]

theorem afterGroup_suffix (depth : Nat) (ts : List Token) : afterGroup depth ts <:+ ts := by
  induction ts generalizing depth with
  | nil => exact List.suffix_rfl
  | cons t rest ih =>
    have hrest : rest <:+ t :: rest := List.suffix_cons t rest
    cases t with
    | atom text => exact (ih depth).trans hrest
    | opening => exact (ih (depth + 1)).trans hrest
    | closing =>
      cases depth with
      | zero => exact hrest
      | succ depth => exact (ih depth).trans hrest

theorem push_opening (r : Reading) :
    push .opening r = (r.behind 0).precededBy [.list r.items] := by
  cases houter : r.outer with
  | nil => simp [push, behind, precededBy, empty, houter]
  | cons next outer => simp [push, behind, precededBy, houter]

theorem drop_succ {α : Type} {ts rest : List α} {start : Nat} {t : α}
    (h : ts.drop start = t :: rest) : ts.drop (start + 1) = rest := by
  rw [← List.drop_drop, h]
  rfl

/-- What is read behind a group stands behind its closing parenthesis. -/
theorem drop_readAt_of_opening {ts rest : List Token} {start : Nat}
    (h : ts.drop start = .opening :: rest) :
    ts.drop (readAt ts start).2 = afterGroup 0 rest := by
  -- the index behind a group is counted from the end, since `afterGroup` leaves a suffix
  have hsuffix : afterGroup 0 rest <:+ ts :=
    (afterGroup_suffix 0 rest).trans (drop_succ h ▸ List.drop_suffix _ _)
  simp only [readAt, h]
  exact (List.suffix_iff_eq_drop.mp hsuffix).symm

/-- **Expression by expression.**  At a closing parenthesis a run of expressions ends.  At any other
token the expression that begins there is read, and reading goes on at the index behind it. -/
theorem ofTokens_drop (ts : List Token) (start : Nat) :
    ofTokens (ts.drop start) =
      match ts[start]? with
      | none => empty
      | some .closing => push .closing (ofTokens (ts.drop (start + 1)))
      | some _ => (ofTokens (ts.drop (readAt ts start).2)).precededBy [(readAt ts start).1] := by
  rw [← List.head?_drop]
  cases h : ts.drop start with
  | nil => rfl
  | cons t rest =>
    cases t with
    | atom text => simp [readAt, h, drop_succ h, ofTokens_cons, push, precededBy]
    | closing => simp [drop_succ h, ofTokens_cons]
    | opening =>
      rw [List.head?_cons]
      simp only [drop_readAt_of_opening h, ofTokens_cons, push_opening, ofTokens_afterGroup]
      simp only [readAt, h]

/-- **Reading keeps the atoms.**  However the parentheses stand, the atoms that are read are those
that the tokens hold. -/
theorem leavesAll_forms_ofTokens (ts : List Token) :
    leavesAll (ofTokens ts).forms = ts.filterMap Token.text? := by
  induction ts with
  | nil => rfl
  | cons t rest ih =>
    rw [ofTokens_cons]
    cases t with
    | atom text => simpa [push, forms, leavesAll, leaves, Token.text?] using ih
    | closing => simpa [push, forms, List.filterMap_cons, Token.text?] using ih
    | opening =>
      cases houter : (ofTokens rest).outer with
      | nil =>
        simpa [push, forms, leavesAll, leaves, List.filterMap_cons, Token.text?, houter] using ih
      | cons next outer =>
        simpa [push, forms, leavesAll, leaves, List.filterMap_cons, Token.text?, houter] using ih

/-- **Reading keeps the lists.**  Every opening parenthesis opens a list, whether it is closed or
not. -/
theorem length_groupsAll_forms_ofTokens (ts : List Token) :
    (groupsAll (ofTokens ts).forms).length = ts.count .opening := by
  induction ts with
  | nil => rfl
  | cons t rest ih =>
    rw [ofTokens_cons]
    cases t with
    | atom text => simpa [push, forms, groupsAll, groups] using ih
    | closing => simpa [push, forms] using ih
    | opening =>
      cases houter : (ofTokens rest).outer with
      | nil => simpa [push, forms, groupsAll, groups, houter] using ih
      | cons next outer =>
        simp only [push, forms, houter, groupsAll, groups, groupsAll_append, List.flatten_cons,
          List.length_append, List.length_cons, List.count_cons_self] at ih ⊢
        omega

end Reading

end PlanPlayback
