import PlanPlayback.Pddl.Walk
import PlanPlayback.Proofs.Decimal.Notation
import PlanPlayback.Proofs.Sexpr.RoundTrip

/-!
# The text of numeric expressions

A numeric expression is read from an s-expression.  Reading tells the kinds of expressions apart by
their words: a word that is a numeral is a number, and a list with one of four words in front is an
operation.  So an expression with such words in other places is never read (`IsReadable`).

* `toSexpr` is the s-expression that an expression is written as;
* `ofSexpr_toSexpr_iff`: the readable expressions are those that are read from it;
* `read_from_text`: what was read of an s-expression is read of its own text again.

## Strategy

Text and reading are brought together at `toSexpr`.  It has the same text as the expression
(`render_toSexpr`), so that it is the only form in this text if its atoms are words.  They are, as
all of them were read before, except for numbers, which are printed anew (`isWord_positional`).
-/

namespace PlanPlayback

open Sexpr
open Token (IsWord)

/-- The text of a number is a single word. -/
theorem isWord_positional (x : Float) : IsWord (Decimal.positional x).toList := by
  by_cases hx : x.isFinite = true
  · obtain ⟨p, htext, -⟩ := Decimal.exists_positional_eq hx
    obtain ⟨c, rest, hcons, -⟩ := p.exists_text_eq_cons
    rw [htext]
    refine ⟨by simp [hcons], fun c hc => ?_⟩
    rcases List.mem_append.mp hc with hc | hc
    · unfold Decimal.signText at hc
      split_ifs at hc
      · rw [List.mem_singleton.mp hc]
        decide
      · cases hc
    · exact p.forall_mem_text (by decide) c hc
  · have hprinted := Decimal.printedAs_positional (Bool.eq_false_iff.mpr hx)
    generalize Decimal.positional x = text at hprinted
    cases hprinted <;> decide

namespace Expression

/-! ## Forms -/

mutual

/-- The s-expression that an expression is written as. -/
def toSexpr : Expression → Sexpr
  | .number value => .atom (Decimal.positional value)
  | .fluent name args => .list (.atom name :: args.map .atom)
  | .variable name => .atom name
  | .operation operator operands => .list (.atom operator :: toSexprs operands)

/-- The s-expressions that several expressions are written as. -/
def toSexprs : List Expression → List Sexpr
  | [] => []
  | operand :: rest => operand.toSexpr :: toSexprs rest

end

theorem renderItems_atoms (name : String) (args : List String) :
    renderItems (.atom name :: args.map .atom) =
      if args.isEmpty then name else name ++ " " ++ " ".intercalate args := by
  have hargs : (args.map Sexpr.atom).map Sexpr.render = args := by
    rw [List.map_map]
    exact List.map_id args
  rw [renderItems_eq_intercalate, List.map_cons, hargs]
  cases args with
  | nil => rfl
  | cons arg args => simp [Sexpr.render]

mutual

/-- An expression is written like its form. -/
theorem render_toSexpr : ∀ e : Expression, e.toSexpr.render = e.render
  | .number value => rfl
  | .fluent name args => by
    rw [toSexpr, Sexpr.render, renderItems_atoms, render]
    split_ifs <;> simp [String.append_assoc]
  | .variable name => rfl
  | .operation operator operands => by
    apply String.toList_injective
    rw [toSexpr, toList_render_list, toList_renderItems_cons, render, renderRest_toSexprs operands]
    simp [Sexpr.render]

theorem renderRest_toSexprs : ∀ operands : List Expression,
    renderRest (toSexprs operands) = (renderOperands operands).toList
  | [] => rfl
  | operand :: rest => by
    have hrest := renderRest_toSexprs rest
    rw [toSexprs, renderRest, toList_renderItems_cons, render_toSexpr operand, hrest,
      renderOperands]
    simp

end

/-! ## Reading -/

/-- The words of the operations. -/
def operators : List String :=
  ["+", "-", "*", "/"]

mutual

/-- Whether no word in an expression is taken for another kind of word. -/
def IsReadable : Expression → Prop
  | .number _ => True
  | .fluent name _ => name ∉ operators
  | .variable name => Decimal.floatOf? name = none
  | .operation operator operands => operator ∈ operators ∧ AreReadable operands

/-- Whether several expressions are readable. -/
def AreReadable : List Expression → Prop
  | [] => True
  | operand :: rest => operand.IsReadable ∧ AreReadable rest

end

theorem ofSexpr_list_cons (word : String) (rest : List Sexpr) :
    ofSexpr (.list (.atom word :: rest)) =
      if word ∈ operators then .operation word (ofSexprs rest)
      else .fluent word (rest.filterMap atom?) := by
  rw [ofSexpr]
  exact if_congr List.contains_iff_mem rfl rfl

mutual

/-- The readable expressions are those that are read from their forms. -/
theorem ofSexpr_toSexpr_iff : ∀ e : Expression, ofSexpr e.toSexpr = e ↔ e.IsReadable
  | .number value => by simp [toSexpr, ofSexpr, Decimal.floatOf?_positional, IsReadable]
  | .fluent name args => by
    rw [toSexpr, ofSexpr_list_cons, filterMap_atom?_map_atom, IsReadable]
    split_ifs with hname <;> simp [hname]
  | .variable name => by
    rw [toSexpr, ofSexpr, IsReadable]
    cases Decimal.floatOf? name <;> simp
  | .operation operator operands => by
    rw [toSexpr, ofSexpr_list_cons, IsReadable, ← ofSexprs_toSexprs_iff operands]
    split_ifs with hoperator <;> simp [hoperator]

theorem ofSexprs_toSexprs_iff : ∀ operands : List Expression,
    ofSexprs (toSexprs operands) = operands ↔ AreReadable operands
  | [] => by simp [toSexprs, ofSexprs, AreReadable]
  | operand :: rest => by
    rw [toSexprs, ofSexprs, AreReadable, List.cons.injEq, ofSexpr_toSexpr_iff operand,
      ofSexprs_toSexprs_iff rest]

end

mutual

/-- What is read is readable. -/
theorem isReadable_ofSexpr : ∀ s : Sexpr, (ofSexpr s).IsReadable
  | .atom text => by
    rw [ofSexpr]
    cases htext : Decimal.floatOf? text with
    | some value => exact trivial
    | none => exact htext
  | .list [] => trivial
  | .list (.list _ :: _) => trivial
  | .list (.atom word :: rest) => by
    rw [ofSexpr_list_cons]
    split_ifs with hword
    · exact ⟨hword, areReadable_ofSexprs rest⟩
    · exact hword

theorem areReadable_ofSexprs : ∀ forms : List Sexpr, AreReadable (ofSexprs forms)
  | [] => trivial
  | s :: rest => ⟨isReadable_ofSexpr s, areReadable_ofSexprs rest⟩

end

/-! ## Words -/

mutual

/-- All atoms in the form of an expression were read before, except for numbers. -/
theorem isWord_of_mem_leaves_toSexpr {word : String} : ∀ {s : Sexpr},
    (∀ word ∈ s.leaves, IsWord word.toList) → word ∈ (ofSexpr s).toSexpr.leaves →
    IsWord word.toList
  | .atom text, hwords, hword => by
    rw [ofSexpr] at hword
    cases htext : Decimal.floatOf? text with
    | some value =>
      rw [htext, toSexpr, leaves, List.mem_singleton] at hword
      exact hword ▸ isWord_positional value
    | none =>
      rw [htext] at hword
      exact hwords word hword
  | .list [], _, hword => List.mem_singleton.mp hword ▸ isWord_positional 0.0
  | .list (.list _ :: _), _, hword => List.mem_singleton.mp hword ▸ isWord_positional 0.0
  | .list (.atom head :: rest), hwords, hword => by
    simp only [leaves, leavesAll, List.singleton_append, List.forall_mem_cons] at hwords
    obtain ⟨hhead, hrest⟩ := hwords
    rw [ofSexpr_list_cons] at hword
    split_ifs at hword
    · simp only [toSexpr, leaves, leavesAll, List.singleton_append, List.mem_cons] at hword
      rcases hword with rfl | hword
      · exact hhead
      · exact isWord_of_mem_leavesAll_toSexprs hrest hword
    · simp only [toSexpr, leaves, leavesAll, leavesAll_map_atom, List.singleton_append,
        List.mem_cons] at hword
      rcases hword with rfl | hword
      · exact hhead
      · exact hrest word (filterMap_atom?_subset_leavesAll rest hword)

theorem isWord_of_mem_leavesAll_toSexprs {word : String} : ∀ {forms : List Sexpr},
    (∀ word ∈ leavesAll forms, IsWord word.toList) →
    word ∈ leavesAll (toSexprs (ofSexprs forms)) → IsWord word.toList
  | [], _, hword => nomatch hword
  | s :: rest, hwords, hword => by
    rw [leavesAll, List.forall_mem_append] at hwords
    rw [ofSexprs, toSexprs, leavesAll, List.mem_append] at hword
    rcases hword with hword | hword
    · exact isWord_of_mem_leaves_toSexpr hwords.1 hword
    · exact isWord_of_mem_leavesAll_toSexprs hwords.2 hword

end

/-- The text of what was read is a single form. -/
theorem readForms_render_ofSexpr {s : Sexpr} (hwords : ∀ word ∈ s.leaves, IsWord word.toList) :
    readForms (ofSexpr s).render = [(ofSexpr s).toSexpr] := by
  rw [← render_toSexpr]
  exact readForms_render fun _ hword => isWord_of_mem_leaves_toSexpr hwords hword

/-- **An expression survives its text.**  What was read of an s-expression with words for atoms is
written as a single form, and what is read of this form is the same again.  So it has the same
value, if any, whatever the values of fluents and bare names are. -/
theorem read_from_text (s : Sexpr) (hwords : ∀ word ∈ s.leaves, IsWord word.toList) :
    ∃ form, readForms (ofSexpr s).render = [form] ∧ ofSexpr form = ofSexpr s ∧
      ∀ lookup, (ofSexpr form).evaluate lookup = (ofSexpr s).evaluate lookup := by
  have hsame : ofSexpr (ofSexpr s).toSexpr = ofSexpr s :=
    (ofSexpr_toSexpr_iff _).mpr (isReadable_ofSexpr s)
  exact ⟨_, readForms_render_ofSexpr hwords, hsame, fun lookup => congrArg _ hsame⟩

/-- A product of infinity, a function with a list among its arguments, and an operator without
operands. -/
theorem product_read_from_text :
    let s : Sexpr := .list [.atom "*", .atom "+inf", .list [.atom "level", .list [.atom "at"],
      .atom "rover"], .list [.atom "-"]]
    (∀ word ∈ s.leaves, IsWord word.toList) ∧ (ofSexpr s).render = "(* inf (level rover) (-))" ∧
      ∃ form, readForms "(* inf (level rover) (-))" = [form] ∧ ofSexpr form = ofSexpr s ∧
        ∀ lookup, (ofSexpr form).evaluate lookup = (ofSexpr s).evaluate lookup := by
  intro s
  have hwords : ∀ word ∈ s.leaves, IsWord word.toList := by decide
  have htext : (ofSexpr s).render = "(* inf (level rover) (-))" := by decide +kernel
  exact ⟨hwords, htext, htext ▸ read_from_text s hwords⟩

end Expression

end PlanPlayback
