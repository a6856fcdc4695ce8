import Mathlib.Data.List.Basic
import PlanPlayback.Pddl.Sections

/-!
# Definitions section by section

A definition is read one section at a time, and the findings of a section do not depend on what was
read before it.  So the findings of a definition are those of its sections in a row
(`issues_ofSections`).  What it records is, field by field, one of two things: the last section of a
kind (`predicates_ofSections`, `goal_ofSections`), or all of them in a row (`init_ofSections`).
-/

namespace PlanPlayback

/-! ## Folds -/

section Folds

variable {α β γ : Type} {s : α → β → α}

/-- What is added in each step is there in a row at the end. -/
theorem foldl_eq_append_flatMap {f : α → List γ} {new : β → List γ}
    (h : ∀ a b, f (s a b) = f a ++ new b) (bs : List β) (a : α) :
    f (bs.foldl s a) = f a ++ bs.flatMap new := by
  induction bs generalizing a with
  | nil => simp
  | cons b bs ih => rw [List.foldl_cons, ih, h, List.flatMap_cons, List.append_assoc]

/-- What is replaced in some of the steps is at the end what it was replaced with last. -/
theorem foldl_eq_getLast?_filter {f : α → γ} {p : β → Bool} {new : β → γ}
    (h : ∀ a b, f (s a b) = if p b then new b else f a) (bs : List β) (a : α) :
    f (bs.foldl s a) = ((bs.filter p).getLast?.map new).getD (f a) := by
  induction bs generalizing a with
  | nil => rfl
  | cons b bs ih =>
    rw [List.foldl_cons, ih, h, List.filter_cons]
    split_ifs with hb
    · cases hlast : (bs.filter p).getLast? <;> simp [List.getLast?_cons, hlast]
    · rfl

theorem flatMap_filter_eq (p : α → Bool) (f : α → List β) (xs : List α) :
    (xs.filter p).flatMap f = xs.flatMap fun x => if p x then f x else [] := by
  induction xs with
  | nil => rfl
  | cons x xs ih =>
    rw [List.filter_cons, List.flatMap_cons, ← ih]
    split_ifs <;> rfl

end Folds

/-- The sections of the definition in a text. -/
def sectionsOf (text : String) : List Sexpr :=
  ((definition? text).map Sexpr.tail).getD []

/-- The sections of a kind. -/
def sectionsNamed (keyword : String) (sections : List Sexpr) : List Sexpr :=
  sections.filter fun item => item.head? == some keyword

/-- What stands in the last section of a kind. -/
def lastBody (keyword : String) (sections : List Sexpr) : List Sexpr :=
  ((sectionsNamed keyword sections).getLast?.map Sexpr.tail).getD []

/-- What stands in the sections of a kind, in a row. -/
def bodies (keyword : String) (sections : List Sexpr) : List Sexpr :=
  (sectionsNamed keyword sections).flatMap Sexpr.tail

/-- A field that the last section of a kind sets. -/
theorem map_getLast?_getD_eq {γ : Type} (keyword : String) (sections : List Sexpr)
    (read : List Sexpr → γ) :
    ((sectionsNamed keyword sections).getLast?.map fun item => read item.tail).getD (read []) =
      read (lastBody keyword sections) := by
  unfold lastBody
  cases (sectionsNamed keyword sections).getLast? <;> rfl

namespace Domain

variable {text : String} {parsed : Parsed Domain}

theorem eq_ofSections_of_parse? (h : parse? text = some parsed) :
    parsed = ofSections (sectionsOf text) := by
  obtain ⟨form, hform, rfl⟩ := Option.map_eq_some_iff.mp h
  simp [sectionsOf, hform]

/-- The findings of a section. -/
def sectionIssues (item : Sexpr) : List FormIssue :=
  (({} : Domain).addSection item).2

theorem issues_addSection (d : Domain) (item : Sexpr) :
    (d.addSection item).2 = sectionIssues item := by
  unfold sectionIssues addSection
  split
  case h_2 => cases hname : leadingAtom? item.tail <;> simp [hname]
  all_goals rfl

theorem issues_ofSections (sections : List Sexpr) :
    (ofSections sections).issues = sections.flatMap sectionIssues := by
  refine foldl_eq_append_flatMap (f := Parsed.issues) (fun parsed item => ?_) sections (⟨{}, []⟩ : Parsed Domain)
  exact congrArg (parsed.issues ++ ·) (issues_addSection parsed.value item)

theorem predicates_addSection (d : Domain) (item : Sexpr) :
    (d.addSection item).1.predicates =
      if item.head? == some ":predicates" then (PredicateDecl.ofSection item.tail).1
      else d.predicates := by
  unfold addSection
  -- one case for each keyword; only one of them is about predicates
  split
  case h_2 hdomain => cases hname : leadingAtom? item.tail <;> simp [hname, hdomain]
  all_goals simp_all

/-- The last section of predicates counts. -/
theorem predicates_ofSections (sections : List Sexpr) :
    (ofSections sections).value.predicates =
      (PredicateDecl.ofSection (lastBody ":predicates" sections)).1 := by
  rw [← map_getLast?_getD_eq ":predicates" sections fun body => (PredicateDecl.ofSection body).1]
  exact foldl_eq_getLast?_filter (f := fun parsed : Parsed Domain => parsed.value.predicates)
    (fun parsed item => predicates_addSection parsed.value item) sections ⟨{}, []⟩

end Domain

/-! ## Problems -/

namespace InitEntry

/-- The literal that an entry is, if it is one. -/
def literal? : InitEntry → Option Literal
  | literal l => some l
  | _ => none

/-- The finding about an entry, if it cannot be read. -/
def issue? : InitEntry → Option FormIssue
  | unread issue => some issue
  | _ => none

end InitEntry

namespace Problem

variable {text : String} {parsed : Parsed Problem}

theorem eq_ofSections_of_parse? (h : parse? text = some parsed) :
    parsed = ofSections (sectionsOf text) := by
  obtain ⟨form, hform, rfl⟩ := Option.map_eq_some_iff.mp h
  simp [sectionsOf, hform]

/-- The findings of a section. -/
def sectionIssues (item : Sexpr) : List FormIssue :=
  (({} : Problem).addSection item).2

/-- The literals that an initial state adds. -/
def initLiterals (body : List Sexpr) : List Literal :=
  body.filterMap fun entry => (InitEntry.ofSexpr entry).literal?

/-- The findings about the entries of an initial state. -/
def initIssues (body : List Sexpr) : List FormIssue :=
  body.filterMap fun entry => (InitEntry.ofSexpr entry).issue?

section AddInit

variable (p : Problem) (entry : Sexpr)

theorem init_addInit :
    (p.addInit entry).1.init = p.init ++ (InitEntry.ofSexpr entry).literal?.toList := by
  unfold addInit
  cases InitEntry.ofSexpr entry <;> simp [InitEntry.literal?]

theorem goal_addInit : (p.addInit entry).1.goal = p.goal := by
  unfold addInit
  cases InitEntry.ofSexpr entry <;> rfl

theorem issues_addInit : (p.addInit entry).2 = (InitEntry.ofSexpr entry).issue?.toList := by
  unfold addInit
  cases InitEntry.ofSexpr entry <;> rfl

end AddInit

/-- The step in which one entry of an initial state is taken into account. -/
def initStep (state : Problem × List FormIssue) (entry : Sexpr) : Problem × List FormIssue :=
  ((state.1.addInit entry).1, state.2 ++ (state.1.addInit entry).2)

theorem addSection_init {item : Sexpr} (h : item.head? = some ":init") (p : Problem) :
    p.addSection item = item.tail.foldl initStep (p, []) := by
  simp only [addSection, h]
  rfl

theorem init_foldl_initStep (body : List Sexpr) (state : Problem × List FormIssue) :
    (body.foldl initStep state).1.init = state.1.init ++ initLiterals body := by
  rw [initLiterals, List.filterMap_eq_flatMap_toList]
  exact foldl_eq_append_flatMap (s := initStep) (f := fun state => state.1.init)
    (fun state entry => init_addInit state.1 entry) body state

theorem issues_foldl_initStep (body : List Sexpr) (state : Problem × List FormIssue) :
    (body.foldl initStep state).2 = state.2 ++ initIssues body := by
  rw [initIssues, List.filterMap_eq_flatMap_toList]
  exact foldl_eq_append_flatMap (s := initStep) (f := Prod.snd)
    (fun state entry => congrArg (state.2 ++ ·) (issues_addInit state.1 entry)) body state

theorem goal_foldl_initStep (body : List Sexpr) (state : Problem × List FormIssue) :
    (body.foldl initStep state).1.goal = state.1.goal := by
  induction body generalizing state with
  | nil => rfl
  | cons entry body ih => exact (ih _).trans (goal_addInit state.1 entry)

theorem issues_addSection (p : Problem) (item : Sexpr) :
    (p.addSection item).2 = sectionIssues item := by
  by_cases hinit : item.head? = some ":init"
  · rw [sectionIssues, addSection_init hinit, addSection_init hinit, issues_foldl_initStep,
      issues_foldl_initStep]
  · unfold sectionIssues addSection
    split
    case h_2 => cases hname : leadingAtom? item.tail <;> simp [hname]
    case h_3 => cases hname : leadingAtom? item.tail <;> simp [hname]
    case h_5 h => exact absurd h hinit
    all_goals rfl

theorem issues_ofSections (sections : List Sexpr) :
    (ofSections sections).issues = sections.flatMap sectionIssues := by
  refine foldl_eq_append_flatMap (f := Parsed.issues) (fun parsed item => ?_) sections (⟨{}, []⟩ : Parsed Problem)
  exact congrArg (parsed.issues ++ ·) (issues_addSection parsed.value item)

theorem init_addSection (p : Problem) (item : Sexpr) :
    (p.addSection item).1.init =
      p.init ++ if item.head? == some ":init" then initLiterals item.tail else [] := by
  by_cases hinit : item.head? = some ":init"
  · rw [addSection_init hinit, init_foldl_initStep, hinit]
    rfl
  · rw [if_neg (by simpa using hinit), List.append_nil]
    unfold addSection
    split
    case h_2 => cases hname : leadingAtom? item.tail <;> simp [hname]
    case h_3 => cases hname : leadingAtom? item.tail <;> simp [hname]
    case h_5 h => exact absurd h hinit
    all_goals rfl

/-- Initial states add up. -/
theorem init_ofSections (sections : List Sexpr) :
    (ofSections sections).value.init = initLiterals (bodies ":init" sections) := by
  have hfold : (ofSections sections).value.init = sections.flatMap fun item =>
      if item.head? == some ":init" then initLiterals item.tail else [] :=
    foldl_eq_append_flatMap (f := fun parsed : Parsed Problem => parsed.value.init)
      (fun parsed item => init_addSection parsed.value item) sections ⟨{}, []⟩
  rw [hfold, initLiterals, bodies, List.filterMap_flatMap, sectionsNamed, flatMap_filter_eq]
  rfl

theorem goal_addSection (p : Problem) (item : Sexpr) :
    (p.addSection item).1.goal =
      if item.head? == some ":goal" then (conditionsOfAll .instant item.tail).literals
      else p.goal := by
  by_cases hinit : item.head? = some ":init"
  · rw [addSection_init hinit, goal_foldl_initStep, hinit]
    rfl
  · unfold addSection
    split
    case h_2 h => cases hname : leadingAtom? item.tail <;> simp [hname, h]
    case h_3 h => cases hname : leadingAtom? item.tail <;> simp [hname, h]
    case h_5 h => exact absurd h hinit
    all_goals simp_all

/-- The last goal counts. -/
theorem goal_ofSections (sections : List Sexpr) :
    (ofSections sections).value.goal =
      (conditionsOfAll .instant (lastBody ":goal" sections)).literals := by
  rw [← map_getLast?_getD_eq ":goal" sections fun body => (conditionsOfAll .instant body).literals]
  exact foldl_eq_getLast?_filter (f := fun parsed : Parsed Problem => parsed.value.goal)
    (fun parsed item => goal_addSection parsed.value item) sections ⟨{}, []⟩

end Problem

end PlanPlayback
