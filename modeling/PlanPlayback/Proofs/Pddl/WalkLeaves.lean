import Mathlib.Logic.Basic
import Mathlib.Tactic.SplitIfs
import PlanPlayback.Pddl.Walk

/-!
# The leaves of conditions and effects

Conditions and effects are walked through from the root.  Connectives are gone into in all parts,
and quantifiers in the last one; a timing wrapper is gone into in what it wraps.  Where a walk goes
no further there is a leaf.

* `Descent` holds the words of a walk at which it goes on; `Descent.sites` are the places of its
  leaves, from left to right, each with the nodes around it;
* `conditionFinding` and `effectFinding` say what is found at a leaf.

A walk finds one thing at each leaf and nothing else (`IsAccountOf`).  What it finds depends on
nothing but the leaf and the innermost wrapper around it.

## Strategy

Both walks are of one kind: what is said of an expression is what is said of its parts, with the
timing of the expression if it is a wrapper, or what is found there if it is a leaf
(`Descent.IsStepOf`).  From that alone it follows by induction what a whole walk finds
(`Descent.IsStepOf.eq_ofFindings`).
-/

namespace PlanPlayback

open Sexpr

/-! ## Places -/

/-- The timing of a wrapper, and what it wraps. -/
def Sexpr.wrapped? : Sexpr → Option (Timing × Sexpr)
  | .list [.atom "at", .atom "start", body] => some (.atStart, body)
  | .list [.atom "at", .atom "end", body] => some (.atEnd, body)
  | .list [.atom "over", .atom "all", body] => some (.overAll, body)
  | _ => none

/-- The words at which a walk goes on: into all parts of a list, or into the last one. -/
structure Descent where
  intoAll : List String
  intoLast : List String

/-- How conditions are walked through. -/
def conditionDescent : Descent :=
  ⟨["and", "or", "imply"], ["exists", "forall", "preference"]⟩

/-- How effects are walked through. -/
def effectDescent : Descent :=
  ⟨["and"], ["forall", "when"]⟩

/-- Where a walk goes no further: a node, and the nodes around it, the innermost first. -/
structure Site where
  around : List Sexpr
  node : Sexpr

namespace Descent

/-- The parts of an expression that a walk goes into.  A leaf has none, which is not the same as to
have no parts: the empty list has no leaves. -/
def parts? (descent : Descent) (e : Sexpr) : Option (List Sexpr) :=
  match e.wrapped? with
  | some (_, body) => some [body]
  | none =>
    match e with
    | .list [] => some []
    | .list (.atom word :: rest) =>
      if word ∈ descent.intoAll then some rest
      else if word ∈ descent.intoLast then some rest.getLast?.toList
      else none
    | _ => none

theorem mem_items_of_wrapped? {e : Sexpr} {timing : Timing} {body : Sexpr}
    (h : e.wrapped? = some (timing, body)) : body ∈ e.items := by
  unfold wrapped? at h
  split at h <;> simp_all [items]

theorem subset_items_of_parts? {descent : Descent} {e : Sexpr} {parts : List Sexpr}
    (h : descent.parts? e = some parts) : parts ⊆ e.items := by
  unfold parts? at h
  split at h
  case h_1 hwrapped =>
    obtain rfl := Option.some.inj h
    simpa using mem_items_of_wrapped? hwrapped
  case h_2 =>
    split at h
    case h_1 =>
      obtain rfl := Option.some.inj h
      exact List.nil_subset _
    case h_2 word rest _ =>
      split_ifs at h
      · obtain rfl := Option.some.inj h
        exact List.subset_cons_self _ _
      · obtain rfl := Option.some.inj h
        intro part hpart
        exact List.mem_cons_of_mem _ (List.mem_of_getLast? (by simpa using hpart))
    case h_3 => cases h

end Descent

theorem Sexpr.sizeOf_lt_of_mem_items {e part : Sexpr} (h : part ∈ e.items) :
    sizeOf part < sizeOf e := by
  cases e with
  | atom text => cases h
  | list items =>
    have hlt : sizeOf part < sizeOf items := List.sizeOf_lt_of_mem h
    rw [Sexpr.list.sizeOf_spec]
    omega

namespace Descent

/-- The places of the leaves of an expression inside other nodes, from left to right. -/
def sites (descent : Descent) (around : List Sexpr) (e : Sexpr) : List Site :=
  match h : descent.parts? e with
  | none => [⟨around, e⟩]
  | some parts => parts.attach.flatMap fun ⟨part, hpart⟩ =>
      have : sizeOf part < sizeOf e := sizeOf_lt_of_mem_items (subset_items_of_parts? h hpart)
      descent.sites (e :: around) part
termination_by e

theorem sites_eq (descent : Descent) (around : List Sexpr) (e : Sexpr) :
    descent.sites around e =
      match descent.parts? e with
      | none => [⟨around, e⟩]
      | some parts => parts.flatMap (descent.sites (e :: around)) := by
  rw [sites]
  split <;> simp_all

end Descent

/-- The timing of the first wrapper among some nodes, or the initial one if there is none. -/
def timingWithin (initial : Timing) (around : List Sexpr) : Timing :=
  (around.findSome? fun e => e.wrapped?.map Prod.fst).getD initial

/-- The timing of a place is that of the innermost wrapper around it. -/
def Site.timing (initial : Timing) (site : Site) : Timing :=
  timingWithin initial site.around

/-! ## Findings -/

/-- One thing that a walk collects. -/
inductive Finding where
  | literal (l : Literal)
  | comparison (c : Comparison)
  | numericEffect (effect : NumericEffect)
  | issue (i : WalkIssue)

namespace Finding

def literal? : Finding → Option Literal
  | literal l => some l
  | _ => none

def comparison? : Finding → Option Comparison
  | comparison c => some c
  | _ => none

def numericEffect? : Finding → Option NumericEffect
  | numericEffect effect => some effect
  | _ => none

def issue? : Finding → Option WalkIssue
  | issue i => some i
  | _ => none

/-- The timing of what is found; an issue has none. -/
def timing? : Finding → Option Timing
  | literal l => some l.timing
  | comparison c => some c.timing
  | numericEffect effect => some effect.timing
  | issue _ => none

end Finding

namespace Leaves

/-- What is found, each kind by itself and in order. -/
def ofFindings (findings : List Finding) : Leaves :=
  { literals := findings.filterMap Finding.literal?
    comparisons := findings.filterMap Finding.comparison?
    numericEffects := findings.filterMap Finding.numericEffect?
    issues := findings.filterMap Finding.issue? }

/-- The number of things that are collected. -/
def count (leaves : Leaves) : Nat :=
  leaves.literals.length + leaves.comparisons.length + leaves.numericEffects.length +
    leaves.issues.length

theorem append_eq (first second : Leaves) : first ++ second = first.append second := rfl

theorem ofFindings_append (first second : List Finding) :
    ofFindings (first ++ second) = ofFindings first ++ ofFindings second := by
  simp [ofFindings, append_eq, append]

theorem count_ofFindings (findings : List Finding) :
    (ofFindings findings).count = findings.length := by
  induction findings with
  | nil => rfl
  | cons finding findings ih =>
    cases finding <;>
    · simp [count, ofFindings, List.filterMap_cons, Finding.literal?, Finding.comparison?,
        Finding.numericEffect?, Finding.issue?] at ih ⊢
      omega

end Leaves

/-- What is found at a negation: the first item negated, if it is a literal. -/
def negationFinding (timing : Timing) (node : Sexpr) : Finding :=
  match node.tail.head?.bind (Literal.ofSexpr? timing) with
  | some inner => .literal inner.negate
  | none => .issue (.malformedNegation node)

/-- What is found at a leaf of a condition. -/
def conditionFinding (timing : Timing) (node : Sexpr) : Finding :=
  match node.head? with
  | none => .issue (.malformedCondition node)
  | some word =>
    if word = "not" then negationFinding timing node
    else
      match Comparison.of? timing word node.tail with
      | some comparison => .comparison comparison
      | none => .literal ⟨word, node.tail.filterMap atom?, timing⟩

/-- What is found at a leaf of an effect. -/
def effectFinding (timing : Timing) (node : Sexpr) : Finding :=
  match node.head? with
  | none => .issue (.malformedEffect node)
  | some word =>
    if word = "not" then negationFinding timing node
    else
      match Update.ofKeyword? word with
      | none => .literal ⟨word, node.tail.filterMap atom?, timing⟩
      | some update =>
        match NumericEffect.of? timing update node.tail with
        | some effect => .numericEffect effect
        | none => .issue (.malformedNumericEffect node)

/-- A negation is not a comparison. -/
theorem comparison_not (timing : Timing) (rest : List Sexpr) :
    Comparison.of? timing "not" rest = none := by
  unfold Comparison.of?
  split <;> simp

/-! ### Timings -/

theorem timing_negationFinding {timing found : Timing} {node : Sexpr}
    (h : (negationFinding timing node).timing? = some found) : found = timing := by
  unfold negationFinding at h
  split at h
  next inner hinner =>
    obtain ⟨part, -, hpart⟩ := Option.bind_eq_some_iff.mp hinner
    obtain ⟨predicate, -, rfl⟩ := Option.map_eq_some_iff.mp hpart
    exact (Option.some.inj h).symm
  · cases h

theorem timing_conditionFinding {timing found : Timing} {node : Sexpr}
    (h : (conditionFinding timing node).timing? = some found) : found = timing := by
  unfold conditionFinding at h
  split at h
  · cases h
  split_ifs at h
  · exact timing_negationFinding h
  split at h
  next comparison hcomparison =>
    unfold Comparison.of? at hcomparison
    split at hcomparison
    · split_ifs at hcomparison
      obtain rfl := Option.some.inj hcomparison
      exact (Option.some.inj h).symm
    · cases hcomparison
  · exact (Option.some.inj h).symm

theorem timing_effectFinding {timing found : Timing} {node : Sexpr}
    (h : (effectFinding timing node).timing? = some found) : found = timing := by
  unfold effectFinding at h
  split at h
  · cases h
  split_ifs at h
  · exact timing_negationFinding h
  split at h
  · exact (Option.some.inj h).symm
  split at h
  next effect heffect =>
    unfold NumericEffect.of? at heffect
    split at heffect
    · obtain ⟨target, -, rfl⟩ := Option.map_eq_some_iff.mp heffect
      exact (Option.some.inj h).symm
    · cases heffect
  · cases h

/-! ## Steps of a walk -/

/-- The leaves of several expressions, in order. -/
def joined (all : List Leaves) : Leaves :=
  all.foldr (· ++ ·) {}

/-- Whether a walk says of an expression what it says of the parts in order, with the timing of the
expression if it is a wrapper, or what is found at it if it is a leaf. -/
def Descent.IsStepOf (descent : Descent) (found : Timing → Sexpr → Finding)
    (walk : Timing → Sexpr → Leaves) : Prop :=
  ∀ timing e, walk timing e =
    match descent.parts? e with
    | none => .ofFindings [found timing e]
    | some parts => joined (parts.map (walk (timingWithin timing [e])))

/-- What is found at the places of the leaves, from left to right. -/
def Descent.findings (descent : Descent) (found : Timing → Sexpr → Finding) (initial : Timing)
    (around : List Sexpr) (e : Sexpr) : List Finding :=
  (descent.sites around e).map fun site => found (site.timing initial) site.node

theorem joined_map_ofFindings (findings : Sexpr → List Finding) (parts : List Sexpr) :
    joined (parts.map fun part => .ofFindings (findings part)) =
      .ofFindings (parts.flatMap findings) := by
  induction parts with
  | nil => rfl
  | cons part parts ih =>
    rw [List.flatMap_cons, Leaves.ofFindings_append, ← ih]
    rfl

theorem timingWithin_cons (initial : Timing) (e : Sexpr) (around : List Sexpr) :
    timingWithin initial (e :: around) = timingWithin (timingWithin initial around) [e] := by
  simp only [timingWithin, List.findSome?_cons, List.findSome?_nil]
  cases e.wrapped? <;> rfl

/-- **What a walk finds.**  By induction on the expression, with any nodes around it. -/
theorem Descent.IsStepOf.eq_ofFindings {descent : Descent} {found : Timing → Sexpr → Finding}
    {walk : Timing → Sexpr → Leaves} (h : descent.IsStepOf found walk) (initial : Timing)
    (around : List Sexpr) (e : Sexpr) :
    walk (timingWithin initial around) e =
      .ofFindings (descent.findings found initial around e) := by
  induction hsize : sizeOf e using Nat.strongRecOn generalizing e around with
  | ind size ih =>
    rw [h, Descent.findings, Descent.sites_eq]
    cases hparts : descent.parts? e with
    | none => rfl
    | some parts =>
      have hwalk : parts.map (walk (timingWithin (timingWithin initial around) [e])) =
          parts.map fun part =>
            .ofFindings (descent.findings found initial (e :: around) part) := by
        refine List.map_congr_left fun part hpart => ?_
        have hlt : sizeOf part < size :=
          hsize ▸ sizeOf_lt_of_mem_items (subset_items_of_parts? hparts hpart)
        rw [← timingWithin_cons]
        exact ih _ hlt (e :: around) part rfl
      simp only [hwalk, joined_map_ofFindings, List.map_flatMap]
      rfl

/-! ## The two walks -/

theorem Leaves.append_empty (leaves : Leaves) : leaves ++ ({} : Leaves) = leaves := by
  simp [append_eq, append]

theorem joined_singleton (leaves : Leaves) : joined [leaves] = leaves :=
  leaves.append_empty

/-- A list with a leading atom is a wrapper exactly if a walk takes it for one. -/
theorem wrapped?_list_atom_cons (word : String) (rest : List Sexpr) :
    (∃ timing second body, rest = [second, body] ∧ wrapperTiming? word rest = some timing ∧
        (Sexpr.list (.atom word :: rest)).wrapped? = some (timing, body)) ∨
      wrapperTiming? word rest = none ∧ (Sexpr.list (.atom word :: rest)).wrapped? = none := by
  unfold wrapped?
  split
  case h_4 hstart hend hall =>
    refine .inr ⟨?_, rfl⟩
    unfold wrapperTiming?
    split
    · split_ifs <;> simp_all
    · rfl
  all_goals
    rename_i body heq
    simp only [list.injEq, List.cons.injEq, atom.injEq] at heq
    obtain ⟨rfl, rfl⟩ := heq
    exact .inl ⟨_, _, body, rfl, rfl, rfl⟩

/-- To know a step of a walk, it is enough to know it at a list with a leading atom. -/
theorem Descent.isStepOf_of_list {descent : Descent} {found : Timing → Sexpr → Finding}
    {walk : Timing → Sexpr → Leaves}
    (hempty : ∀ timing, walk timing (.list []) = {})
    (hatom : ∀ timing text, walk timing (.atom text) = .ofFindings [found timing (.atom text)])
    (hnested : ∀ timing inner rest, walk timing (.list (.list inner :: rest)) =
      .ofFindings [found timing (.list (.list inner :: rest))])
    (hlist : ∀ timing word rest, walk timing (.list (.atom word :: rest)) =
      match wrapperTiming? word rest with
      | some inner => joined (rest.getLast?.toList.map (walk inner))
      | none =>
        if word ∈ descent.intoAll then joined (rest.map (walk timing))
        else if word ∈ descent.intoLast then joined (rest.getLast?.toList.map (walk timing))
        else .ofFindings [found timing (.list (.atom word :: rest))]) :
    descent.IsStepOf found walk := by
  intro timing e
  match e with
  | .atom text => exact hatom timing text
  | .list [] => exact hempty timing
  | .list (.list inner :: rest) => exact hnested timing inner rest
  | .list (.atom word :: rest) =>
    rw [hlist, parts?]
    rcases wrapped?_list_atom_cons word rest with
      ⟨inner, second, body, rfl, hwrapper, hwrapped⟩ | ⟨hwrapper, hwrapped⟩
    · have hinside : timingWithin timing [.list [.atom word, second, body]] = inner := by
        simp [timingWithin, hwrapped]
      simp only [hwrapper, hwrapped, hinside]
      rfl
    · have hinside : timingWithin timing [.list (.atom word :: rest)] = timing := by
        simp [timingWithin, hwrapped]
      simp only [hwrapper, hwrapped, hinside]
      split_ifs <;> rfl

/-- A walk that goes into one expression after the other goes into all of them. -/
theorem eq_joined_map {walk : Sexpr → Leaves} {walkAll : List Sexpr → Leaves}
    (hnil : walkAll [] = {}) (hcons : ∀ e rest, walkAll (e :: rest) = walk e ++ walkAll rest)
    (forms : List Sexpr) : walkAll forms = joined (forms.map walk) := by
  induction forms with
  | nil => exact hnil
  | cons e rest ih =>
    rw [hcons, ih]
    rfl

/-- A walk that passes over every expression with another one after it goes into the last one. -/
theorem eq_joined_getLast {walk : Sexpr → Leaves} {walkLast : List Sexpr → Leaves}
    (hnil : walkLast [] = {}) (hsingle : ∀ e, walkLast [e] = walk e)
    (hcons : ∀ e next rest, walkLast (e :: next :: rest) = walkLast (next :: rest))
    (forms : List Sexpr) : walkLast forms = joined (forms.getLast?.toList.map walk) := by
  induction forms with
  | nil => exact hnil
  | cons e rest ih =>
    cases rest with
    | nil => exact (hsingle e).trans (joined_singleton _).symm
    | cons next rest => rw [hcons, ih, List.getLast?_cons_cons]

theorem tail_list_cons (head : Sexpr) (rest : List Sexpr) :
    (Sexpr.list (head :: rest)).tail = rest := rfl

theorem negationLeaf_eq (timing : Timing) (head : Sexpr) (rest : List Sexpr) :
    negationLeaf timing (.list (head :: rest)) rest =
      .ofFindings [negationFinding timing (.list (head :: rest))] := by
  simp only [negationLeaf, negationFinding, tail_list_cons]
  cases rest.head?.bind (Literal.ofSexpr? timing) <;> rfl

theorem conditionsOfAll_eq (timing : Timing) (forms : List Sexpr) :
    conditionsOfAll timing forms = joined (forms.map (conditions timing)) :=
  eq_joined_map rfl (fun _ _ => rfl) forms

theorem conditionsOfLast_eq (timing : Timing) (forms : List Sexpr) :
    conditionsOfLast timing forms = joined (forms.getLast?.toList.map (conditions timing)) :=
  eq_joined_getLast rfl (fun _ => rfl) (fun _ _ _ => rfl) forms

theorem conditionLeaf_eq (timing : Timing) (word : String) (rest : List Sexpr) :
    (if word = "not" then negationLeaf timing (.list (.atom word :: rest)) rest
      else conditionLeaf timing word rest) =
      .ofFindings [conditionFinding timing (.list (.atom word :: rest))] := by
  simp only [negationLeaf_eq, conditionLeaf, conditionFinding, head?, tail_list_cons]
  split_ifs
  · rfl
  · cases Comparison.of? timing word rest <;> rfl

/-- A step of the walk through conditions. -/
theorem conditions_isStepOf : conditionDescent.IsStepOf conditionFinding conditions := by
  refine Descent.isStepOf_of_list (fun _ => rfl) (fun _ _ => rfl) (fun _ _ _ => rfl)
    fun timing word rest => ?_
  rw [conditions]
  simp only [conditionsOfAll_eq, conditionsOfLast_eq, List.contains_iff_mem, beq_iff_eq,
    conditionLeaf_eq]
  cases wrapperTiming? word rest with
  | some inner => rfl
  | none => exact if_congr Iff.rfl rfl (if_congr Iff.rfl rfl rfl)

theorem effectsOfAll_eq (timing : Timing) (forms : List Sexpr) :
    effectsOfAll timing forms = joined (forms.map (effects timing)) :=
  eq_joined_map rfl (fun _ _ => rfl) forms

theorem effectsOfLast_eq (timing : Timing) (forms : List Sexpr) :
    effectsOfLast timing forms = joined (forms.getLast?.toList.map (effects timing)) :=
  eq_joined_getLast rfl (fun _ => rfl) (fun _ _ _ => rfl) forms

theorem effectLeaf_eq (timing : Timing) (word : String) (rest : List Sexpr) :
    (if word = "not" then negationLeaf timing (.list (.atom word :: rest)) rest
      else effectLeaf timing word rest) =
      .ofFindings [effectFinding timing (.list (.atom word :: rest))] := by
  simp only [negationLeaf_eq, effectLeaf, effectFinding, head?, tail_list_cons]
  split_ifs
  · rfl
  · cases Update.ofKeyword? word with
    | none => rfl
    | some update =>
      simp only
      cases NumericEffect.of? timing update rest <;> rfl

/-- A step of the walk through effects. -/
theorem effects_isStepOf : effectDescent.IsStepOf effectFinding effects := by
  refine Descent.isStepOf_of_list (fun _ => rfl) (fun _ _ => rfl) (fun _ _ _ => rfl)
    fun timing word rest => ?_
  rw [effects]
  simp only [effectsOfAll_eq, effectsOfLast_eq, List.contains_iff_mem, beq_iff_eq, effectLeaf_eq]
  cases wrapperTiming? word rest with
  | some inner => rfl
  | none => exact if_congr List.mem_singleton.symm rfl (if_congr Iff.rfl rfl rfl)

/-! ## The account -/

/-- What a walk collects accounts for the leaves of an expression. -/
structure IsAccountOf (leaves : Leaves) (descent : Descent) (found : Timing → Sexpr → Finding)
    (initial : Timing) (e : Sexpr) : Prop where
  /-- Each leaf gives what is found there, in order. -/
  collected : leaves = .ofFindings (descent.findings found initial [] e)
  /-- Nothing is left out, and nothing is collected twice. -/
  count : leaves.count = (descent.sites [] e).length
  /-- What is found at a leaf has the timing of the innermost wrapper around it. -/
  timing : ∀ site ∈ descent.sites [] e, ∀ timing,
    (found (site.timing initial) site.node).timing? = some timing → timing = site.timing initial

theorem Descent.IsStepOf.isAccountOf {descent : Descent} {found : Timing → Sexpr → Finding}
    {walk : Timing → Sexpr → Leaves} (h : descent.IsStepOf found walk)
    (htiming : ∀ timing node t, (found timing node).timing? = some t → t = timing)
    (initial : Timing) (e : Sexpr) : IsAccountOf (walk initial e) descent found initial e where
  collected := h.eq_ofFindings initial [] e
  count := by
    have hwalk : walk initial e = .ofFindings (descent.findings found initial [] e) :=
      h.eq_ofFindings initial [] e
    rw [hwalk, Leaves.count_ofFindings, findings, List.length_map]
  timing _ _ _ hfound := htiming _ _ _ hfound

/-- **The leaves are all accounted for.**  Whatever the expression and the initial timing, each walk
collects one thing for every leaf, in order, with the timing of the innermost wrapper around the
leaf. -/
theorem walks_account_for_leaves (initial : Timing) (e : Sexpr) :
    IsAccountOf (conditions initial e) conditionDescent conditionFinding initial e ∧
      IsAccountOf (effects initial e) effectDescent effectFinding initial e :=
  ⟨conditions_isStepOf.isAccountOf (fun _ _ _ => timing_conditionFinding) initial e,
    effects_isStepOf.isAccountOf (fun _ _ _ => timing_effectFinding) initial e⟩

end PlanPlayback
