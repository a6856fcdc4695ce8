import PlanPlayback.Pddl.Sections
import PlanPlayback.Proofs.Playback.PlanPosition

/-!
# What grounding leaves unbound

The name of a variable holds a question mark.  Grounding a declared effect puts the arguments of the
action in the place of the parameters, and the duration in the place of `?duration`.  Effects under
a quantifier are declared like all others, and nothing is put in the place of the variable that the
quantifier binds.  So it depends on the declaration whether a ground effect still mentions a
variable: exactly those are left that are neither parameters of the operator nor the duration.

* `Bindings.Binds` says what arguments do to names;
* `Bindings.Binds.variablesRead_ground`: the variables of a ground expression are the unbound ones
  of the declared expression;
* `NumericEffect.isGround_ground_iff` says the same about an effect as a whole;
* `Action.of_mem_resolve` goes through the sources of an effect;
* `Plan.variables_left_by_grounding` goes through all effects and fluents of a plan.
-/

namespace PlanPlayback

/-! ## Names with a question mark -/

/-- Whether a text holds a question mark, as the name of a variable does. -/
def mentionsVariable (text : String) : Bool :=
  text.toList.contains '?'

theorem mentionsVariable_append (first second : String) :
    mentionsVariable (first ++ second) = (mentionsVariable first || mentionsVariable second) := by
  rw [Bool.eq_iff_iff]
  simp [mentionsVariable]

theorem mentionsVariable_intercalate (texts : List String) :
    mentionsVariable (",".intercalate texts) = texts.any mentionsVariable := by
  have hcomma : mentionsVariable "," = false := by decide
  induction texts with
  | nil => rfl
  | cons first rest ih =>
    cases rest with
    | nil => simp
    | cons second rest =>
      rw [String.intercalate_cons_cons, mentionsVariable_append, mentionsVariable_append, hcomma,
        Bool.or_false, ih, List.any_cons, List.any_cons, List.any_cons]

/-- A key mentions a variable exactly if the name or an argument does. -/
theorem mentionsVariable_groundKey (name : String) (args : List String) :
    mentionsVariable (groundKey name args) = (name :: args).any mentionsVariable := by
  have hopen : mentionsVariable "(" = false := by decide
  have hclose : mentionsVariable ")" = false := by decide
  cases args with
  | nil => simp [groundKey]
  | cons first rest =>
    simp [groundKey, mentionsVariable_append, mentionsVariable_intercalate, hopen, hclose]

namespace Expression

mutual

/-- The variables in an expression, from left to right. -/
def variablesRead : Expression → List String
  | .number _ => []
  | .fluent name args => (name :: args).filter mentionsVariable
  | .variable name => [name].filter mentionsVariable
  | .operation _ operands => variablesReadByAll operands

/-- The variables in several expressions, from left to right. -/
def variablesReadByAll : List Expression → List String
  | [] => []
  | operand :: rest => operand.variablesRead ++ variablesReadByAll rest

end

mutual

/-- The variables in an expression that nothing is put in the place of: arguments of functions and
bare names that are no parameters, bare names that do not stand for the duration, and variables in
the place of a function. -/
def unbound (parameters : List String) : Expression → List String
  | .number _ => []
  | .fluent name args => (name :: args.filter fun arg => arg ∉ parameters).filter mentionsVariable
  | .variable name =>
      if name ∈ parameters ∨ name = "?duration" ∨ name = "#t" then []
      else [name].filter mentionsVariable
  | .operation _ operands => unboundInAll parameters operands

/-- The variables in several expressions that nothing is put in the place of. -/
def unboundInAll (parameters : List String) : List Expression → List String
  | [] => []
  | operand :: rest => operand.unbound parameters ++ unboundInAll parameters rest

end

end Expression

/-! ## Arguments in the place of parameters -/

/-- What arguments do to names: of a parameter no variable is left, and other names stay. -/
structure Bindings.Binds (bindings : Bindings) (parameters : List String) : Prop where
  bound : ∀ name ∈ parameters, mentionsVariable (bindings.resolve name) = false
  other : ∀ name ∉ parameters, bindings.resolve name = name

theorem Bindings.binds_zip {parameters args : List String}
    (hlength : parameters.length = args.length)
    (hargs : ∀ arg ∈ args, mentionsVariable arg = false) :
    Binds (parameters.zip args) parameters where
  bound := by
    intro name hname
    have hsome : ((parameters.zip args).reverse.lookup name).isSome = true := by
      rw [← List.map_fst_zip (Nat.le_of_eq hlength)] at hname
      obtain ⟨pair, hpair, hfirst⟩ := List.mem_map.mp hname
      exact List.lookup_isSome_iff.mpr
        ⟨pair, List.mem_reverse.mpr hpair, beq_iff_eq.mpr hfirst.symm⟩
    obtain ⟨arg, hlookup⟩ := Option.isSome_iff_exists.mp hsome
    obtain ⟨front, behind, hsplit, -⟩ := List.lookup_eq_some_iff.mp hlookup
    have hpair : (name, arg) ∈ (parameters.zip args).reverse := by simp [hsplit]
    rw [resolve, hlookup, Option.getD_some]
    exact hargs arg (List.of_mem_zip (List.mem_reverse.mp hpair)).2
  other := by
    intro name hname
    have hnone : (parameters.zip args).reverse.lookup name = none := by
      rw [List.lookup_eq_none_iff]
      intro pair hpair
      have hfirst := (List.of_mem_zip (List.mem_reverse.mp hpair)).1
      exact bne_iff_ne.mpr fun heq => hname (heq ▸ hfirst)
    rw [resolve, hnone, Option.getD_none]

namespace Bindings.Binds

variable {bindings : Bindings} {parameters : List String}

/-- Of several arguments, the variables that are no parameters stay. -/
theorem filter_map_resolve (h : bindings.Binds parameters) (args : List String) :
    (args.map bindings.resolve).filter mentionsVariable =
      (args.filter fun arg => arg ∉ parameters).filter mentionsVariable := by
  induction args with
  | nil => rfl
  | cons arg rest ih =>
    by_cases harg : arg ∈ parameters
    · simp [harg, h.bound arg harg, ih]
    · simp [harg, h.other arg harg, List.filter_cons, ih]

theorem variablesRead_withDuration_variable (duration : Float) (name : String) :
    ((Expression.variable name).withDuration duration).variablesRead =
      if name = "?duration" ∨ name = "#t" then [] else [name].filter mentionsVariable := by
  simp only [Expression.withDuration, Bool.or_eq_true, beq_iff_eq]
  split_ifs <;> rfl

mutual

/-- The variables of a ground expression are the unbound ones of the declared expression. -/
theorem variablesRead_ground (h : bindings.Binds parameters) (duration : Float) :
    ∀ e : Expression,
      ((e.substitute bindings).withDuration duration).variablesRead = e.unbound parameters
  | .number _ => rfl
  | .fluent name args => by
    have hargs := h.filter_map_resolve args
    simp only [Expression.substitute, Expression.withDuration, Expression.variablesRead,
      Expression.unbound, List.filter_cons, hargs]
  | .variable name => by
    rw [Expression.substitute, variablesRead_withDuration_variable, Expression.unbound]
    by_cases hname : name ∈ parameters
    · simp [hname, h.bound name hname]
    · simp [hname, h.other name hname]
  | .operation operator operands => variablesReadByAll_ground h duration operands

/-- The variables of several ground expressions are the unbound ones of the declared expressions. -/
theorem variablesReadByAll_ground (h : bindings.Binds parameters) (duration : Float) :
    ∀ operands : List Expression,
      Expression.variablesReadByAll
          (withDurationAll duration (Expression.substituteAll bindings operands)) =
        Expression.unboundInAll parameters operands
  | [] => rfl
  | operand :: rest => by
    rw [Expression.substituteAll, withDurationAll, Expression.variablesReadByAll,
      variablesRead_ground h duration operand, variablesReadByAll_ground h duration rest,
      Expression.unboundInAll]

end

end Bindings.Binds

/-- The names of the parameters of an operator. -/
def Operator.parameterNames (op : Operator) : List String :=
  op.parameters.map TypedName.name

/-- An action with the right number of arguments, none of which mentions a variable, binds the
parameters of its operator. -/
theorem Operator.binds_bindings {op : Operator} {action : Action}
    (hlength : op.parameters.length = action.args.length)
    (hargs : ∀ arg ∈ action.args, mentionsVariable arg = false) :
    (op.bindings action).Binds op.parameterNames :=
  Bindings.binds_zip (by rw [List.length_map, hlength]) hargs

/-! ## Ground effects -/

/-- Whether an effect mentions no variable, neither in its key nor in its amount. -/
def Effect.IsGround (e : Effect) : Prop :=
  mentionsVariable e.fluent = false ∧ e.amount.variablesRead = []

instance (e : Effect) : Decidable e.IsGround :=
  inferInstanceAs (Decidable (_ ∧ _))

namespace NumericEffect

/-- The fluent that a declared effect is on. -/
def target (declared : NumericEffect) : Expression :=
  .fluent declared.function declared.args

/-- The variables in a declared effect that nothing is put in the place of. -/
def unbound (parameters : List String) (declared : NumericEffect) : List String :=
  declared.target.unbound parameters ++ declared.amount.unbound parameters

/-- Whether an effect is on a fluent of the declared function, and mentions exactly the unbound
variables of the declared effect in its key and in its amount. -/
structure IsLeftAs (declared : NumericEffect) (parameters : List String) (e : Effect) : Prop where
  key : ∃ args, e.fluent = groundKey declared.function args ∧
    (Expression.fluent declared.function args).variablesRead = declared.target.unbound parameters
  amount : e.amount.variablesRead = declared.amount.unbound parameters

variable {bindings : Bindings} {parameters : List String} {declared : NumericEffect} {e : Effect}

theorem isLeftAs_ground (h : bindings.Binds parameters) (declared : NumericEffect)
    (duration : Float) : declared.IsLeftAs parameters (declared.ground bindings duration) where
  key := ⟨declared.args.map bindings.resolve, rfl, h.variablesRead_ground duration declared.target⟩
  amount := h.variablesRead_ground duration declared.amount

theorem IsLeftAs.isGround_iff (h : declared.IsLeftAs parameters e) :
    e.IsGround ↔ declared.unbound parameters = [] := by
  obtain ⟨args, hfluent, hread⟩ := h.key
  rw [Effect.IsGround, unbound, List.append_eq_nil_iff, h.amount, ← hread, hfluent,
    mentionsVariable_groundKey, Expression.variablesRead, List.filter_eq_nil_iff, List.any_eq_false]

end NumericEffect

theorem Effect.isGround_constant {fluent : String} (h : mentionsVariable fluent = false)
    (update : Update) (amount : Float) : (Effect.constant fluent update amount).IsGround :=
  ⟨h, rfl⟩

namespace Action

variable {action : Action} {settings : FluentSettings} {domain : Option Domain} {s : Store}
  {e : Effect}

/-- An effect of an action is printed, declared, or a fallback. -/
theorem of_mem_resolve (h : e ∈ action.resolve settings domain s) :
    e ∈ action.printedEffects ∨ e ∈ action.grounded domain ∨
      fallbackEffect? settings s action = some e := by
  rw [resolve_eq] at h
  split_ifs at h
  · exact .inr (.inr (Option.mem_toList.mp h))
  · rcases List.mem_append.mp h with hprinted | hdeclared
    · exact .inl hprinted
    · have hmem := mem_of_mem_firstOnEach hdeclared
      rw [declared_eq_filter] at hmem
      exact .inr (.inl (List.mem_filter.mp hmem).1)

theorem mem_grounded {d : Domain} (h : e ∈ action.grounded (some d)) :
    ∃ op declared, d.operator? action.name = some op ∧ declared ∈ op.numericEffects ∧
      e = declared.ground (op.bindings action) action.duration := by
  rw [grounded, Option.bind_some] at h
  cases hop : d.operator? action.name with
  | none => simp [hop] at h
  | some op =>
    rw [hop] at h
    obtain ⟨declared, hdeclared, heq⟩ := List.mem_map.mp h
    exact ⟨op, declared, rfl, hdeclared, heq.symm⟩

/-- A fallback mentions a variable exactly if its rule does. -/
theorem isGround_fallback_iff (hargs : ∀ arg ∈ action.args, mentionsVariable arg = false)
    (h : fallbackEffect? settings s action = some e) :
    ∃ rule, settings.ruleFor? action.name = some rule ∧
      (e.IsGround ↔ mentionsVariable rule.fluent = false) := by
  obtain ⟨rule, hrule, rfl⟩ := Option.map_eq_some_iff.mp h
  refine ⟨rule, hrule, ?_⟩
  simp only [Effect.IsGround, Effect.constant, Expression.variablesRead, and_true]
  split
  · rename_i owner howner
    -- the owner is an argument
    have hmem : owner ∈ action.args := by
      rcases Option.or_eq_some_iff.mp howner with hfound | ⟨-, hhead⟩
      · exact List.mem_of_find?_eq_some hfound
      · exact List.mem_of_mem_head? hhead
    simp [mentionsVariable_groundKey, hargs owner hmem]
  · exact Iff.rfl

end Action

/-! ## All effects of a plan -/

namespace Plan

variable {plan : Plan} {context : Context} {settings : FluentSettings}

/-- The fluents of a plan are those of the problem and those that an effect is on. -/
theorem mem_keys_resolve (hnumeric : context.isClassical plan = false) {key : String}
    (h : key ∈ (plan.resolve context settings).store.keys) :
    (∃ problem init, context.problem = some problem ∧ init ∈ problem.numericInit ∧ init.key = key) ∨
      ∃ effects ∈ (plan.resolve context settings).perAction, ∃ e ∈ effects, e.fluent = key := by
  rw [resolve_of_not_isClassical hnumeric] at h ⊢
  rcases Resolution.mem_keys_ofActions settings context.domain h with hinitial | heffect
  · left
    cases hproblem : context.problem with
    | none => simp [Context.initialStore, hproblem, Store.keys] at hinitial
    | some problem =>
      rw [Context.initialStore, hproblem] at hinitial
      obtain ⟨init, hinit, hkey⟩ := Store.mem_keys_ofProblem hinitial
      exact ⟨problem, init, rfl, hinit, hkey⟩
  · exact .inr heffect

/-- **Grounding leaves the variables that are neither parameters nor the duration.**  The plan is
not classical, every action has as many arguments as its operator has parameters, and no argument
and no fluent of a printed effect mentions a variable.  A declared effect keeps exactly its unbound
variables, and so it is ground if it has none.  An effect of the plan that is not ground is one that
has some, or a fallback whose rule mentions a variable.  A fluent whose key mentions a variable is
one of the problem, or such an effect is on it. -/
theorem variables_left_by_grounding (plan : Plan) (context : Context) (settings : FluentSettings)
    {domain : Domain} (hdomain : context.domain = some domain)
    (hnumeric : context.isClassical plan = false)
    (hlength : ∀ action ∈ plan.actions, ∀ op, domain.operator? action.name = some op →
      op.parameters.length = action.args.length)
    (hplain : ∀ action ∈ plan.actions, (∀ arg ∈ action.args, mentionsVariable arg = false) ∧
      ∀ printed ∈ action.effects, mentionsVariable printed.fluent = false) :
    let resolution := plan.resolve context settings
    (∀ action ∈ plan.actions, ∀ op, domain.operator? action.name = some op →
      ∀ declared ∈ op.numericEffects,
        let e := declared.ground (op.bindings action) action.duration
        declared.IsLeftAs op.parameterNames e ∧
          (e.IsGround ↔ declared.unbound op.parameterNames = [])) ∧
    (∀ (position : Nat) (action : Action), plan.actions[position]? = some action →
      ∃ effects, resolution.perAction[position]? = some effects ∧
        ∀ e ∈ effects, ¬ e.IsGround →
          (∃ op declared, domain.operator? action.name = some op ∧
            declared ∈ op.numericEffects ∧
            e = declared.ground (op.bindings action) action.duration ∧
            declared.unbound op.parameterNames ≠ []) ∨
          ∃ rule, settings.ruleFor? action.name = some rule ∧
            mentionsVariable rule.fluent = true) ∧
    ∀ key ∈ resolution.store.keys, mentionsVariable key = true →
      (∃ problem init, context.problem = some problem ∧ init ∈ problem.numericInit ∧
        init.key = key) ∨
      ∃ effects ∈ resolution.perAction, ∃ e ∈ effects, ¬ e.IsGround ∧ e.fluent = key := by
  intro resolution
  have hleft : ∀ action ∈ plan.actions, ∀ op, domain.operator? action.name = some op →
      ∀ declared : NumericEffect, declared.IsLeftAs op.parameterNames
        (declared.ground (op.bindings action) action.duration) := by
    intro action haction op hop declared
    have hbinds := Operator.binds_bindings (hlength action haction op hop) (hplain action haction).1
    exact NumericEffect.isLeftAs_ground hbinds declared action.duration
  refine ⟨fun action haction op hop declared _ => ?_, ?_, ?_⟩
  · have hground := hleft action haction op hop declared
    exact ⟨hground, hground.isGround_iff⟩
  · intro position action haction
    have hmem := List.mem_of_getElem? haction
    refine ⟨_, by rw [perAction_resolve hnumeric, haction, hdomain]; rfl, ?_⟩
    intro e he hopen
    rcases Action.of_mem_resolve he with hprinted | hgrounded | hfallback
    · obtain ⟨printed, hin, rfl⟩ := List.mem_map.mp hprinted
      exact absurd (Effect.isGround_constant ((hplain action hmem).2 printed hin) _ _) hopen
    · obtain ⟨op, declared, hop, hin, rfl⟩ := Action.mem_grounded hgrounded
      refine .inl ⟨op, declared, hop, hin, rfl, fun hnone => hopen ?_⟩
      exact (hleft action hmem op hop declared).isGround_iff.mpr hnone
    · obtain ⟨rule, hrule, hiff⟩ := Action.isGround_fallback_iff (hplain action hmem).1 hfallback
      have hvariable : ¬ mentionsVariable rule.fluent = false := fun hnone => hopen (hiff.mpr hnone)
      exact .inr ⟨rule, hrule, by simpa using hvariable⟩
  · intro key hkey hvariable
    refine (mem_keys_resolve hnumeric hkey).imp_right ?_
    rintro ⟨effects, heffects, e, he, rfl⟩
    exact ⟨effects, heffects, e, he, fun hground => by simp [hground.1] at hvariable, rfl⟩

/-- A robot shakes a box, spends energy as long as this takes, and makes every ball `?b` spin. -/
def shaker : Domain :=
  { actions :=
      [{ name := "shake", kind := .action, parameters := [⟨"?r", rootType⟩],
         numericEffects :=
           [⟨"energy", ["?r"], .decrease,
              .operation "*" [.variable "?duration", .fluent "rate" ["?r"]], .instant⟩,
            ⟨"spin", ["?b"], .increase, .number 1.0, .instant⟩] }] }

/-- The energy of the robot, and how fast it is spent. -/
def shakerProblem : Problem :=
  { numericInit := [⟨"energy", ["r1"], 10.0⟩, ⟨"rate", ["r1"], 2.0⟩] }

/-- The box is shaken once. -/
def shaking : Plan :=
  { dialect := .numeric, actions := [Action.make "shake" ["r1"] 0.0 3.0]
    totalDuration := 3.0, cost := 1.0, statistics := {} }

theorem plain_shaking : ∀ action ∈ shaking.actions,
    (∀ arg ∈ action.args, mentionsVariable arg = false) ∧
      ∀ printed ∈ action.effects, mentionsVariable printed.fluent = false := by
  decide +kernel

/-- The energy is that of the robot, but there is also a fluent for a ball without a name. -/
theorem shaking_leaves_a_ball :
    let context : Context := { domain := some shaker, problem := some shakerProblem }
    context.isClassical shaking = false ∧
      (∀ action ∈ shaking.actions, ∀ op, shaker.operator? action.name = some op →
        op.parameters.length = action.args.length) ∧
      (∀ action ∈ shaking.actions, (∀ arg ∈ action.args, mentionsVariable arg = false) ∧
        ∀ printed ∈ action.effects, mentionsVariable printed.fluent = false) ∧
      (shaking.resolve context {}).store.keys = ["energy(r1)", "rate(r1)", "spin(?b)"] ∧
      ∃ effects ∈ (shaking.resolve context {}).perAction,
        ∃ e ∈ effects, ¬ e.IsGround ∧ e.fluent = "spin(?b)" := by
  intro context
  have hlength : ∀ action ∈ shaking.actions, ∀ op, shaker.operator? action.name = some op →
      op.parameters.length = action.args.length := by
    intro action haction op hop
    cases List.mem_singleton.mp haction
    cases hop
    rfl
  obtain ⟨-, -, hfluents⟩ :=
    variables_left_by_grounding shaking context {} rfl rfl hlength plain_shaking
  have hkeys : (shaking.resolve context {}).store.keys =
      ["energy(r1)", "rate(r1)", "spin(?b)"] := by decide +kernel
  refine ⟨rfl, hlength, plain_shaking, hkeys, ?_⟩
  rcases hfluents "spin(?b)" (by simp [hkeys]) (by decide) with
    ⟨problem, init, hproblem, hinit, hname⟩ | heffect
  · cases hproblem
    have hother : ∀ init ∈ shakerProblem.numericInit, init.key ≠ "spin(?b)" := by decide +kernel
    exact absurd hname (hother init hinit)
  · exact heffect

/-- Grounding does not leave every effect ground: the one on every ball is not. -/
theorem not_all_ground :
    ¬∀ (text : String) (parsed : Parsed Domain) (problem : Problem) (plan : Plan)
      (settings : FluentSettings), Domain.parse? text = some parsed →
        let context : Context := { domain := some parsed.value, problem := some problem }
        context.isClassical plan = false →
        (∀ action ∈ plan.actions, ∀ op, parsed.value.operator? action.name = some op →
          op.parameters.length = action.args.length) →
        (∀ action ∈ plan.actions, (∀ arg ∈ action.args, mentionsVariable arg = false) ∧
          ∀ printed ∈ action.effects, mentionsVariable printed.fluent = false) →
        ∀ effects ∈ (plan.resolve context settings).perAction, ∀ e ∈ effects, e.IsGround := by
  intro h
  let text := "(define (domain shaker) (:action shake :parameters (?r)
    :effect (forall (?b) (increase (spin ?b) 1))))"
  let context (d : Domain) : Context := { domain := some d, problem := some shakerProblem }
  -- the text is read once, for the number of parameters and for the effects
  have hread : (Domain.parse? text).any (fun parsed =>
      (parsed.value.operators.all fun op => op.parameters.length == 1) &&
        !(shaking.resolve (context parsed.value) {}).perAction.all fun effects =>
          effects.all fun e => decide e.IsGround) = true := by
    decide +kernel
  obtain ⟨parsed, hparsed, hfacts⟩ := (Option.any_eq_true _ _).mp hread
  obtain ⟨hparameters, hopen⟩ := Bool.and_eq_true_iff.mp hfacts
  have hlength : ∀ action ∈ shaking.actions, ∀ op,
      parsed.value.operator? action.name = some op → op.parameters.length = action.args.length := by
    intro action haction op hop
    cases List.mem_singleton.mp haction
    exact beq_iff_eq.mp (List.all_eq_true.mp hparameters op (List.mem_of_find?_eq_some hop))
  have hground := h text parsed shakerProblem shaking {} hparsed rfl hlength plain_shaking
  simp only [Bool.not_eq_eq_eq_not, Bool.not_true, List.all_eq_false, List.all_eq_true,
    decide_eq_true_eq, not_forall] at hopen
  obtain ⟨effects, heffects, e, he, hnot⟩ := hopen
  exact hnot (hground effects heffects e he)

end Plan

end PlanPlayback
