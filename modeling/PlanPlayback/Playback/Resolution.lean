import PlanPlayback.Pddl.Domain
import PlanPlayback.Plan.Basic
import PlanPlayback.Playback.Store

/-!
# The numeric effects of a plan

Before a plan is played, every action is given its numeric effects, from the most specific source to
the least specific one:

1. the effects that the planner printed next to the action;
2. the effects that the operator of the domain declares, with the arguments of the action in the
   place of the parameters, except on fluents that already have an effect;
3. a fallback rule of the settings, if there is nothing else.

The amount of an effect stays an expression, which is evaluated when the effect is applied.  Only
the parameters and the duration of the action are filled in beforehand.  A classical plan has no
numeric effects and an empty store.

## Main definitions

* `Context` is what is known about the plan besides the plan itself;
* `declaredEffects` and `fallbackEffect?` are the second and the third source;
* `resolve` gives every action its effects and makes the store that they need.
-/

namespace PlanPlayback

/-- What is known about a plan: its domain, its problem and the kind of the domain. -/
structure Context where
  domain : Option Domain := none
  problem : Option Problem := none
  kind : DomainKind := .unknown
  deriving Repr, Inhabited

/-- Whether a plan is classical.  The kind of the domain decides, or the dialect of the plan if the
kind is unknown. -/
def Context.isClassical (context : Context) (plan : Plan) : Bool :=
  match context.kind with
  | .of dialect => dialect == .classical
  | .unknown => plan.dialect == .classical

/-- An effect by a fixed amount. -/
def Effect.constant (fluent : String) (update : Update) (amount : Float) : Effect :=
  ⟨fluent, update, .number amount⟩

/-- The effects that the planner printed next to an action. -/
def Action.printedEffects (action : Action) : List Effect :=
  action.effects.map fun effect => .constant effect.fluent effect.update effect.amount

mutual

/-- An expression with a number in the place of the duration and of the continuous time. -/
def Expression.withDuration (duration : Float) : Expression → Expression
  | .variable name =>
      if name == "?duration" || name == "#t" then .number duration else .variable name
  | .operation operator operands => .operation operator (withDurationAll duration operands)
  | .number value => .number value
  | .fluent name args => .fluent name args

/-- Several expressions with a number in the place of the duration. -/
def withDurationAll (duration : Float) : List Expression → List Expression
  | [] => []
  | operand :: rest => operand.withDuration duration :: withDurationAll duration rest

end

/-- The arguments of an action in the place of the parameters of its operator. -/
def Operator.bindings (op : Operator) (action : Action) : Bindings :=
  (op.parameters.map TypedName.name).zip action.args

/-- A declared effect for an action. -/
def NumericEffect.ground (effect : NumericEffect) (bindings : Bindings) (duration : Float) :
    Effect :=
  { fluent := groundKey effect.function (effect.args.map bindings.resolve)
    update := effect.update
    amount := (effect.amount.substitute bindings).withDuration duration }

/-- The declared effects of an action whose amounts can be evaluated on a store. -/
def declaredEffects (domain : Domain) (s : Store) (action : Action) : List Effect :=
  match domain.operator? action.name with
  | none => []
  | some op =>
      let ground := op.numericEffects.map fun effect =>
        effect.ground (op.bindings action) action.duration
      ground.filter fun effect => (effect.amountIn? s).isSome

/-- The fallback effect of an action.  It changes the fluent of the first argument that owns one, or
else of the first argument. -/
def fallbackEffect? (settings : FluentSettings) (s : Store) (action : Action) : Option Effect :=
  (settings.ruleFor? action.name).map fun rule =>
    let owner := (action.args.find? fun arg => s.has (groundKey rule.fluent [arg])).or
      action.args.head?
    let fluent := match owner with
      | some owner => groundKey rule.fluent [owner]
      | none => rule.fluent
    .constant fluent (if rule.delta < 0.0 then .decrease else .increase) rule.delta.abs

/-- Effects with one more, unless there is one on the same fluent. -/
def addUnlessPresent (effects : List Effect) (effect : Effect) : List Effect :=
  if effects.any fun other => other.fluent == effect.fluent then effects else effects ++ [effect]

/-- The effects of an action. -/
def Action.resolve (action : Action) (settings : FluentSettings) (domain : Option Domain)
    (s : Store) : List Effect :=
  let declared := match domain with
    | some domain => declaredEffects domain s action
    | none => []
  let effects := declared.foldl addUnlessPresent action.printedEffects
  if effects.isEmpty then (fallbackEffect? settings s action).toList else effects

/-- The effects of all actions of a plan, in order, and the store that they need. -/
structure Resolution where
  store : Store
  perAction : List (List Effect)
  deriving Repr

namespace Resolution

/-- The effects of the action at a position. -/
def effectsAt (r : Resolution) (position : Nat) : List Effect :=
  (r.perAction[position]?).getD []

/-- Resolves the effects of actions in turn.  The store is given every fluent that an action changes
before the next action is looked at. -/
def ofActions (settings : FluentSettings) (domain : Option Domain) (s : Store) :
    List Action → Resolution
  | [] => ⟨s, []⟩
  | action :: rest =>
      let effects := action.resolve settings domain s
      let next := effects.foldl (fun s effect => s.provide settings effect.fluent) s
      let others := ofActions settings domain next rest
      ⟨others.store, effects :: others.perAction⟩

end Resolution

/-- The effects of a plan. -/
def Plan.resolve (plan : Plan) (context : Context) (settings : FluentSettings) : Resolution :=
  if context.isClassical plan then ⟨{}, plan.actions.map fun _ => []⟩
  else
    let start := match context.problem with
      | some problem => Store.ofProblem settings problem
      | none => {}
    Resolution.ofActions settings context.domain start plan.actions

end PlanPlayback
