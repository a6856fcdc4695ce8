import PlanPlayback.Numeric.Expression
import PlanPlayback.Numeric.Fluent
import PlanPlayback.Numeric.Update
import PlanPlayback.Pddl.Problem
import PlanPlayback.Settings

/-!
# The fluents of a running plan

While a plan runs, its fluents live in a `Store`, in the order of their keys.  A ground `Effect`
changes one of them by an amount that may depend on others.

* `Store.value?` is the view of a store: the value under a key;
* `Store.insert` and `Store.provide` add fluents, `Store.reset` restores the initial values;
* `Store.write` is the only way to change a value, and keeps it in its range;
* `Store.applyTogether` applies the effects of one event at once: all amounts are read before any
  fluent changes.  An effect without an amount, or on a fluent that is not there, changes nothing.
-/

namespace PlanPlayback

/-- A change of a fluent, whose amount may depend on other fluents. -/
structure Effect where
  fluent : String
  update : Update
  amount : Expression
  deriving Repr

/-- The fluents of a running plan, sorted by their names. -/
structure Store where
  fluents : List Fluent := []
  deriving Repr, Inhabited

/-- The fluent of a key.  Batteries are confined to the range that the settings give, and the first
argument of the key, if there is one, owns the fluent. -/
def Fluent.ofKey (settings : FluentSettings) (key : String) (initial : Float) : Fluent :=
  let (name, args) := keyParts key
  let kind := FluentKind.ofName name
  let plain := { Fluent.unbounded key initial with kind, unit := kind.unit?, owner := args.head? }
  if kind = .battery then plain.confine settings.batteryLeast settings.batteryGreatest else plain

namespace Store

/-! ## The view -/

/-- The fluent under a key. -/
def get? (s : Store) (key : String) : Option Fluent :=
  s.fluents.find? fun f => f.name == key

/-- The value under a key. -/
def value? (s : Store) (key : String) : Option Float :=
  (s.get? key).map Fluent.value

/-- The initial value under a key. -/
def initial? (s : Store) (key : String) : Option Float :=
  (s.get? key).map Fluent.initial

/-- Whether there is a fluent under a key. -/
def has (s : Store) (key : String) : Bool :=
  (s.get? key).isSome

/-- The keys of a store, in order. -/
def keys (s : Store) : List String :=
  s.fluents.map Fluent.name

/-- All values with their keys, in the order of the keys. -/
def values (s : Store) : List (String × Float) :=
  s.fluents.map fun f => (f.name, f.value)

/-! ## Adding fluents -/

/-- Fluents in the order of their names, with one more that takes the place of one of its name. -/
def insertInto (f : Fluent) : List Fluent → List Fluent
  | [] => [f]
  | g :: rest =>
      if f.name = g.name then f :: rest
      else if f.name < g.name then f :: g :: rest
      else g :: insertInto f rest

/-- Adds a fluent under its name, or replaces the one that is there. -/
def insert (s : Store) (f : Fluent) : Store :=
  ⟨insertInto f s.fluents⟩

/-- The fluent that is made when a key is missing: a battery starts at the level that the settings
give, anything else at zero. -/
def missing (settings : FluentSettings) (key : String) : Fluent :=
  let initial := if FluentKind.ofName (keyParts key).1 = .battery then settings.batteryInitial
    else 0.0
  Fluent.ofKey settings key initial

/-- Makes the fluent under a key if it is not there. -/
def provide (s : Store) (settings : FluentSettings) (key : String) : Store :=
  if s.has key then s else s.insert (missing settings key)

/-- The fluents of the initial state of a problem. -/
def ofProblem (settings : FluentSettings) (problem : Problem) : Store :=
  problem.numericInit.foldl
    (fun s init => s.insert (Fluent.ofKey settings init.key init.value)) {}

/-! ## Changing values -/

/-- Changes the fluent under a key. -/
def modify (s : Store) (key : String) (change : Fluent → Fluent) : Store :=
  ⟨s.fluents.map fun f => if f.name == key then change f else f⟩

/-- Restores all initial values. -/
def reset (s : Store) : Store :=
  ⟨s.fluents.map Fluent.reset⟩

/-- The number that an update asks for, before it is moved into the range. -/
def requested (f : Fluent) (update : Update) (amount : Float) : Float :=
  update.apply f.value amount

/-- Updates the fluent under a key, if it is there. -/
def write (s : Store) (key : String) (update : Update) (amount : Float) : Store :=
  s.modify key fun f => f.set (requested f update amount)

end Store

/-- The amount of an effect on the values of a store. -/
def Effect.amountIn? (effect : Effect) (s : Store) : Option Float :=
  effect.amount.evaluate s.value?

/-- A write that was moved into the range of its fluent. -/
structure Clamping where
  fluent : String
  requested : Float
  value : Float
  deriving Repr

/-- A store after effects: how many of them had something to change, and which writes were moved
into a range. -/
structure Applied where
  store : Store
  count : Nat
  clampings : List Clamping
  deriving Repr

namespace Store

/-- Applies a single effect: the store and the new value of the fluent. -/
def apply (s : Store) (effect : Effect) : Store × Option Float :=
  match effect.amountIn? s with
  | none => (s, none)
  | some amount =>
      let next := s.write effect.fluent effect.update amount
      (next, next.value? effect.fluent)

/-- The trace of a write: the clamping, if the value was moved into the range. -/
def clamping? (s : Store) (key : String) (update : Update) (amount : Float) : Option Clamping :=
  (s.get? key).bind fun f =>
    let wanted := requested f update amount
    if f.clamps wanted then some ⟨key, wanted, f.clamp wanted⟩ else none

/-- Takes one effect with its amount into account. -/
def addEffect (done : Applied) (effect : Effect) (amount : Option Float) : Applied :=
  match amount with
  | none => done
  | some amount =>
      if done.store.has effect.fluent then
        { store := done.store.write effect.fluent effect.update amount
          count := done.count + 1
          clampings := done.clampings ++
            (done.store.clamping? effect.fluent effect.update amount).toList }
      else done

/-- Applies effects at once: every amount is read from the store as it was before. -/
def applyTogether (s : Store) (effects : List Effect) : Applied :=
  effects.foldl (fun done effect => addEffect done effect (effect.amountIn? s)) ⟨s, 0, []⟩

end Store

end PlanPlayback
