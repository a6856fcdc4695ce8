import PlanPlayback.Proofs.Playback.Clamping
import PlanPlayback.Proofs.Playback.Rewind

/-!
# Fluents stay in their range

A battery is confined to the range that the settings give, and no other fluent has a range.  A
fluent never leaves its range: every write moves the number that it is given into the range, whether
that number is finite, infinite or no number at all.

## Strategy

A fluent comes into being in one way, `Fluent.ofKey`, and changes in two, `Fluent.set` and
`Fluent.reset`.  So a condition on fluents that these three keep holds of all fluents of a player,
whatever is done with it (`Player.every_obeyAll`), and it is enough to look at them.  What they do
to a number is decided by `Fluent.clamp`, which prefers the ends of the range to what is no number
(`Fluent.admits_clamp`).
-/

namespace PlanPlayback

open Binary64

/-! ## A single fluent -/

/-- The name of the function in a key: the text in front of the first opening parenthesis. -/
def functionName (key : String) : String :=
  String.ofList (key.toList.takeWhile (· != '('))

theorem keyParts_fst (key : String) : (keyParts key).1 = functionName key := by
  unfold keyParts functionName
  cases hrest : key.toList.dropWhile (· != '(') with
  | nil =>
    have hall : key.toList.takeWhile (· != '(') = key.toList := by
      have hsplit := List.takeWhile_append_dropWhile (p := (· != '(')) (l := key.toList)
      rwa [hrest, List.append_nil] at hsplit
    simp only [hrest, hall, String.ofList_toList]
  | cons c rest => simp only [hrest]

namespace Fluent

theorem admits_of_unbounded {f : Fluent} (hleast : f.least = none) (hgreatest : f.greatest = none)
    (x : Float) : f.Admits x := by
  simp [Admits, hleast, hgreatest]

/-- A fluent whose value and initial value lie in its range, where batteries have the range that the
settings give and other fluents have none. -/
structure IsConfined (settings : FluentSettings) (f : Fluent) : Prop where
  value : f.Admits f.value
  initial : f.Admits f.initial
  battery : FluentKind.ofName (functionName f.name) = .battery →
    f.least = some settings.batteryLeast ∧ f.greatest = some settings.batteryGreatest
  other : FluentKind.ofName (functionName f.name) ≠ .battery → f.least = none ∧ f.greatest = none

variable {settings : FluentSettings} (hrange : settings.batteryLeast ≤ settings.batteryGreatest)
include hrange

theorem isConfined_ofKey (key : String) (initial : Float) :
    (ofKey settings key initial).IsConfined settings := by
  unfold ofKey
  simp only [keyParts_fst]
  split_ifs with hkind
  · -- the initial value is moved into the range as well
    refine ⟨?_, ?_, fun _ => ⟨rfl, rfl⟩, fun hother => absurd hkind hother⟩
    · exact admits_clamp (f := { unbounded key initial with
        least := some settings.batteryLeast, greatest := some settings.batteryGreatest })
        rfl rfl hrange _
    · exact admits_clamp (f := { unbounded key initial with
        least := some settings.batteryLeast, greatest := some settings.batteryGreatest })
        rfl rfl hrange _
  · exact ⟨admits_of_unbounded rfl rfl _, admits_of_unbounded rfl rfl _,
      fun hbattery => absurd hbattery hkind, fun _ => ⟨rfl, rfl⟩⟩

theorem IsConfined.set {f : Fluent} (h : f.IsConfined settings) (x : Float) :
    (f.set x).IsConfined settings := by
  have hvalue : f.Admits (f.clamp x) := by
    by_cases hkind : FluentKind.ofName (functionName f.name) = .battery
    · obtain ⟨hleast, hgreatest⟩ := h.battery hkind
      exact admits_clamp hleast hgreatest hrange x
    · obtain ⟨hleast, hgreatest⟩ := h.other hkind
      exact admits_of_unbounded hleast hgreatest _
  exact ⟨hvalue, h.initial, h.battery, h.other⟩

omit hrange in
theorem IsConfined.reset {f : Fluent} (h : f.IsConfined settings) : f.reset.IsConfined settings :=
  ⟨h.initial, h.initial, h.battery, h.other⟩

end Fluent

/-! ## All fluents of a player -/

section Every

variable {P : Fluent → Prop}

theorem Store.Every.write (hset : ∀ f x, P f → P (f.set x)) {s : Store} (h : s.Every P)
    (key : String) (update : Update) (amount : Float) : (s.write key update amount).Every P := by
  intro f hf
  obtain ⟨g, hg, rfl⟩ := List.mem_map.mp hf
  split
  · exact hset g _ (h g hg)
  · exact h g hg

theorem Store.Every.reset (hreset : ∀ f, P f → P f.reset) {s : Store} (h : s.Every P) :
    s.reset.Every P := by
  intro f hf
  obtain ⟨g, hg, rfl⟩ := List.mem_map.mp hf
  exact hreset g (h g hg)

namespace Player

theorem every_visited (hset : ∀ f x, P f → P (f.set x)) {p : Player} (h : p.store.Every P)
    (v : Visit) : (p.visited v).store.Every P :=
  Store.foldl_settle_induction (motive := Store.Every P)
    (fun _ key update amount hs => hs.write hset key update amount) h _

variable (hset : ∀ f x, P f → P (f.set x)) (hreset : ∀ f, P f → P f.reset)
include hset hreset

theorem every_perform {p : Player} (h : p.store.Every P) (c : Control) :
    (p.perform c).store.Every P := by
  cases c with
  | play =>
    have hatPlay : p.atPlay.store.Every P := by
      unfold atPlay
      split
      · exact h.reset hreset
      · exact h
    cases hplan : p.plan.isNone with
    | true =>
      rw [perform_play_of_no_plan hplan]
      exact h
    | false =>
      rw [perform_play hplan]
      exact every_visited hset hatPlay _
  | pause => exact h
  | reset => exact h.reset hreset
  | seek time =>
    rw [perform_seek]
    exact every_visited hset h _
  | advance nanoseconds =>
    rw [perform_advance]
    exact every_visited hset h _
  | tick now =>
    rw [perform_tick]
    exact every_visited hset h _
  | setSpeed speed => exact h

/-- What holds of every fluent that is made for a key, and survives a write and going back to the
initial value, holds of all fluents of a player. -/
theorem every_obeyAll (settings : Settings)
    (hkey : ∀ key initial, P (Fluent.ofKey settings.fluents key initial)) (commands : List Command) :
    ((ofSettings settings).obeyAll commands).store.Every P := by
  have hrun : ∀ p : Player, p.settings = settings.fluents → p.store.Every P →
      (p.obeyAll commands).store.Every P := by
    induction commands with
    | nil => exact fun p _ h => h
    | cons command rest ih =>
      intro p hsettings h
      have hkept : (p.obey command).settings = settings.fluents :=
        (p.configuration_obeyAll [command]).1.trans hsettings
      refine ih _ hkept ?_
      cases command with
      | load plan context =>
        rw [← hsettings] at hkey
        exact plan.every_resolve hkey context
      | unload => exact Store.every_empty
      | control c => exact every_perform hset hreset h c
  exact hrun _ rfl Store.every_empty

end Player

end Every

namespace Player

/-- **Fluents stay in their range.**  The settings give batteries a range that is not empty.
Whatever plans a player loads and whatever is done with it, the value and the initial value of every
fluent with a range lie in the range, and every fluent of a function that is named like a battery has
the range of the settings. -/
theorem fluents_stay_in_range (settings : Settings) (commands : List Command)
    (hrange : settings.fluents.batteryLeast ≤ settings.fluents.batteryGreatest) :
    ∀ f ∈ ((ofSettings settings).obeyAll commands).store.fluents,
      (∀ least ∈ f.least, least ≤ f.value ∧ least ≤ f.initial) ∧
      (∀ greatest ∈ f.greatest, f.value ≤ greatest ∧ f.initial ≤ greatest) ∧
      (FluentKind.ofName (functionName f.name) = .battery →
        f.least = some settings.fluents.batteryLeast ∧
          f.greatest = some settings.fluents.batteryGreatest) := by
  intro f hf
  have hconfined : f.IsConfined settings.fluents :=
    every_obeyAll (fun _ x h => h.set hrange x) (fun _ h => h.reset) settings
      (Fluent.isConfined_ofKey hrange) commands f hf
  refine ⟨fun least hleast => ?_, fun greatest hgreatest => ?_, hconfined.battery⟩
  · exact ⟨hconfined.value.1 least hleast, hconfined.initial.1 least hleast⟩
  · exact ⟨hconfined.value.2 greatest hgreatest, hconfined.initial.2 greatest hgreatest⟩

/-- A battery is charged without end, and then set to what is no number. -/
def overcharge : Plan :=
  { dialect := .numeric
    actions :=
      [{ Action.make "charge" ["rover"] 0.0 1.0 with
          effects := [⟨"battery(rover)", .increase, 1.0 / 0.0⟩] },
        { Action.make "measure" ["rover"] 1.0 1.0 with
          effects := [⟨"battery(rover)", .assign, 0.0 / 0.0⟩] }]
    totalDuration := 2.0, cost := 2.0, statistics := {} }

theorem overcharged_battery_in_range :
    ({} : Settings).fluents.batteryLeast ≤ ({} : Settings).fluents.batteryGreatest ∧
      ((ofSettings {}).obeyAll [.load overcharge {}, .control (.seek 2.0)]).store.keys =
        ["battery(rover)"] ∧
      ∀ f ∈ ((ofSettings {}).obeyAll [.load overcharge {}, .control (.seek 2.0)]).store.fluents,
        f.least = some 0.0 ∧ f.greatest = some 100.0 ∧ 0.0 ≤ f.value ∧ f.value ≤ 100.0 := by
  have hrange : ({} : Settings).fluents.batteryLeast ≤ ({} : Settings).fluents.batteryGreatest := by
    decide
  have hkeys : ((ofSettings {}).obeyAll [.load overcharge {}, .control (.seek 2.0)]).store.keys =
      ["battery(rover)"] := by decide +kernel
  refine ⟨hrange, hkeys, fun f hf => ?_⟩
  obtain ⟨hlower, hupper, hbattery⟩ := fluents_stay_in_range {} _ hrange f hf
  have hname : f.name = "battery(rover)" := by
    have hmem : f.name ∈ ["battery(rover)"] := hkeys ▸ List.mem_map_of_mem hf
    exact List.mem_singleton.mp hmem
  have hkind : FluentKind.ofName (functionName f.name) = .battery := by
    rw [hname]
    decide +kernel
  obtain ⟨hleast, hgreatest⟩ := hbattery hkind
  exact ⟨hleast, hgreatest, (hlower 0.0 hleast).1, (hupper 100.0 hgreatest).1⟩

end Player

end PlanPlayback
