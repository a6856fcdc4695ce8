import PlanPlayback.Proofs.Playback.ClockBounds
import PlanPlayback.Proofs.Playback.Control
import PlanPlayback.Proofs.Playback.Loading

/-!
# Going back to the beginning

Whatever is done with a player, its plan stays: the length of the clock, the events but for how far
they have got, and the fluents but for their values.  So going back to the beginning always leads to
the same player, except for the speed, and a plan that is loaded finds nothing of what was there
before.

* `Clock.SamePlan`, `Store.reset_foldl_settle` and `Player.SamePlan`: what the operations keep;
* `Player.SamePlan.reset_eq`: players with the same plan are the same at the beginning;
* `Player.reset_and_load_forget` is the result.
-/

namespace PlanPlayback

/-! ## The clock -/

/-- Clocks for the same plan. -/
structure Clock.SamePlan (c c' : Clock) : Prop where
  total : c'.total = c.total
  endBehavior : c'.endBehavior = c.endBehavior
  loaded : c'.loaded = c.loaded

namespace Clock.SamePlan

variable (c : Clock)

theorem turn (next : PlayState) : c.SamePlan (c.turn next).1 :=
  ⟨rfl, rfl, rfl⟩

theorem play : c.SamePlan c.play.1 := by
  unfold Clock.play
  split
  · exact ⟨rfl, rfl, rfl⟩
  · split <;> exact ⟨rfl, rfl, rfl⟩

theorem pause : c.SamePlan c.pause.1 := by
  unfold Clock.pause
  split <;> exact ⟨rfl, rfl, rfl⟩

theorem seek (time : Float) : c.SamePlan (c.seek time) :=
  ⟨rfl, rfl, rfl⟩

theorem advance (nanoseconds : Nat) : c.SamePlan (c.advance nanoseconds).1 := by
  unfold Clock.advance
  split
  · exact ⟨rfl, rfl, rfl⟩
  · simp only
    split <;> exact ⟨rfl, rfl, rfl⟩

theorem tick (now : Nat) : c.SamePlan (c.tick now).1 := by
  unfold Clock.tick
  split
  · exact ⟨rfl, rfl, rfl⟩
  · obtain ⟨htotal, hend, hloaded⟩ := advance { c with lastTick := some now } _
    exact ⟨htotal, hend, hloaded⟩

theorem setSpeed (speed : Float) : c.SamePlan (c.setSpeed speed).1 := by
  unfold Clock.setSpeed
  split <;> exact ⟨rfl, rfl, rfl⟩

end Clock.SamePlan

/-! ## The fluents -/

namespace Store

@[simp] theorem reset_write (s : Store) (key : String) (update : Update) (amount : Float) :
    (s.write key update amount).reset = s.reset := by
  unfold write modify reset
  rw [List.map_map]
  congr 1
  refine List.map_congr_left fun f _ => ?_
  change Fluent.reset (if f.name == key then f.set (requested f update amount) else f) = f.reset
  split <;> rfl

@[simp] theorem reset_foldl_settle (events : List Event) (s : Store) :
    (events.foldl settle s).reset = s.reset := by
  refine foldl_settle_induction (motive := fun s' => s'.reset = s.reset) ?_ rfl events
  intro s' key update amount h
  rw [reset_write, h]

@[simp] theorem reset_reset (s : Store) : s.reset.reset = s.reset := by
  unfold reset
  rw [List.map_map]
  rfl

end Store

/-! ## The player -/

namespace Player

/-- A player at another speed. -/
def atSpeed (p : Player) (speed : Float) : Player :=
  p.withClock { p.clock with speed }

theorem reset_eq (p : Player) :
    p.reset.1 =
      { p with clock := p.clock.reset.1, schedule := p.schedule.rewind, store := p.store.reset } :=
  rfl

/-- Players with the same plan. -/
structure SamePlan (p q : Player) : Prop where
  clock : p.clock.SamePlan q.clock
  events : q.schedule.rewind = p.schedule.rewind
  store : q.store.reset = p.store.reset
  settings : q.settings = p.settings
  plan : q.plan = p.plan

namespace SamePlan

variable {p q r : Player}

theorem refl (p : Player) : p.SamePlan p :=
  ⟨⟨rfl, rfl, rfl⟩, rfl, rfl, rfl, rfl⟩

theorem trans (h : p.SamePlan q) (h' : q.SamePlan r) : p.SamePlan r :=
  ⟨⟨h'.clock.total.trans h.clock.total, h'.clock.endBehavior.trans h.clock.endBehavior,
    h'.clock.loaded.trans h.clock.loaded⟩, h'.events.trans h.events, h'.store.trans h.store,
    h'.settings.trans h.settings, h'.plan.trans h.plan⟩

theorem withClock {clock : Clock} (h : p.clock.SamePlan clock) : p.SamePlan (p.withClock clock) :=
  ⟨h, rfl, rfl, rfl, rfl⟩

theorem visited (p : Player) (v : Visit) : p.SamePlan (p.visited v) := by
  refine ⟨⟨rfl, rfl, rfl⟩, ?_, Store.reset_foldl_settle _ _, rfl, rfl⟩
  change Schedule.mk ((p.schedule.events.map v.after).map Event.rewind) = p.schedule.rewind
  rw [List.map_map, Schedule.rewind]
  exact congrArg Schedule.mk (List.map_congr_left fun e _ => v.rewind_after e)

theorem reset (p : Player) : p.SamePlan p.reset.1 := by
  refine ⟨?_, ?_, p.store.reset_reset, rfl, rfl⟩
  · change p.clock.SamePlan p.clock.reset.1
    rw [Clock.reset_eq]
    exact ⟨rfl, rfl, rfl⟩
  · change Schedule.mk ((p.schedule.events.map Event.rewind).map Event.rewind) = p.schedule.rewind
    rw [List.map_map]
    rfl

theorem atPlay (p : Player) : p.SamePlan p.atPlay := by
  unfold Player.atPlay
  split
  · exact reset p
  · exact refl p

/-- Every operation keeps the plan. -/
theorem perform (p : Player) (c : Control) : p.SamePlan (p.perform c) := by
  cases c with
  | play =>
    cases hplan : p.plan.isNone with
    | true =>
      rw [perform_play_of_no_plan hplan]
      exact withClock (Clock.SamePlan.play p.clock)
    | false =>
      rw [perform_play hplan]
      exact (atPlay p).trans ((withClock (Clock.SamePlan.play _)).trans (visited _ _))
  | pause => exact withClock (Clock.SamePlan.pause p.clock)
  | reset => exact reset p
  | seek time =>
    rw [perform_seek]
    exact (withClock (Clock.SamePlan.seek p.clock time)).trans (visited _ _)
  | advance nanoseconds =>
    rw [perform_advance]
    exact (withClock (Clock.SamePlan.advance p.clock nanoseconds)).trans (visited _ _)
  | tick now =>
    rw [perform_tick]
    exact (withClock (Clock.SamePlan.tick p.clock now)).trans (visited _ _)
  | setSpeed speed => exact withClock (Clock.SamePlan.setSpeed p.clock speed)

theorem run (p : Player) (controls : List Control) : p.SamePlan (p.run controls) := by
  induction controls generalizing p with
  | nil => exact refl p
  | cons c rest ih => exact (perform p c).trans (ih (p.perform c))

/-- Players with the same plan only differ in their speed when they are at the beginning. -/
theorem reset_eq (h : p.SamePlan q) : q.reset.1 = p.reset.1.atSpeed q.clock.speed := by
  rw [Player.reset_eq, Player.reset_eq, Clock.reset_eq, Clock.reset_eq, h.clock.total,
    h.clock.endBehavior, h.clock.loaded, h.events, h.store, h.settings, h.plan]
  rfl

end SamePlan

/-! ## Loading a plan -/

/-- Everything that can be done with a player. -/
inductive Command where
  | load (plan : Plan) (context : Context)
  | unload
  | control (c : Control)

/-- A player after a command. -/
def obey (p : Player) : Command → Player
  | .load plan context => (p.load plan context).1
  | .unload => p.unload.1
  | .control c => p.perform c

/-- A player after some commands. -/
def obeyAll (p : Player) (commands : List Command) : Player :=
  commands.foldl obey p

/-- Nothing changes the configuration of a player but its speed. -/
theorem configuration_obeyAll (p : Player) (commands : List Command) :
    (p.obeyAll commands).settings = p.settings ∧
      (p.obeyAll commands).clock.endBehavior = p.clock.endBehavior := by
  induction commands generalizing p with
  | nil => exact ⟨rfl, rfl⟩
  | cons command rest ih =>
    have hstep : (p.obey command).settings = p.settings ∧
        (p.obey command).clock.endBehavior = p.clock.endBehavior := by
      cases command with
      | load plan context =>
        refine ⟨rfl, ?_⟩
        change (p.clock.load plan.totalDuration).1.endBehavior = p.clock.endBehavior
        rw [Clock.load_eq]
      | unload =>
        refine ⟨rfl, ?_⟩
        change (Clock.reset { p.clock with loaded := false, total := 0.0 }).1.endBehavior =
          p.clock.endBehavior
        rw [Clock.reset_eq]
      | control c =>
        have hsame := SamePlan.perform p c
        exact ⟨hsame.settings, hsame.clock.endBehavior⟩
    obtain ⟨hsettings, hend⟩ := ih (p.obey command)
    exact ⟨hsettings.trans hstep.1, hend.trans hstep.2⟩

theorem load_eq (p : Player) (plan : Plan) (context : Context) :
    (p.load plan context).1 =
      { p with
        clock := (p.clock.load plan.totalDuration).1
        schedule := Schedule.ofPlan plan (plan.resolve context p.settings)
        store := (plan.resolve context p.settings).store
        plan := some plan } :=
  rfl

/-- What a plan is loaded as depends on the configuration of the player alone. -/
theorem load_congr {p q : Player} (hsettings : p.settings = q.settings)
    (hend : p.clock.endBehavior = q.clock.endBehavior) (plan : Plan) (context : Context) :
    (p.load plan context).1 = (q.load plan context).1.atSpeed p.clock.speed := by
  rw [load_eq, load_eq, Clock.load_eq, Clock.load_eq, hsettings, hend]
  rfl

/-- A player whose plan has just been loaded is at the beginning. -/
theorem reset_load (p : Player) (plan : Plan) (context : Context) :
    (p.load plan context).1.reset.1 = (p.load plan context).1 := by
  have hevents : (Schedule.ofPlan plan (plan.resolve context p.settings)).rewind =
      Schedule.ofPlan plan (plan.resolve context p.settings) := by
    rw [Schedule.rewind, List.map_congr_left fun e he => Schedule.rewind_of_mem he, List.map_id']
  rw [load_eq, reset_eq, Clock.load_eq, Clock.reset_eq, hevents,
    (plan.isInitial_resolve context p.settings).reset]

/-- **Going back to the beginning and loading a plan forget everything but the speed.**  A plan that
has just been loaded is at the beginning, its events have not begun and its fluents have their
initial values.  After any operations, `reset` leads back to exactly this player, at the present
speed, and whatever is done next shows the same as if it were done after loading the plan at that
speed.  What a plan is loaded as does not depend on what a player has been through. -/
theorem reset_and_load_forget (p : Player) (plan : Plan) (context : Context) :
    let loaded := (p.load plan context).1
    (loaded.clock.time = 0.0 ∧ loaded.clock.state = .stopped ∧ loaded.clock.lastTick = none ∧
        (∀ e ∈ loaded.schedule.events, e.status = .pending ∧ e.progress = 0.0) ∧
        ∀ f ∈ loaded.store.fluents, f.value = f.initial) ∧
      (∀ controls, (loaded.run controls).reset.1 =
        loaded.atSpeed (loaded.run controls).clock.speed) ∧
      (∀ controls later, (loaded.run controls).reset.1.frames later =
        ((p.atSpeed (loaded.run controls).clock.speed).load plan context).1.frames later) ∧
      ∀ settings commands,
        (((ofSettings settings).obeyAll commands).load plan context).1 =
          ((ofSettings settings).load plan context).1.atSpeed
            ((ofSettings settings).obeyAll commands).clock.speed := by
  intro loaded
  have hreset : ∀ controls, (loaded.run controls).reset.1 =
      loaded.atSpeed (loaded.run controls).clock.speed := by
    intro controls
    rw [(SamePlan.run loaded controls).reset_eq, reset_load]
  refine ⟨⟨?_, ?_, ?_, fun e he => ?_, ?_⟩, hreset, fun controls later => ?_,
    fun settings commands => ?_⟩
  · change (p.clock.load plan.totalDuration).1.time = 0.0
    rw [Clock.load_eq]
  · change (p.clock.load plan.totalDuration).1.state = .stopped
    rw [Clock.load_eq]
  · change (p.clock.load plan.totalDuration).1.lastTick = none
    rw [Clock.load_eq]
  · have hrewind : e.rewind = e := Schedule.rewind_of_mem he
    rw [← hrewind]
    exact ⟨rfl, rfl⟩
  · exact plan.isInitial_resolve context p.settings
  · set speed := (loaded.run controls).clock.speed with hspeed
    have hload : ((p.atSpeed speed).load plan context).1 = loaded.atSpeed speed :=
      load_congr (p := p.atSpeed speed) (q := p) rfl rfl plan context
    rw [hreset, ← hspeed, hload]
  · obtain ⟨hsettings, hend⟩ := (ofSettings settings).configuration_obeyAll commands
    exact load_congr hsettings hend plan context

end Player

end PlanPlayback
