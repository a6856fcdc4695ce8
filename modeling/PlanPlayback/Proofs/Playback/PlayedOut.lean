import PlanPlayback.Proofs.Plan.Assembly
import PlanPlayback.Proofs.Playback.Progress
import PlanPlayback.Proofs.Playback.Rewind

/-!
# A plan is played to its end

Four numbers have to agree so that nothing is left out at the end of a plan: the end that an action
is given, the latest of these ends, the time at which the clock is put, and the end that an event
computes for itself.  They do, rounding included, if all actions start and end at finite times.

* `Event.FitsIn`: the event starts before it ends, and ends before the plan does;
* `Plan.fits_load`: the events of a plan fit in the plan;
* `Player.exists_visited`: what brings the schedule in line with the clock visits all events at the
  time of the clock;
* `Player.AllCompleted.run`: completed events stay completed until the plan starts over;
* `Player.all_completed_at_end` is the result.
-/

namespace PlanPlayback

open Binary64

/-! ## A single event -/

/-- An action ends where its duration puts it, whatever duration it is given. -/
theorem Action.isTimed_make (name : String) (args : List String) (start duration : Float) :
    (Action.make name args start duration).IsTimed :=
  ⟨le_larger isNumber_zero, rfl⟩

namespace Event

/-- An event that starts before it ends, and ends before the plan does. -/
structure FitsIn (e : Event) (total : Float) : Prop where
  start_le : e.start ≤ e.finish
  finish_le : e.finish ≤ total

theorem FitsIn.isOverAt {e : Event} {total time : Float} (h : e.FitsIn total) (hle : total ≤ time) :
    e.isOverAt time = true := by
  have hfinish : e.finish ≤ time := Binary64.le_trans h.finish_le hle
  have hstart : e.start ≤ time := Binary64.le_trans h.start_le hfinish
  obtain ⟨hstart_number, htime_number, -⟩ := le_iff.mp hstart
  rw [Event.isOverAt, Bool.and_eq_true, Bool.not_eq_true', decide_eq_false_iff_not]
  exact ⟨(Binary64.not_lt htime_number hstart_number).mpr hstart,
    isPastAt_iff.mpr (Or.inl hfinish)⟩

@[simp] theorem isOverAt_forget (e : Event) (time : Float) :
    e.forget.isOverAt time = e.isOverAt time := by
  unfold forget
  split <;> rfl

/-- A step to a time at which an event is over leaves it completed. -/
theorem isCompleted_advanced_of_isOverAt {e : Event} {time : Float} (h : e.isOverAt time = true) :
    (e.advanced time).isCompleted = true := by
  rw [isOverAt, Bool.and_eq_true] at h
  obtain ⟨hstarted, hpast⟩ := h
  rw [isCompleted_advanced, completesAt, proceedsAt, startsAt, hstarted, hpast, isCompleted]
  cases e.status <;> rfl

end Event

namespace Visit

/-- The time of a visit. -/
def time : Visit → Float
  | .update time => time
  | .jump time => time

theorem isCompleted_after_of_isOverAt {v : Visit} {e : Event} (h : e.isOverAt v.time = true) :
    (v.after e).isCompleted = true := by
  cases v with
  | update time => exact Event.isCompleted_advanced_of_isOverAt h
  | jump time => exact Event.isCompleted_advanced_of_isOverAt ((e.isOverAt_forget time).trans h)

end Visit

/-! ## The length of a plan -/

namespace Clock

theorem lengthOf_eq_self {total : Float} (hfinite : total.isFinite = true) (h : 0.0 ≤ total) :
    lengthOf total = total := by
  rw [lengthOf, if_pos hfinite, larger_eq_left h]

/-- A jump beyond the end of the plan leads to its end. -/
theorem time_seek_of_total_le {c : Clock} {time : Float} (hfinite : time.isFinite = true)
    (htotal : 0.0 ≤ c.total) (hle : c.total ≤ time) : ((c.seek time).time == c.total) = true := by
  have hnumber := isNumber_of_finite hfinite
  have htotal_number : IsNumber c.total := (le_iff.mp hle).1
  have hnot_neg : ¬time < 0.0 :=
    (Binary64.not_lt hnumber isNumber_zero).mpr (Binary64.le_trans htotal hle)
  have htime : (c.seek time).time = if c.total < time then c.total else time := by
    unfold seek
    rw [if_pos hfinite]
    simp only
    rw [if_neg hnot_neg]
  rw [htime, beq_iff]
  split_ifs with hbeyond
  · exact ⟨htotal_number, htotal_number, rfl⟩
  · have hback := (Binary64.not_lt htotal_number hnumber).mp hbeyond
    exact ⟨hnumber, htotal_number, le_antisymm (le_iff.mp hback).2.2 (le_iff.mp hle).2.2⟩

end Clock

namespace Plan

section

variable {dialect : Dialect} {actions : List Action} {statistics : Statistics}
  (htimed : ∀ a ∈ actions, a.IsTimed)
  (hfinite : ∀ a ∈ actions, a.start.isFinite = true ∧ a.finish.isFinite = true)
include hfinite

theorem totalDuration_assemble_finite :
    (assemble dialect actions statistics).totalDuration.isFinite = true ∧
      0.0 ≤ (assemble dialect actions statistics).totalDuration := by
  obtain ⟨-, hnonneg, -, hattained⟩ := foldl_larger isNumber_zero
    ((assemble dialect actions statistics).actions.map Action.finish)
  change (assemble dialect actions statistics).totalDuration = 0.0 ∨
    (assemble dialect actions statistics).totalDuration ∈ _ at hattained
  refine ⟨?_, hnonneg⟩
  rcases hattained with hzero | hmem
  · rw [hzero]
    decide
  · obtain ⟨a, ha, heq⟩ := List.mem_map.mp hmem
    obtain ⟨b, hb, id, rfl⟩ := mem_actions_assemble ha
    rw [← heq]
    exact (hfinite b hb).2

include htimed

/-- The events of a plan fit in the plan. -/
theorem fitsIn_of_mem_ofPlan {resolution : Resolution} {e : Event}
    (he : e ∈ (Schedule.ofPlan (assemble dialect actions statistics) resolution).events) :
    e.FitsIn (assemble dialect actions statistics).totalDuration := by
  obtain ⟨a, ha, kind, data, rfl⟩ := Schedule.exists_ofAction_of_mem he
  obtain ⟨b, hb, id, hab⟩ := mem_actions_assemble ha
  have hstart : a.start.isFinite = true := hab ▸ (hfinite b hb).1
  have hfinish : a.finish.isFinite = true := hab ▸ (hfinite b hb).2
  obtain ⟨hnonneg, hsum⟩ := isTimed_of_mem_actions htimed ha
  -- the event computes its end once more
  have hevent : (Event.ofAction a kind data).finish = a.finish := hsum.symm
  obtain ⟨-, -, hlatest, -⟩ := foldl_larger isNumber_zero
    ((assemble dialect actions statistics).actions.map Action.finish)
  refine ⟨le_add_of_nonneg hstart hnonneg, ?_⟩
  rw [hevent]
  exact hlatest _ (List.mem_map_of_mem ha) (isNumber_of_finite hfinish)

end

end Plan

/-! ## The player -/

namespace Control

/-- Whether an operation brings the schedule in line with the clock. -/
def reconciles : Control → Bool
  | .play | .seek _ | .advance _ | .tick _ => true
  | .pause | .reset | .setSpeed _ => false

/-- Whether an operation may start the plan over. -/
def mayStartOver : Control → Bool
  | .play | .reset => true
  | .pause | .seek _ | .advance _ | .tick _ | .setSpeed _ => false

end Control

namespace Player

/-- All events of the plan are completed. -/
def AllCompleted (p : Player) : Prop :=
  ∀ e ∈ p.schedule.events, e.isCompleted = true

/-- All events fit in the plan. -/
def Fits (p : Player) : Prop :=
  ∀ e ∈ p.schedule.events, e.FitsIn p.clock.total

/-- How far events have got does not matter to where they lie. -/
theorem SamePlan.fits {p q : Player} (h : p.SamePlan q) (hfits : p.Fits) : q.Fits := by
  intro e he
  have hmem : e.rewind ∈ p.schedule.events.map Event.rewind := by
    have hevents : q.schedule.events.map Event.rewind = p.schedule.events.map Event.rewind :=
      congrArg Schedule.events h.events
    rw [← hevents]
    exact List.mem_map_of_mem he
  obtain ⟨e', he', heq⟩ := List.mem_map.mp hmem
  have hrewound : e.rewind.FitsIn p.clock.total := heq ▸ ⟨(hfits e' he').1, (hfits e' he').2⟩
  rw [h.clock.total]
  exact ⟨hrewound.1, hrewound.2⟩

/-- An operation that brings the schedule in line visits it at the time of the clock. -/
theorem exists_visited {p : Player} (hplan : p.plan.isNone = false) {c : Control}
    (hc : c.reconciles = true) :
    ∃ (q : Player) (v : Visit), p.SamePlan q ∧ v.time = q.clock.time ∧ p.perform c = q.visited v := by
  cases c with
  | play =>
    have hsame : p.SamePlan (p.atPlay.withClock p.atPlay.clock.play.1) :=
      (SamePlan.atPlay p).trans (SamePlan.withClock (Clock.SamePlan.play _))
    exact ⟨_, _, hsame, rfl, perform_play hplan⟩
  | seek time => exact ⟨_, _, .withClock (Clock.SamePlan.seek _ time), rfl, perform_seek p time⟩
  | advance nanoseconds =>
    exact ⟨_, _, .withClock (Clock.SamePlan.advance _ nanoseconds), rfl, perform_advance p _⟩
  | tick now => exact ⟨_, _, .withClock (Clock.SamePlan.tick _ now), rfl, perform_tick p now⟩
  | pause => cases hc
  | reset => cases hc
  | setSpeed speed => cases hc

/-- A visit at the end of the plan completes everything. -/
theorem allCompleted_perform {p : Player} (hplan : p.plan.isNone = false) (hfits : p.Fits)
    {c : Control} (hc : c.reconciles = true) (hover : (p.perform c).clock.isOver = true) :
    (p.perform c).AllCompleted := by
  obtain ⟨q, v, hsame, htime, hperform⟩ := exists_visited hplan hc
  rw [hperform] at hover ⊢
  have hend : q.clock.total ≤ v.time := by
    rw [htime]
    exact of_decide_eq_true (Bool.and_eq_true_iff.mp hover).2
  intro e he
  obtain ⟨e', he', rfl⟩ := List.mem_map.mp he
  exact Visit.isCompleted_after_of_isOverAt ((hsame.fits hfits e' he').isOverAt hend)

namespace AllCompleted

variable {p : Player}

theorem visited (h : p.AllCompleted) (v : Visit) : (p.visited v).AllCompleted := by
  intro e he
  obtain ⟨e', he', rfl⟩ := List.mem_map.mp he
  rw [v.isCompleted_after, h e' he', Bool.true_or]

/-- Only what starts the plan over takes back that an event is completed. -/
theorem perform (h : p.AllCompleted) {c : Control} (hc : c.mayStartOver = false) :
    (p.perform c).AllCompleted := by
  cases c with
  | play => cases hc
  | reset => cases hc
  | pause => exact h
  | setSpeed speed => exact h
  | seek time =>
    rw [perform_seek]
    exact visited (p := p.withClock (p.clock.seek time)) h _
  | advance nanoseconds =>
    rw [perform_advance]
    exact visited (p := p.withClock (p.clock.advance nanoseconds).1) h _
  | tick now =>
    rw [perform_tick]
    exact visited (p := p.withClock (p.clock.tick now).1) h _

theorem run (h : p.AllCompleted) {controls : List Control}
    (hcontrols : ∀ c ∈ controls, c.mayStartOver = false) : (p.run controls).AllCompleted := by
  induction controls generalizing p with
  | nil => exact h
  | cons c rest ih =>
    obtain ⟨hc, hrest⟩ := List.forall_mem_cons.mp hcontrols
    exact ih (h.perform hc) hrest

end AllCompleted

/-- **Nothing is left unplayed.**  The actions of a plan start and end at finite times, each where
its duration puts its end.  Whatever has been done with the plan since it was loaded, the clock is
as long as the plan and the events are those of the plan.  A jump to a time that is not before the
end leads to the end, with all events completed.  So does everything else that brings the schedule
in line with a clock at its end.  From then on all events stay completed, until the plan starts
over. -/
theorem all_completed_at_end (p : Player) (context : Context) (dialect : Dialect)
    (actions : List Action) (statistics : Statistics) (htimed : ∀ a ∈ actions, a.IsTimed)
    (hfinite : ∀ a ∈ actions, a.start.isFinite = true ∧ a.finish.isFinite = true) :
    let plan := Plan.assemble dialect actions statistics
    let loaded := (p.load plan context).1
    ∀ controls,
      let now := loaded.run controls
      (now.clock.total = plan.totalDuration ∧ now.schedule.rewind = loaded.schedule) ∧
        (∀ time, time.isFinite = true → plan.totalDuration ≤ time →
          ((now.perform (.seek time)).clock.time == plan.totalDuration) = true ∧
            (now.perform (.seek time)).AllCompleted) ∧
        (∀ c, c.reconciles = true → (now.perform c).clock.isOver = true →
          (now.perform c).AllCompleted) ∧
        (now.AllCompleted → ∀ later, (∀ c ∈ later, c.mayStartOver = false) →
          (now.run later).AllCompleted) := by
  intro plan loaded controls now
  obtain ⟨htotal_finite, htotal_nonneg⟩ :=
    @Plan.totalDuration_assemble_finite dialect actions statistics hfinite
  have hclock : loaded.clock =
      { p.clock with
        total := Clock.lengthOf plan.totalDuration, loaded := true, time := 0.0
        state := .stopped, lastTick := none } := Clock.load_eq p.clock plan.totalDuration
  have hloaded_total : loaded.clock.total = plan.totalDuration := by
    rw [hclock]
    exact Clock.lengthOf_eq_self htotal_finite htotal_nonneg
  have hsame : loaded.SamePlan now := SamePlan.run loaded controls
  have htotal : now.clock.total = plan.totalDuration := hsame.clock.total.trans hloaded_total
  have hplan : now.plan.isNone = false := congrArg Option.isNone hsame.plan
  have hfits : now.Fits := by
    refine hsame.fits fun e he => ?_
    rw [hloaded_total]
    exact Plan.fitsIn_of_mem_ofPlan htimed hfinite he
  have hrewind : loaded.schedule.rewind = loaded.schedule :=
    congrArg Player.schedule (reset_load p plan context)
  refine ⟨⟨htotal, hsame.events.trans hrewind⟩, fun time htime hle => ?_, fun c hc hover => ?_,
    fun hcompleted later hlater => hcompleted.run hlater⟩
  · have hend : ((now.clock.seek time).time == now.clock.total) = true :=
      Clock.time_seek_of_total_le htime (htotal ▸ htotal_nonneg) (htotal ▸ hle)
    have hloaded : now.clock.loaded = true := by
      rw [hsame.clock.loaded, hclock]
    have hover : (now.clock.seek time).isOver = true := by
      obtain ⟨htime_number, htotal_number, heq⟩ := beq_iff.mp hend
      exact Bool.and_eq_true_iff.mpr
        ⟨hloaded, decide_eq_true (le_iff.mpr ⟨htotal_number, htime_number, heq.ge⟩)⟩
    refine ⟨htotal ▸ hend, allCompleted_perform hplan hfits (c := .seek time) rfl hover⟩
  · exact allCompleted_perform hplan hfits hc hover

/-- A crate is loaded and driven away; the end of the loading is rounded up. -/
def delivery : List Action :=
  [Action.make "load" ["crate"] 0.1 0.2,
    { Action.make "drive" ["truck"] 0.3 0.1 with effects := [⟨"fuel(truck)", .decrease, 2.0⟩] }]

/-- The delivery is over after half a second, and going back does not change that. -/
theorem delivery_completed_at_end :
    let loaded := ((ofSettings {}).load (Plan.assemble .numeric delivery {}) {}).1
    ((∀ a ∈ delivery, a.IsTimed) ∧
        ∀ a ∈ delivery, a.start.isFinite = true ∧ a.finish.isFinite = true) ∧
      loaded.schedule.events.length = 4 ∧
      (loaded.run [.play, .advance 500000000]).AllCompleted ∧
      (loaded.run [.play, .advance 500000000, .seek 0.0, .tick 7]).AllCompleted := by
  intro loaded
  have htimed : ∀ a ∈ delivery, a.IsTimed :=
    List.forall_mem_cons.mpr ⟨Action.isTimed_make _ _ _ _,
      List.forall_mem_singleton.mpr ⟨(Action.isTimed_make "drive" ["truck"] 0.3 0.1).nonneg, rfl⟩⟩
  have hfinite : ∀ a ∈ delivery, a.start.isFinite = true ∧ a.finish.isFinite = true := by
    decide +kernel
  have hspec := all_completed_at_end (ofSettings {}) {} .numeric delivery {} htimed hfinite
  have hsorted : Plan.sorted delivery = delivery := Plan.sorted_eq_self (by decide +kernel)
  have hevents : loaded.schedule.events.length = 4 := by
    unfold loaded Plan.assemble
    rw [hsorted]
    decide +kernel
  have hover : ((loaded.run [.play]).perform (.advance 500000000)).clock.isOver = true := by
    unfold loaded Plan.assemble
    rw [hsorted]
    decide +kernel
  have hend : (loaded.run [.play, .advance 500000000]).AllCompleted :=
    (hspec [.play]).2.2.1 (.advance 500000000) rfl hover
  refine ⟨⟨htimed, hfinite⟩, hevents, hend, ?_⟩
  exact (hspec [.play, .advance 500000000]).2.2.2 hend [.seek 0.0, .tick 7] (by decide)

end Player

end PlanPlayback
