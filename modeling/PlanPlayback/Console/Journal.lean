import PlanPlayback.Console.Record
import PlanPlayback.Playback.Audience
import PlanPlayback.Session

/-!
# The journal

What happens while texts are read and a plan is played is written to the log.  A happening that
listeners are told of is followed by what they themselves write: a warning from every listener that
does not know the object of a started event, and a line of its own from a listener that logs.

* `Milestone.records` and `Notice.records` are the records of a happening;
* `journal` and `playJournal` are the records of several, in order.
-/

namespace PlanPlayback

open Console

/-- A number in a record. -/
def countField (n : Nat) : Value :=
  .integer n

/-- What a listener writes when an event starts. -/
def Listener.startRecords (event : Event) (l : Listener) : List Record :=
  if !l.knows event.object then
    [.about .warn "event_skipped" [("id", .shown event.id), ("object", .shown event.object)]]
  else if l.role = .logger then
    [.about .info "event_started"
      [("id", .shown event.id), ("kind", .text event.kind.tag), ("object", .shown event.object),
        ("start", .real event.start)]]
  else []

/-- What a listener writes when an event is completed. -/
def Listener.completionRecords (event : Event) (l : Listener) : List Record :=
  if l.knows event.object && l.role == .logger then
    [.about .info "event_completed"
      [("id", .shown event.id), ("kind", .text event.kind.tag), ("object", .shown event.object),
        ("end", .real event.finish)]]
  else []

/-- The records of something that happens while a plan is played. -/
def Notice.records (listeners : List Listener) : Notice → List Record
  | .turned transition =>
      [.about .info "playback"
        [("from", .text transition.before.tag), ("to", .text transition.after.tag),
          ("time", .real transition.time)]]
  | .sought requested time state =>
      [.about .debug "seek"
        [("requested", .real requested), ("time", .real time), ("state", .text state.tag)]]
  | .started event time =>
      .about .debug "event_started"
        [("id", .shown event.id), ("kind", .text event.kind.tag), ("object", .shown event.object),
          ("time", .real time)] ::
        listeners.flatMap (Listener.startRecords event)
  | .progressed _ _ => []
  | .clamped clamping =>
      [.about .debug "fluent_clamped"
        [("fluent", .shown clamping.fluent), ("requested", .real clamping.requested),
          ("value", .real clamping.value)]]
  | .completed event applied =>
      .about .debug "event_completed"
        [("id", .shown event.id), ("kind", .text event.kind.tag),
          ("effects", countField applied)] ::
        listeners.flatMap (Listener.completionRecords event)
  | .jumped time begun ended =>
      [.about .debug "seek"
        [("time", .real time), ("started", countField begun), ("completed", countField ended)]]
  | .rewound => [.about .info "playback" [("action", .text "reset")]]
  | .loaded dialect actions events fluents total =>
      [.about .info "plan_loaded"
        [("dialect", .text dialect.tag), ("actions", countField actions),
          ("events", countField events), ("fluents", countField fluents),
          ("total_duration", .real total)]]

/-- The records of something that happens while texts are read. -/
def Milestone.records : Milestone → List Record
  | .domainRead domain =>
      [.about .info "domain_parsed"
        [("domain", .shown domain.value.name),
          ("actions", countField domain.value.actions.length),
          ("processes", countField domain.value.processes.length),
          ("events", countField domain.value.events.length),
          ("errors", countField domain.issues.length)]]
  | .problemRead problem =>
      [.about .info "problem_parsed"
        [("problem", .shown problem.value.name), ("domain", .shown problem.value.domain),
          ("objects", countField problem.value.objects.length),
          ("errors", countField problem.issues.length)]]
  | .domainClassified name classification =>
      [.about .info "domain_classified"
        [("domain", .shown name), ("domain_type", .text classification.kind.tag),
          ("confidence", .real classification.confidence)]]
  | .inconsistencyFound finding =>
      [.about .warn "validation_issue" [("issue", .shown finding.message)]]
  | .dialectDetected detection =>
      [.about .info "planner_detected"
        [("dialect", .text detection.dialect.tag), ("rule", .text detection.rule)]]
  | .planRead plan =>
      [.about .info "plan_built"
        [("dialect", .text plan.dialect.tag), ("actions", countField plan.actions.length),
          ("total_duration", .real plan.totalDuration), ("cost", .real plan.cost)]]
  | .solutionRead plan =>
      [.about .info "plan_built"
        [("source", .text "solution"), ("dialect", .text plan.dialect.tag),
          ("actions", countField plan.actions.length),
          ("total_duration", .real plan.totalDuration)]]
  | .noActionsFound dialect => [.about .warn "plan_built" [("dialect", .text dialect.tag)]]
  | .played notice => notice.records []

/-- The records of what happened while texts were read. -/
def journal (milestones : List Milestone) : List Record :=
  milestones.flatMap Milestone.records

/-- The records of what happened while listeners watched a plan. -/
def playJournal (listeners : List Listener) (notices : List Notice) : List Record :=
  notices.flatMap (Notice.records listeners)

end PlanPlayback
