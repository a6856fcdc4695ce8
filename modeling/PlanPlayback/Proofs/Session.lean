import PlanPlayback.Session

/-!
# What a session consists of

A session is made by a computation of several parts, each of which can fail.  If it succeeds, all of
its parts have, and the player of the session is a new one into which a plan has been loaded.

* `Attempt.Yields.of_bind` takes a successful computation apart;
* `Session.exists_load` says where the player of a session comes from.
-/

namespace PlanPlayback

namespace Attempt

variable {α β : Type}

/-- Whether a computation succeeds with a result, from some milestones on. -/
def Yields (attempt : Attempt α) (a : α) : Prop :=
  ∃ milestones, (attempt.run.run milestones).1 = .ok a

theorem Yields.of_bind {attempt : Attempt α} {next : α → Attempt β} {b : β}
    (h : (attempt >>= next).Yields b) : ∃ a, attempt.Yields a ∧ (next a).Yields b := by
  obtain ⟨milestones, h⟩ := h
  rw [ExceptT.run_bind, StateT.run_bind] at h
  cases hrun : attempt.run.run milestones with
  | mk result later =>
    rw [hrun] at h
    cases result with
    | error fault => cases h
    | ok a => exact ⟨a, ⟨milestones, congrArg Prod.fst hrun⟩, ⟨later, h⟩⟩

theorem Yields.of_pure {a b : α} (h : (pure a : Attempt α).Yields b) : b = a := by
  obtain ⟨milestones, h⟩ := h
  exact (Except.ok.inj h).symm

end Attempt

/-- A new player has loaded the plan of a session. -/
theorem Session.exists_load {domainText problemText transcript : String} {settings : Settings}
    {session : Session}
    (h : (ofTexts domainText problemText transcript settings).outcome.1 = .ok session) :
    ∃ plan context, session.player = ((Player.ofSettings settings).load plan context).1 := by
  have hyields : (ofTexts domainText problemText transcript settings).Yields session := ⟨[], h⟩
  obtain ⟨domain, -, hyields⟩ := hyields.of_bind
  obtain ⟨problem, -, hyields⟩ := hyields.of_bind
  obtain ⟨classification, -, hyields⟩ := hyields.of_bind
  obtain ⟨validation, -, hyields⟩ := hyields.of_bind
  obtain ⟨plan, -, hyields⟩ := hyields.of_bind
  obtain ⟨_, -, hyields⟩ := hyields.of_bind
  rw [hyields.of_pure]
  exact ⟨_, _, rfl⟩

end PlanPlayback
