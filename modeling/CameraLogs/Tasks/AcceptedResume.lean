import CameraLogs.Tasks.Ownership
import CameraLogs.Tasks.Resume

/-!
# Whether a resume is lost

The steps of `Resume`, over every act and every run after an accepted resume.
-/

namespace CameraLogs.Tasks

open Relation (ReflTransGen)

variable {records records' : Records} {identifier : OperationId} {act : Act}

/-! ## Every act -/

theorem Act.apply_heeds (h : act.apply records = some records') :
    Heeds identifier act records records' := by
  cases act with
  | control request other resources =>
    obtain ⟨⟨_, operation⟩, hcontrol, rfl⟩ := Option.map_eq_some_iff.1 h
    exact requestControl_heeds (toOption_eq_some.1 hcontrol)
  | edit => exact editTask_heeds (toOption_eq_some.1 h) rfl
  | delete =>
    simp only [Act.apply, deleteTask, toOption_eq_some, bind_eq_ok] at h
    obtain ⟨_, _, h⟩ := h
    cases h
    refine .of_ended ?_ (.inl rfl)
    exact mt resumePending_withTask.1 (not_resumePending_settle rfl (by decide))
  | deleteResource =>
    cases h
    simp only [markResourceDeletion]
    split
    · refine .of_ended ?_ (.inl rfl)
      exact mt resumePending_withTask.1 (not_resumePending_settle rfl (by decide))
    · exact .of_same id rfl rfl
  | restartBlocked => exact requestBlockedRestart_heeds (toOption_eq_some.1 h) rfl
  | isolateTask =>
    obtain rfl | ⟨_, _, _, hfinished, rfl⟩ := confirmTaskIsolation_eq_ok (toOption_eq_some.1 h)
    · exact claimed_heeds
    · exact finishBlockedRun_running hfinished
  | isolateNode => exact confirmNodeIsolation_heeds h
  | claim =>
    simp only [Act.apply, Option.ite_none_right_eq_some] at h
    obtain ⟨-, -, -, -, rfl | ⟨claimed, rfl, -⟩⟩ := claimTask_eq_some h.2
    · exact .withTask rfl rfl
    · exact .of_same (resumePending_of_same bind_operations) rfl rfl
  | consumeFailover =>
    obtain ⟨-, rfl | hfinished⟩ := consumeConfirmedFailover_eq_some h
    · exact claimed_heeds
    · exact finishBlockedRun_heeds hfinished fun hfalse => by cases hfalse
  | consumeRecovery =>
    simp only [Act.apply, Option.ite_none_right_eq_some, consumeAuthorizedRecovery] at h
    obtain ⟨-, h⟩ := h
    split at h
    · cases h
    split at h
    · cases h
    rename_i hready
    have hstopped := (not_not.1 hready).2.2.1
    split at h
    · cases h
      exact .withTask rfl rfl
    split at h
    · cases h
      exact .of_halted id rfl (.inl hstopped)
    · cases h
      exact .of_halted id rfl (.inl hstopped)
  | sweepIntent =>
    obtain ⟨hdeleted, rfl⟩ := updateOne_eq_some.1 h
    exact .of_halted id rfl (.inr hdeleted)
  | sweepStopped =>
    simp only [Act.apply, Tasks.sweepStopped] at h
    split at h
    · cases h
    · obtain ⟨-, rfl⟩ := updateOne_eq_some.1 h
      exact .of_same id rfl rfl
  | write => exact OwnerWrite.apply_heeds h
  | dropReleasedLock | endReleasedRun =>
    obtain ⟨-, rfl⟩ := updateOne_eq_some.1 h
    exact .of_same id rfl rfl
  | recoverPlanned =>
    obtain ⟨-, rfl⟩ := updateOne_eq_some.1 h
    exact .of_same (resumePending_of_same (closeRun_operations records.task.runId)) rfl rfl
  | finalizeClosed =>
    obtain rfl | ⟨_, _, hfinished, hhalted⟩ := finalizeClosedTask_restart h
    · exact claimed_heeds
    · exact finishBlockedRun_heeds hfinished hhalted
  | stopUnresponsive =>
    simp only [Act.apply, Option.ite_none_right_eq_some] at h
    exact stopForResourceHealth_heeds h.2 rfl
  | settle =>
    cases h
    exact .of_same resumePending_settle rfl rfl
  | complete => exact completeRun_heeds h
  | healthFailure =>
    simp only [Act.apply, Option.ite_none_right_eq_some] at h
    exact applyFailure_heeds h.2 rfl
  | healthSuccess =>
    simp only [Act.apply, Option.ite_none_right_eq_some, Option.some.injEq] at h
    obtain ⟨-, rfl⟩ := h
    exact Swapped.heeds applySuccess_swapped
  | userAuthentication =>
    simp only [Act.apply, Option.ite_none_right_eq_some, Option.some.injEq] at h
    obtain ⟨-, rfl⟩ := h
    exact Swapped.heeds grantAfterUserAuthentication_swapped
  | blockStale | reconcileStopped | queue | sweepPaused | markPlannedRestart | preparePending =>
    obtain ⟨-, rfl⟩ := updateOne_eq_some.1 h
    exact .withTask rfl rfl

/-! ## Every run after the resume -/

/-- A resume that is pending belongs to a task that is there and is to run. -/
def Heeded (identifier : OperationId) (records : Records) : Prop :=
  records.ResumePending identifier →
    records.task.desiredState = .running ∧ records.task.deleted = false

theorem HeedfulStep.heeded (hstep : HeedfulStep identifier records records')
    (h : Heeded identifier records) : Heeded identifier records' := by
  obtain ⟨act, hfails, hheeds, hact⟩ := hstep
  have hstep : Heeds identifier act records records' := Act.apply_heeds hact
  intro hpends'
  obtain hpends | hrunning := hstep.pending hpends'
  · obtain ⟨hrunning, hthere⟩ := h hpends
    obtain hkept | ⟨hended, -⟩ := hstep.follows hrunning hthere hfails (hheeds hpends)
    · exact ⟨hkept, hstep.deleted hthere hpends'⟩
    · exact absurd hpends' hended
  · exact hrunning

/-- The resume of a paused task leaves a task that is there and is to run. -/
theorem resume_running {resources : Resources} {operation : Operation}
    (hpaused : records.task.status = .paused)
    (h : requestControl records .running true identifier resources = .ok (records', operation)) :
    records'.task.desiredState = .running ∧ records'.task.deleted = false := by
  obtain ⟨hthere, hcases⟩ := @requestControl_eq_ok _ _ .resume _ _ _ h
  have hthere : records.task.deleted = false := hthere (by decide)
  obtain ⟨hreplayed, rfl⟩ | ⟨-, -, -, -, rfl⟩ | ⟨-, -, moved, hmoved, rfl⟩ := hcases
  · refine ⟨?_, hthere⟩
    obtain hprevious | ⟨-, hwaiting⟩ := hreplayed
    · by_contra hdesired
      exact hprevious (if_pos hdesired)
    · cases hwaiting.symm.trans hpaused
  · exact ⟨rfl, hthere⟩
  · exact ⟨rfl, (localTransition_deleted hmoved).trans hthere⟩

/-- From the resume of a paused task on, as long as its device is not swapped while it is paused
or a node has it, the task is to run for as long as the resume is pending; and each step
leaves it so, or ends the resume, exactly if it is no such swap. -/
theorem resume_heeded (records resumed state : Records) (identifier : OperationId)
    (resources : Resources) (operation : Operation) (hpaused : records.task.status = .paused)
    (haccepted : requestControl records .running true identifier resources =
      .ok (resumed, operation))
    (hrun : ReflTransGen (HeedfulStep operation.id) resumed state) :
    (state.ResumePending operation.id → state.task.desiredState = .running) ∧
    ∀ (act : Act) (state' : Records), act.fails = false → act.apply state = some state' →
      state.ResumePending operation.id →
        (Follows operation.id act state state' ↔ ¬act.Disregards state.task) := by
  have hheeded : Heeded operation.id state := by
    refine Lib.sticky (fun _ _ => HeedfulStep.heeded) hrun fun _ => ?_
    exact resume_running hpaused haccepted
  refine ⟨fun hpends => (hheeded hpends).1, ?_⟩
  intro act state' hfails hact hpends
  obtain ⟨hrunning, hthere⟩ := hheeded hpends
  refine ⟨fun hfollows hdisregards => ?_, (Act.apply_heeds hact).follows hrunning hthere hfails⟩
  have hswapped := Act.apply_swapped hact hdisregards.1
  exact hswapped.not_follows hrunning hpends hdisregards hfollows

/-! A task that is claimed, paused and resumed; its device answers, and the task is paused with
the intent to run. -/

def pausedActs : List Act :=
  [claimNew 7 1, .control .pause 1 onlineDevice, .write .pausePending ⟨7, 1, 1⟩]

theorem resume_heeded_probed :
    ∃ records resumed operation state, runActs pausedActs newRecords = some records ∧
      requestControl records .running true 2 onlineDevice = .ok (resumed, operation) ∧
      (Act.healthSuccess 0 false false true).apply resumed = some state ∧
      state.task.status = .paused ∧ state.task.desiredState = .running := by
  have hrun : ∃ records resumed operation state, runActs pausedActs newRecords = some records ∧
      records.task.status = .paused ∧
      requestControl records .running true 2 onlineDevice = .ok (resumed, operation) ∧
      (Act.healthSuccess 0 false false true).apply resumed = some state ∧
      state.task.status = .paused ∧ state.ResumePending operation.id :=
    ⟨_, _, _, _, rfl, rfl, rfl, rfl, rfl, by decide⟩
  obtain ⟨records, resumed, operation, state, hrecords, hpaused, haccepted, hprobed, hstatus,
    hpends⟩ := hrun
  have hstep : HeedfulStep operation.id resumed state := by
    refine ⟨.healthSuccess 0 false false true, rfl, fun _ => ?_, hprobed⟩
    simp [Act.Disregards, Act.swapsDevice]
  exact ⟨records, resumed, operation, state, hrecords, haccepted, hprobed, hstatus,
    (resume_heeded records resumed state 2 onlineDevice operation hpaused haccepted
      (.single hstep)).1 hpends⟩

/-- Then the device turns out to be another one before a node is free for the task. -/
theorem resume_disregarded :
    ∃ records resumed operation state, Lib.Reachable Initial Step records ∧
      records.task.status = .paused ∧
      requestControl records .running true 2 onlineDevice = .ok (resumed, operation) ∧
      runActs [.healthSuccess 0 false false true, .healthSuccess 0 true false true] resumed =
        some state ∧
      state.task.desiredState = .paused ∧ state.ResumePending operation.id := by
  have hrun : ∃ records resumed operation state, runActs pausedActs newRecords = some records ∧
      records.task.status = .paused ∧
      requestControl records .running true 2 onlineDevice = .ok (resumed, operation) ∧
      runActs [.healthSuccess 0 false false true, .healthSuccess 0 true false true] resumed =
        some state ∧
      state.task.desiredState = .paused ∧ state.ResumePending operation.id :=
    ⟨_, _, _, _, rfl, rfl, rfl, rfl, rfl, by decide⟩
  obtain ⟨records, resumed, operation, state, hrecords, hrest⟩ := hrun
  exact ⟨records, resumed, operation, state, ⟨_, newRecords_initial, runActs_reaches hrecords⟩,
    hrest⟩

end CameraLogs.Tasks
