import CameraLogs.Tasks.Ownership

/-!
# A paused task has no node

Neither has one that waits for its device. Whatever writes one of the two states takes the
node away in the same write, or has made sure that there is none.
-/

namespace CameraLogs.Tasks

open Lib

variable {records records' : Records}

/-- Paused, or about to be resumed once the device answers. -/
def Task.AtRest (task : Task) : Prop := task.status = .paused ∨ task.status = .waitingDevice

/-- A task at rest is on no node. -/
def Rests (task : Task) : Prop := task.AtRest → task.nodeId = none

theorem Rests.of_none {task : Task} (h : task.nodeId = none) : Rests task := fun _ => h

theorem Rests.of_status {task : Task} (hpaused : task.status ≠ .paused)
    (hwaiting : task.status ≠ .waitingDevice) : Rests task :=
  fun hrest => (hrest.elim hpaused hwaiting).elim

/-- An update that leaves the state and the node alone. -/
theorem Rests.of_same {task task' : Task} (h : Rests task) (hstatus : task'.status = task.status)
    (hnode : task'.nodeId = task.nodeId) : Rests task' := by
  intro hrest
  rw [hnode]
  refine h ?_
  unfold Task.AtRest at hrest ⊢
  rwa [hstatus] at hrest

/-! ## The functions, one by one -/

theorem localTransition_rests {desired : DesiredState}
    (h : localTransition records desired = .ok records') (hrests : Rests records.task) :
    Rests records'.task := by
  obtain ⟨rfl, -⟩ | ⟨-, hnone, rfl⟩ | ⟨-, hnone, -, rfl⟩ | ⟨-, hnone, -, rfl⟩ | ⟨-, hnone, -, rfl⟩ :=
    localTransition_eq_ok h
  · exact hrests
  all_goals exact .of_none hnone

theorem requestControl_rests {request : Request} {identifier : OperationId}
    {resources : Resources} {operation : Operation}
    (h : requestControl records request.desired request.requirePaused identifier resources =
      .ok (records', operation)) (hrests : Rests records.task) : Rests records'.task := by
  obtain ⟨-, ⟨-, rfl⟩ | ⟨-, -, hnone, -, rfl⟩ | ⟨-, -, moved, hmoved, rfl⟩⟩ := requestControl_eq_ok h
  · exact hrests.of_same rfl rfl
  · exact .of_none hnone
  · exact (localTransition_rests hmoved (hrests.of_same rfl rfl)).of_same rfl rfl

theorem editTask_rests {version : Nat} {behavioral clear : Bool} {document : TaskDocument}
    {identifier : OperationId} {identifiers : List ResourceId} {resources : Resources}
    {sameIdentity : ResourceId → Bool}
    (h : editTask records version behavioral clear document identifier identifiers resources
      sameIdentity = .ok records') (hrests : Rests records.task) : Rests records'.task := by
  obtain ⟨-, edited, hedited, rfl⟩ := editTask_eq_ok h
  obtain rfl | ⟨-, rfl⟩ | ⟨-, rfl⟩ := editIntent_eq_ok hedited <;> exact hrests.of_same rfl rfl

theorem finishBlockedRun_rests {restart : Bool} {operationId : Option OperationId}
    (h : finishBlockedRun records restart operationId = .ok records') : Rests records'.task := by
  obtain ⟨-, operations, rfl⟩ := finishBlockedRun_eq_ok h
  exact .of_none rfl

theorem claimTask_rests {status : Status} {runId : Option RunId} {newRun : RunId}
    {nodeId : NodeId} {admitted : Bool} {resources : Resources}
    (h : claimTask records status runId newRun nodeId admitted resources = some records') :
    Rests records'.task := by
  obtain ⟨-, -, -, -, rfl | ⟨claimed, rfl, -⟩⟩ := claimTask_eq_some h
  · exact .of_status (by simp) (by simp)
  · exact .of_status (by simp [Records.bind]) (by simp [Records.bind])

theorem confirmNodeIsolation_rests {nodeId : NodeId}
    (h : confirmNodeIsolation records nodeId = some records') : Rests records'.task := by
  simp only [confirmNodeIsolation] at h
  split at h
  · cases h
  split at h
  · cases h
    exact .of_none rfl
  · cases h
    split <;> exact .of_none rfl

theorem OwnerWrite.apply_rests {write : OwnerWrite} {owner : Owner}
    (h : write.apply owner records = some records') (hrests : Rests records.task) :
    Rests records'.task := by
  cases write with
  | prepare marker =>
    simp only [OwnerWrite.apply] at h
    split at h
    · cases h
    · obtain ⟨-, rfl⟩ := updateOne_eq_some.1 h
      exact hrests.of_same rfl rfl
  | runtimeState state sessionId =>
    obtain ⟨-, rfl⟩ := updateOne_eq_some.1 h
    cases state <;> exact .of_status (by simp [RuntimeState.status]) (by simp [RuntimeState.status])
  | restartPending | restart | closedReceipt =>
    obtain ⟨-, rfl⟩ := updateOne_eq_some.1 h
    exact hrests.of_same rfl rfl
  | pause | pausePending | stopPending | detach =>
    obtain ⟨-, rfl⟩ := updateOne_eq_some.1 h
    exact .of_none rfl
  | pausing | block | fence | closing =>
    obtain ⟨-, rfl⟩ := updateOne_eq_some.1 h
    exact .of_status (by simp) (by simp)

theorem completeRun_rests {marker : DeploymentMarker}
    (h : completeRun records marker = some records') (hrests : Rests records.task) :
    Rests records'.task := by
  obtain ⟨run, -, -, ⟨-, rfl⟩ | ⟨-, rfl⟩⟩ := completeRun_eq_some h
  · exact hrests
  · refine .of_none ?_
    simp only [Task.deployed, Records.withTask_task]
    split <;> rfl

theorem stopForResourceHealth_rests {owner : Option Owner} {claimVersion : Nat}
    {identifier : ResourceId} {resource : Resource} {operationId : OperationId}
    (h : stopForResourceHealth records owner claimVersion identifier resource operationId =
      some records') (hrests : Rests records.task) : Rests records'.task := by
  obtain ⟨-, _, _, rfl⟩ := stopForResourceHealth_eq_some h
  exact hrests.of_same rfl rfl

theorem applyFailure_rests {identifier : ResourceId} {resource : Resource}
    {operationId : OperationId}
    (h : applyFailure records identifier resource operationId = some records')
    (hrests : Rests records.task) : Rests records'.task := by
  obtain ⟨_, -, rfl⟩ | hstop := applyFailure_eq_some h
  · exact hrests.of_same rfl rfl
  · exact stopForResourceHealth_rests hstop hrests

theorem transitionIdentityTask_rests (hrests : Rests records.task) :
    Rests (transitionIdentityTask records).task := by
  simp only [transitionIdentityTask]
  split
  · exact hrests
  split
  · exact hrests.of_same rfl rfl
  split
  · exact hrests.of_same rfl rfl
  split
  · exact hrests.of_same rfl rfl
  · exact hrests

theorem authorizeHealthRecoveries_rests {identifier : ResourceId} (hrests : Rests records.task) :
    Rests (authorizeHealthRecoveries records identifier).task := by
  simp only [authorizeHealthRecoveries]
  split
  · exact hrests
  · split
    · exact hrests.of_same rfl rfl
    · exact hrests

theorem grantAfterUserAuthentication_rests {identifier : ResourceId} {identityChanged : Bool}
    (hrests : Rests records.task) :
    Rests (grantAfterUserAuthentication records identifier identityChanged).task := by
  simp only [grantAfterUserAuthentication]
  have hmoved : Rests
      (if records.task.resourceId = identifier ∧ identityChanged = true then
        transitionIdentityTask records else records).task := by
    split
    · exact transitionIdentityTask_rests hrests
    · exact hrests
  split
  · exact hrests
  split
  · exact hmoved
  split
  · exact hmoved.of_same rfl rfl
  · exact hmoved

theorem resumeAfterProbe_rests {identifier : ResourceId} {timely : Bool}
    (hrests : Rests records.task) : Rests (resumeAfterProbe records identifier timely).task := by
  simp only [resumeAfterProbe]
  split
  · exact hrests
  · split
    · rename_i hwaiting
      exact .of_none (hrests (.inr hwaiting.2.1))
    · exact hrests

theorem applySuccess_rests {identifier : ResourceId}
    {identityChanged authorizeUserRecovery timely : Bool} (hrests : Rests records.task) :
    Rests (applySuccess records identifier identityChanged authorizeUserRecovery timely).task := by
  simp only [applySuccess]
  refine resumeAfterProbe_rests ?_
  have hmoved : Rests (if identityChanged = true ∧ records.task.linked identifier ∧
      records.task.deleted = false then transitionIdentityTask records else records).task := by
    split
    · exact transitionIdentityTask_rests hrests
    · exact hrests
  split
  · exact grantAfterUserAuthentication_rests (authorizeHealthRecoveries_rests hmoved)
  · exact authorizeHealthRecoveries_rests hmoved

theorem consumeAuthorizedRecovery_rests {identifier : ResourceId} {resource : Resource}
    (h : consumeAuthorizedRecovery records identifier resource = some records') :
    Rests records'.task := by
  simp only [consumeAuthorizedRecovery] at h
  split at h
  · cases h
  split at h
  · cases h
  rename_i hready
  have hnone := (not_not.1 hready).2.2.2.2.2.2.1
  split at h
  · cases h
    exact .of_none hnone
  split at h
  · cases h
    exact .of_none hnone
  · cases h
    exact .of_none hnone

/-! ## Every act, every reachable state -/

theorem Act.apply_rests {act : Act} (h : act.apply records = some records')
    (hrests : Rests records.task) : Rests records'.task := by
  cases act with
  | control request identifier resources =>
    obtain ⟨⟨_, operation⟩, hcontrol, rfl⟩ := Option.map_eq_some_iff.1 h
    exact requestControl_rests (toOption_eq_some.1 hcontrol) hrests
  | edit => exact editTask_rests (toOption_eq_some.1 h) hrests
  | delete =>
    simp only [Act.apply, deleteTask, toOption_eq_some, bind_eq_ok] at h
    obtain ⟨_, _, h⟩ := h
    cases h
    exact hrests.of_same rfl rfl
  | deleteResource =>
    cases h
    simp only [markResourceDeletion]
    split
    · exact hrests.of_same rfl rfl
    · exact hrests
  | restartBlocked =>
    obtain rfl | ⟨_, _, _, hfinished, rfl⟩ | ⟨_, rfl⟩ :=
      requestBlockedRestart_eq_ok (toOption_eq_some.1 h)
    · exact hrests.of_same rfl rfl
    · exact (finishBlockedRun_rests hfinished).of_same rfl rfl
    · exact hrests.of_same rfl rfl
  | isolateTask =>
    obtain rfl | ⟨_, _, _, hfinished, rfl⟩ := confirmTaskIsolation_eq_ok (toOption_eq_some.1 h)
    · exact hrests.of_same rfl rfl
    · exact (finishBlockedRun_rests hfinished).of_same rfl rfl
  | isolateNode => exact confirmNodeIsolation_rests h
  | claim =>
    simp only [Act.apply, Option.ite_none_right_eq_some] at h
    exact claimTask_rests h.2
  | consumeFailover =>
    obtain ⟨-, rfl | hfinished⟩ := consumeConfirmedFailover_eq_some h
    · exact hrests.of_same rfl rfl
    · exact finishBlockedRun_rests hfinished
  | consumeRecovery =>
    simp only [Act.apply, Option.ite_none_right_eq_some] at h
    exact consumeAuthorizedRecovery_rests h.2
  | sweepStopped =>
    simp only [Act.apply, Tasks.sweepStopped] at h
    split at h
    · cases h
    · obtain ⟨-, rfl⟩ := updateOne_eq_some.1 h
      exact hrests
  | write => exact OwnerWrite.apply_rests h hrests
  | finalizeClosed =>
    obtain rfl | ⟨_, _, hfinished, -⟩ := finalizeClosedTask_eq_some h
    · exact hrests.of_same rfl rfl
    · exact finishBlockedRun_rests hfinished
  | stopUnresponsive =>
    simp only [Act.apply, Option.ite_none_right_eq_some] at h
    exact stopForResourceHealth_rests h.2 hrests
  | settle =>
    cases h
    exact hrests
  | complete => exact completeRun_rests h hrests
  | healthFailure =>
    simp only [Act.apply, Option.ite_none_right_eq_some] at h
    exact applyFailure_rests h.2 hrests
  | healthSuccess =>
    simp only [Act.apply, Option.ite_none_right_eq_some, Option.some.injEq] at h
    obtain ⟨-, rfl⟩ := h
    exact applySuccess_rests hrests
  | userAuthentication =>
    simp only [Act.apply, Option.ite_none_right_eq_some, Option.some.injEq] at h
    obtain ⟨-, rfl⟩ := h
    exact grantAfterUserAuthentication_rests hrests
  | dropReleasedLock | endReleasedRun =>
    obtain ⟨-, rfl⟩ := updateOne_eq_some.1 h
    exact hrests
  | sweepIntent | markPlannedRestart =>
    obtain ⟨-, rfl⟩ := updateOne_eq_some.1 h
    exact hrests.of_same rfl rfl
  | recoverPlanned | preparePending =>
    obtain ⟨-, rfl⟩ := updateOne_eq_some.1 h
    exact .of_none rfl
  | blockStale | reconcileStopped | queue | sweepPaused =>
    obtain ⟨-, rfl⟩ := updateOne_eq_some.1 h
    exact .of_status (by simp) (by simp)

theorem reachable_rests (h : Reachable Initial Step records) : Rests records.task := by
  refine h.invariant (I := fun records => Rests records.task)
    (fun records hinit => .of_none hinit.nodeId) ?_
  intro records records' hstep hrests
  obtain ⟨act, hact⟩ := hstep
  exact Act.apply_rests hact hrests

end CameraLogs.Tasks
