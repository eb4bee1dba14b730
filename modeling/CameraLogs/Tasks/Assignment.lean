import CameraLogs.Tasks.System

/-!
# Who gives a task to a node

Only a claim does. Every other act leaves the node of a task as it is or takes it away.
-/

namespace CameraLogs.Tasks

variable {records records' : Records} {task task' : Task}

/-- The task keeps its node or loses it. -/
def Unassigns (task task' : Task) : Prop :=
  task'.nodeId = task.nodeId ∨ task'.nodeId = none

theorem Unassigns.refl : Unassigns task task := .inl rfl

theorem Unassigns.trans {middle : Task} (h : Unassigns task middle)
    (h' : Unassigns middle task') : Unassigns task task' := by
  obtain hsame | hnone := h'
  · unfold Unassigns
    rw [hsame]
    exact h
  · exact .inr hnone

/-! ## The functions, one by one -/

theorem localTransition_unassigns {desired : DesiredState}
    (h : localTransition records desired = .ok records') :
    Unassigns records.task records'.task := by
  obtain ⟨rfl, -⟩ | ⟨-, -, rfl⟩ | ⟨-, -, -, rfl⟩ | ⟨-, -, -, rfl⟩ | ⟨-, -, -, rfl⟩ :=
    localTransition_eq_ok h <;> exact .inl rfl

theorem requestControl_unassigns {request : Request} {identifier : OperationId}
    {resources : Resources} {operation : Operation}
    (h : requestControl records request.desired request.requirePaused identifier resources =
      .ok (records', operation)) : Unassigns records.task records'.task := by
  obtain ⟨-, ⟨-, rfl⟩ | ⟨-, -, -, -, rfl⟩ | ⟨-, -, moved, hmoved, rfl⟩⟩ := requestControl_eq_ok h
  · exact .inl rfl
  · exact .inl rfl
  · have hkept := localTransition_unassigns hmoved
    exact hkept

theorem editTask_unassigns {version : Nat} {behavioral clear : Bool} {document : TaskDocument}
    {identifier : OperationId} {identifiers : List ResourceId} {resources : Resources}
    {sameIdentity : ResourceId → Bool}
    (h : editTask records version behavioral clear document identifier identifiers resources
      sameIdentity = .ok records') : Unassigns records.task records'.task := by
  obtain ⟨-, edited, hedited, rfl⟩ := editTask_eq_ok h
  obtain rfl | ⟨-, rfl⟩ | ⟨-, rfl⟩ := editIntent_eq_ok hedited <;> exact .inl rfl

theorem finishBlockedRun_unassigns {restart : Bool} {operationId : Option OperationId}
    (h : finishBlockedRun records restart operationId = .ok records') :
    records'.task.nodeId = none := by
  obtain ⟨-, operations, rfl⟩ := finishBlockedRun_eq_ok h
  rfl

theorem confirmNodeIsolation_unassigns {nodeId : NodeId}
    (h : confirmNodeIsolation records nodeId = some records') : records'.task.nodeId = none := by
  simp only [confirmNodeIsolation] at h
  split at h
  · cases h
  split at h
  · cases h
    rfl
  · cases h
    split <;> rfl

theorem OwnerWrite.apply_unassigns {write : OwnerWrite} {owner : Owner}
    (h : write.apply owner records = some records') : Unassigns records.task records'.task := by
  cases write with
  | prepare marker =>
    simp only [OwnerWrite.apply] at h
    split at h
    · cases h
    · obtain ⟨-, rfl⟩ := updateOne_eq_some.1 h
      exact .inl rfl
  | closing failed =>
    obtain ⟨-, rfl⟩ := updateOne_eq_some.1 h
    cases failed <;> exact .inl rfl
  | pause | pausePending | stopPending | detach =>
    obtain ⟨-, rfl⟩ := updateOne_eq_some.1 h
    exact .inr rfl
  | runtimeState | pausing | block | restartPending | closedReceipt | fence | restart =>
    obtain ⟨-, rfl⟩ := updateOne_eq_some.1 h
    exact .inl rfl

theorem completeRun_unassigns {marker : DeploymentMarker}
    (h : completeRun records marker = some records') : Unassigns records.task records'.task := by
  obtain ⟨run, -, -, ⟨-, rfl⟩ | ⟨-, rfl⟩⟩ := completeRun_eq_some h
  · exact .inl rfl
  · simp only [Records.withTask_task, Task.deployed]
    split <;> exact .inr rfl

theorem stopForResourceHealth_unassigns {owner : Option Owner} {claimVersion : Nat}
    {identifier : ResourceId} {resource : Resource} {operationId : OperationId}
    (h : stopForResourceHealth records owner claimVersion identifier resource operationId =
      some records') : Unassigns records.task records'.task := by
  obtain ⟨-, _, _, rfl⟩ := stopForResourceHealth_eq_some h
  exact .inl rfl

theorem applyFailure_unassigns {identifier : ResourceId} {resource : Resource}
    {operationId : OperationId}
    (h : applyFailure records identifier resource operationId = some records') :
    Unassigns records.task records'.task := by
  obtain ⟨_, -, rfl⟩ | hstop := applyFailure_eq_some h
  · exact .inl rfl
  · exact stopForResourceHealth_unassigns hstop

theorem transitionIdentityTask_unassigns :
    Unassigns records.task (transitionIdentityTask records).task := by
  simp only [transitionIdentityTask]
  split
  · exact .refl
  split
  · exact .inl rfl
  split
  · exact .inl rfl
  split
  · exact .inl rfl
  · exact .refl

theorem authorizeHealthRecoveries_unassigns {identifier : ResourceId} :
    Unassigns records.task (authorizeHealthRecoveries records identifier).task := by
  simp only [authorizeHealthRecoveries]
  split
  · exact .refl
  · split
    · exact .inl rfl
    · exact .refl

theorem grantAfterUserAuthentication_unassigns {identifier : ResourceId}
    {identityChanged : Bool} :
    Unassigns records.task
      (grantAfterUserAuthentication records identifier identityChanged).task := by
  simp only [grantAfterUserAuthentication]
  have hmoved : Unassigns records.task
      (if records.task.resourceId = identifier ∧ identityChanged = true then
        transitionIdentityTask records else records).task := by
    split
    · exact transitionIdentityTask_unassigns
    · exact .refl
  split
  · exact .refl
  split
  · exact hmoved
  split
  · exact hmoved
  · exact hmoved

theorem resumeAfterProbe_unassigns {identifier : ResourceId} {timely : Bool} :
    Unassigns records.task (resumeAfterProbe records identifier timely).task := by
  simp only [resumeAfterProbe]
  split
  · exact .refl
  · split
    · exact .inl rfl
    · exact .refl

theorem applySuccess_unassigns {identifier : ResourceId}
    {identityChanged authorizeUserRecovery timely : Bool} :
    Unassigns records.task
      (applySuccess records identifier identityChanged authorizeUserRecovery timely).task := by
  simp only [applySuccess]
  refine Unassigns.trans ?_ resumeAfterProbe_unassigns
  have hmoved : Unassigns records.task (if identityChanged = true ∧
      records.task.linked identifier ∧ records.task.deleted = false then
        transitionIdentityTask records else records).task := by
    split
    · exact transitionIdentityTask_unassigns
    · exact .refl
  split
  · exact (hmoved.trans authorizeHealthRecoveries_unassigns).trans
      grantAfterUserAuthentication_unassigns
  · exact hmoved.trans authorizeHealthRecoveries_unassigns

theorem consumeAuthorizedRecovery_unassigns {identifier : ResourceId} {resource : Resource}
    (h : consumeAuthorizedRecovery records identifier resource = some records') :
    Unassigns records.task records'.task := by
  simp only [consumeAuthorizedRecovery] at h
  split at h
  · cases h
  split at h
  · cases h
  split at h
  · cases h
    exact .inl rfl
  split at h
  · cases h
    exact .inl rfl
  · cases h
    exact .inl rfl

/-! ## Every act but a claim -/

def Act.isClaim : Act → Bool
  | .claim .. => true
  | _ => false

theorem Act.apply_unassigns {act : Act} (h : act.apply records = some records')
    (hclaim : act.isClaim = false) : Unassigns records.task records'.task := by
  cases act with
  | control request identifier resources =>
    obtain ⟨⟨_, operation⟩, hcontrol, rfl⟩ := Option.map_eq_some_iff.1 h
    exact requestControl_unassigns (toOption_eq_some.1 hcontrol)
  | edit => exact editTask_unassigns (toOption_eq_some.1 h)
  | delete =>
    simp only [Act.apply, deleteTask, toOption_eq_some, bind_eq_ok] at h
    obtain ⟨_, _, h⟩ := h
    cases h
    exact .inl rfl
  | deleteResource =>
    cases h
    simp only [markResourceDeletion]
    split
    · exact .inl rfl
    · exact .refl
  | restartBlocked =>
    obtain rfl | ⟨_, _, _, hfinished, rfl⟩ | ⟨_, rfl⟩ :=
      requestBlockedRestart_eq_ok (toOption_eq_some.1 h)
    · exact .inl rfl
    · have hnone := finishBlockedRun_unassigns hfinished
      exact .inr hnone
    · exact .inl rfl
  | isolateTask =>
    obtain rfl | ⟨_, _, _, hfinished, rfl⟩ := confirmTaskIsolation_eq_ok (toOption_eq_some.1 h)
    · exact .inl rfl
    · have hnone := finishBlockedRun_unassigns hfinished
      exact .inr hnone
  | isolateNode => exact .inr (confirmNodeIsolation_unassigns h)
  | claim => cases hclaim
  | consumeFailover =>
    obtain ⟨-, rfl | hfinished⟩ := consumeConfirmedFailover_eq_some h
    · exact .inl rfl
    · exact .inr (finishBlockedRun_unassigns hfinished)
  | consumeRecovery =>
    simp only [Act.apply, Option.ite_none_right_eq_some] at h
    exact consumeAuthorizedRecovery_unassigns h.2
  | sweepStopped =>
    simp only [Act.apply, Tasks.sweepStopped] at h
    split at h
    · cases h
    · obtain ⟨-, rfl⟩ := updateOne_eq_some.1 h
      exact .refl
  | write => exact OwnerWrite.apply_unassigns h
  | finalizeClosed =>
    obtain rfl | ⟨_, _, hfinished, -⟩ := finalizeClosedTask_eq_some h
    · exact .inl rfl
    · exact .inr (finishBlockedRun_unassigns hfinished)
  | stopUnresponsive =>
    simp only [Act.apply, Option.ite_none_right_eq_some] at h
    exact stopForResourceHealth_unassigns h.2
  | settle =>
    cases h
    exact .refl
  | complete => exact completeRun_unassigns h
  | healthFailure =>
    simp only [Act.apply, Option.ite_none_right_eq_some] at h
    exact applyFailure_unassigns h.2
  | healthSuccess =>
    simp only [Act.apply, Option.ite_none_right_eq_some, Option.some.injEq] at h
    obtain ⟨-, rfl⟩ := h
    exact applySuccess_unassigns
  | userAuthentication =>
    simp only [Act.apply, Option.ite_none_right_eq_some, Option.some.injEq] at h
    obtain ⟨-, rfl⟩ := h
    exact grantAfterUserAuthentication_unassigns
  | recoverPlanned | preparePending =>
    obtain ⟨-, rfl⟩ := updateOne_eq_some.1 h
    exact .inr rfl
  | dropReleasedLock | endReleasedRun | blockStale | reconcileStopped | queue | sweepIntent
  | sweepPaused | markPlannedRestart =>
    obtain ⟨-, rfl⟩ := updateOne_eq_some.1 h
    exact .inl rfl

end CameraLogs.Tasks
