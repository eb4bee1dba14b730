import CameraLogs.Tasks.Rest
import CameraLogs.Tasks.Supervision

/-!
# What an act spares

A runtime announces each connection by a write under its owner, and from then on the task
*carries* that owner and that session. No act that goes by its own filters takes such a task
away: a receipt would have to be of this very session, and a pending task has announced
nothing.
-/

namespace CameraLogs.Tasks

open Lib

variable {records records' : Records} {task task' : Task}

/-- The task is in the hands of an owner who may have this session open. -/
structure Carries (owner : Owner) (session : SessionId) (task : Task) : Prop where
  filter : ownerFilter owner task
  sessionId : task.sessionId = some session
  status : task.status ≠ .pending
  receipts : ∀ receipt ∈ task.closedReceipt, receipt.sessionId ≠ session

theorem Carries.nodeId_ne {owner : Owner} {session : SessionId} (h : Carries owner session task) :
    task.nodeId ≠ none := by
  rw [h.filter.2.1]
  exact Option.some_ne_none _

theorem Carries.not_closed {owner : Owner} {session : SessionId}
    (h : Carries owner session task) : ¬matchingClosedReceipt task := by
  intro hclosed
  unfold matchingClosedReceipt at hclosed
  obtain ⟨receipt, hreceipt, hmatch⟩ := (Option.any_eq_true _ _).1 hclosed
  have hsession := (of_decide_eq_true hmatch).2.2.2
  rw [h.sessionId] at hsession
  exact h.receipts receipt hreceipt (Option.some.inj hsession).symm

/-- What a write leaves of it: a session that is carried goes on being carried. -/
structure Spares (task task' : Task) : Prop where
  carries : ∀ owner session, Carries owner session task → Carries owner session task'
  session : task'.sessionId = task.sessionId ∨ task'.sessionId = none
  receipt : task'.closedReceipt = task.closedReceipt ∨ task'.closedReceipt = none

theorem Spares.refl : Spares task task := ⟨fun _ _ => id, .inl rfl, .inl rfl⟩

theorem Spares.trans {middle : Task} (h : Spares task middle) (h' : Spares middle task') :
    Spares task task' where
  carries := fun owner session hcarries => h'.carries owner session (h.carries owner session hcarries)
  session := by
    obtain hsame | hnone := h'.session
    · rw [hsame]
      exact h.session
    · exact .inr hnone
  receipt := by
    obtain hsame | hnone := h'.receipt
    · rw [hsame]
      exact h.receipt
    · exact .inr hnone

/-- The owner, the session and the receipt stay, and the task does not begin to queue. -/
theorem Spares.of_same (hrun : task'.runId = task.runId) (hnode : task'.nodeId = task.nodeId)
    (hgeneration : task'.generation = task.generation)
    (hsession : task'.sessionId = task.sessionId)
    (hreceipt : task'.closedReceipt = task.closedReceipt)
    (hstatus : task'.status = task.status ∨ task'.status ≠ .pending) : Spares task task' where
  carries := by
    intro owner session hcarries
    refine ⟨?_, hsession.trans hcarries.sessionId, ?_, by rw [hreceipt]; exact hcarries.receipts⟩
    · have howner := hcarries.filter
      unfold ownerFilter at howner ⊢
      rwa [hrun, hnode, hgeneration]
    · obtain hsame | hmoved := hstatus
      · rw [hsame]
        exact hcarries.status
      · exact hmoved
  session := .inl hsession
  receipt := .inl hreceipt

/-- Nobody has the task that is written, or it is proved that nobody does. -/
theorem Spares.of_idle (hidle : ∀ owner session, ¬Carries owner session task)
    (hsession : task'.sessionId = task.sessionId ∨ task'.sessionId = none)
    (hreceipt : task'.closedReceipt = task.closedReceipt ∨ task'.closedReceipt = none) :
    Spares task task' :=
  ⟨fun owner session hcarries => absurd hcarries (hidle owner session), hsession, hreceipt⟩

theorem not_carries_of_none (hnode : task.nodeId = none) (owner : Owner) (session : SessionId) :
    ¬Carries owner session task :=
  fun hcarries => hcarries.nodeId_ne hnode

theorem not_carries_of_closed (hclosed : matchingClosedReceipt task) (owner : Owner)
    (session : SessionId) : ¬Carries owner session task :=
  fun hcarries => hcarries.not_closed hclosed

/-! ## The functions, one by one -/

theorem claimControl_spares (desired : DesiredState) :
    Spares records.task (claimControl records desired).task :=
  .of_same rfl rfl rfl rfl rfl (.inl rfl)

theorem localTransition_spares {desired : DesiredState}
    (h : localTransition records desired = .ok records') : Spares records.task records'.task := by
  obtain ⟨rfl, -⟩ | ⟨-, hnone, rfl⟩ | ⟨-, hnone, -, rfl⟩ | ⟨-, hnone, -, rfl⟩ | ⟨-, hnone, -, rfl⟩ :=
    localTransition_eq_ok h
  · exact .refl
  · exact .of_idle (not_carries_of_none hnone) (.inl rfl) (.inl rfl)
  · exact .of_idle (not_carries_of_none hnone) (.inl rfl) (.inl rfl)
  · exact .of_idle (not_carries_of_none hnone) (.inr rfl) (.inl rfl)
  · exact .of_idle (not_carries_of_none hnone) (.inl rfl) (.inl rfl)

theorem requestControl_spares {request : Request} {identifier : OperationId}
    {resources : Resources} {operation : Operation}
    (h : requestControl records request.desired request.requirePaused identifier resources =
      .ok (records', operation)) : Spares records.task records'.task := by
  obtain ⟨-, ⟨-, rfl⟩ | ⟨-, -, hnone, -, rfl⟩ | ⟨-, -, moved, hmoved, rfl⟩⟩ := requestControl_eq_ok h
  · exact claimControl_spares _
  · exact .of_idle (not_carries_of_none hnone) (.inl rfl) (.inl rfl)
  · refine ((claimControl_spares _).trans (localTransition_spares hmoved)).trans ?_
    exact .of_same rfl rfl rfl rfl rfl (.inl rfl)

theorem editTask_spares {version : Nat} {behavioral clear : Bool} {document : TaskDocument}
    {identifier : OperationId} {identifiers : List ResourceId} {resources : Resources}
    {sameIdentity : ResourceId → Bool}
    (h : editTask records version behavioral clear document identifier identifiers resources
      sameIdentity = .ok records') : Spares records.task records'.task := by
  obtain ⟨-, edited, hedited, rfl⟩ := editTask_eq_ok h
  obtain rfl | ⟨-, rfl⟩ | ⟨-, rfl⟩ := editIntent_eq_ok hedited <;>
    exact .of_same rfl rfl rfl rfl rfl (.inl rfl)

theorem finishBlockedRun_spares {restart : Bool} {operationId : Option OperationId}
    (h : finishBlockedRun records restart operationId = .ok records')
    (hclosed : matchingClosedReceipt records.task) : Spares records.task records'.task := by
  obtain ⟨-, operations, rfl⟩ := finishBlockedRun_eq_ok h
  exact .of_idle (not_carries_of_closed hclosed) (.inl rfl) (.inl rfl)

theorem claimed_spares : Spares records.task records.claimed.task :=
  .of_same rfl rfl rfl rfl rfl (.inl rfl)

theorem requestBlockedRestart_spares {identifier : OperationId} {reachable : Bool}
    {resources : Resources}
    (h : requestBlockedRestart records identifier reachable resources = .ok records') :
    Spares records.task records'.task := by
  obtain hclosed | rfl | ⟨_, rfl⟩ := requestBlockedRestart_closed h
  · have hidle := not_carries_of_closed hclosed
    obtain rfl | ⟨_, _, _, hfinished, rfl⟩ | ⟨_, rfl⟩ := requestBlockedRestart_eq_ok h
    · exact .of_idle hidle (.inl rfl) (.inl rfl)
    · obtain ⟨-, _, rfl⟩ := finishBlockedRun_eq_ok hfinished
      exact .of_idle hidle (.inl rfl) (.inl rfl)
    · exact .of_idle hidle (.inl rfl) (.inl rfl)
  · exact claimed_spares
  · exact .of_same rfl rfl rfl rfl rfl (.inl rfl)

theorem finalizeClosedTask_spares {owner : Owner} {resources : Resources}
    (h : finalizeClosedTask records owner resources = some records') :
    Spares records.task records'.task := by
  obtain rfl | hclosed := finalizeClosedTask_closed h
  · exact claimed_spares
  obtain rfl | ⟨_, _, hfinished, -⟩ := finalizeClosedTask_eq_some h
  · exact claimed_spares
  · exact claimed_spares.trans (finishBlockedRun_spares hfinished hclosed)

theorem consumeConfirmedFailover_spares {resources : Resources}
    (h : consumeConfirmedFailover records resources = some records') :
    Spares records.task records'.task := by
  obtain rfl | hclosed := consumeConfirmedFailover_closed h
  · exact claimed_spares
  obtain ⟨-, rfl | hfinished⟩ := consumeConfirmedFailover_eq_some h
  · exact claimed_spares
  · exact claimed_spares.trans (finishBlockedRun_spares hfinished hclosed)

theorem recoverPlannedRestartTask_spares {owner : Owner} {token : Nat}
    (h : recoverPlannedRestartTask records owner token = some records') :
    Spares records.task records'.task := by
  obtain ⟨⟨-, -, -, -, -, -, hproof, -⟩, rfl⟩ := updateOne_eq_some.1 h
  refine .of_idle (fun owner session hcarries => ?_) (.inl rfl) (.inr rfl)
  -- a task that queues has announced no session, any other is proved closed
  rw [if_neg hcarries.status] at hproof
  exact hcarries.not_closed hproof

theorem claimTask_spares {status : Status} {runId : Option RunId} {newRun : RunId}
    {nodeId : NodeId} {admitted : Bool} {resources : Resources}
    (h : claimTask records status runId newRun nodeId admitted resources = some records') :
    Spares records.task records'.task := by
  obtain ⟨hnone, -, -, -, rfl | ⟨claimed, rfl, -⟩⟩ := claimTask_eq_some h
  · exact .of_idle (not_carries_of_none hnone) (.inl rfl) (.inl rfl)
  · exact .of_idle (not_carries_of_none hnone) (.inl rfl) (.inl rfl)

theorem stopForResourceHealth_spares {owner : Option Owner} {claimVersion : Nat}
    {identifier : ResourceId} {resource : Resource} {operationId : OperationId}
    (h : stopForResourceHealth records owner claimVersion identifier resource operationId =
      some records') : Spares records.task records'.task := by
  obtain ⟨-, _, _, rfl⟩ := stopForResourceHealth_eq_some h
  exact .of_same rfl rfl rfl rfl rfl (.inl rfl)

theorem applyFailure_spares {identifier : ResourceId} {resource : Resource}
    {operationId : OperationId}
    (h : applyFailure records identifier resource operationId = some records') :
    Spares records.task records'.task := by
  obtain ⟨_, -, rfl⟩ | hstop := applyFailure_eq_some h
  · exact .of_same rfl rfl rfl rfl rfl (.inl rfl)
  · exact stopForResourceHealth_spares hstop

/-- A task at rest is on no node, so the run that another device ends is nobody's. -/
theorem transitionIdentityTask_spares (hrests : Rests records.task) :
    Spares records.task (transitionIdentityTask records).task := by
  simp only [transitionIdentityTask]
  split
  · exact .refl
  split
  · exact .of_same rfl rfl rfl rfl rfl (.inl rfl)
  split
  · rename_i hpaused
    exact .of_idle (not_carries_of_none (hrests (.inl hpaused))) (.inr rfl) (.inl (by simp))
  split
  · rename_i hwaiting
    exact .of_idle (not_carries_of_none (hrests (.inr hwaiting))) (.inr rfl) (.inl (by simp))
  · exact .refl

theorem authorizeHealthRecoveries_spares {identifier : ResourceId} :
    Spares records.task (authorizeHealthRecoveries records identifier).task := by
  simp only [authorizeHealthRecoveries]
  split
  · exact .refl
  · split
    · exact .of_same rfl rfl rfl rfl rfl (.inl rfl)
    · exact .refl

theorem grantAfterUserAuthentication_spares {identifier : ResourceId} {identityChanged : Bool}
    (hrests : Rests records.task) :
    Spares records.task
      (grantAfterUserAuthentication records identifier identityChanged).task := by
  simp only [grantAfterUserAuthentication]
  have hmoved : Spares records.task
      (if records.task.resourceId = identifier ∧ identityChanged = true then
        transitionIdentityTask records else records).task := by
    split
    · exact transitionIdentityTask_spares hrests
    · exact .refl
  split
  · exact .refl
  split
  · exact hmoved
  split
  · exact hmoved.trans (.of_same rfl rfl rfl rfl rfl (.inl rfl))
  · exact hmoved

theorem resumeAfterProbe_spares {identifier : ResourceId} {timely : Bool} :
    Spares records.task (resumeAfterProbe records identifier timely).task := by
  simp only [resumeAfterProbe]
  split
  · exact .refl
  · split
    · exact .of_same rfl rfl rfl rfl rfl (.inr (by simp))
    · exact .refl

theorem applySuccess_spares {identifier : ResourceId}
    {identityChanged authorizeUserRecovery timely : Bool} (hrests : Rests records.task) :
    Spares records.task
      (applySuccess records identifier identityChanged authorizeUserRecovery timely).task := by
  simp only [applySuccess]
  refine Spares.trans ?_ resumeAfterProbe_spares
  have hmoved : Spares records.task (if identityChanged = true ∧ records.task.linked identifier ∧
      records.task.deleted = false then transitionIdentityTask records else records).task := by
    split
    · exact transitionIdentityTask_spares hrests
    · exact .refl
  have hmovedRests : Rests (if identityChanged = true ∧ records.task.linked identifier ∧
      records.task.deleted = false then transitionIdentityTask records else records).task := by
    split
    · exact transitionIdentityTask_rests hrests
    · exact hrests
  split
  · exact (hmoved.trans authorizeHealthRecoveries_spares).trans
      (grantAfterUserAuthentication_spares (authorizeHealthRecoveries_rests hmovedRests))
  · exact hmoved.trans authorizeHealthRecoveries_spares

theorem consumeAuthorizedRecovery_spares {identifier : ResourceId} {resource : Resource}
    (h : consumeAuthorizedRecovery records identifier resource = some records') :
    Spares records.task records'.task := by
  simp only [consumeAuthorizedRecovery] at h
  split at h
  · cases h
  split at h
  · cases h
  rename_i hready
  have hidle := not_carries_of_none (not_not.1 hready).2.2.2.2.2.2.1
  split at h
  · cases h
    exact .of_idle hidle (.inl rfl) (.inl rfl)
  split at h
  · cases h
    exact .of_idle hidle (.inr rfl) (.inl rfl)
  · cases h
    exact .of_idle hidle (.inl rfl) (.inl rfl)

/-- The writes of a worker that need no stopped runtime. -/
theorem OwnerWrite.apply_spares {write : OwnerWrite} {owner : Owner}
    (h : write.apply owner records = some records')
    (hunaided : (Act.write write owner).unaided = true) : Spares records.task records'.task := by
  cases write with
  | pausing | block =>
    obtain ⟨-, rfl⟩ := updateOne_eq_some.1 h
    exact .of_same rfl rfl rfl rfl rfl (.inr (by simp))
  | pausePending =>
    obtain ⟨⟨-, -, hpending⟩, rfl⟩ := updateOne_eq_some.1 h
    exact .of_idle (fun _ _ hcarries => hcarries.status hpending) (.inl rfl) (.inl rfl)
  | stopPending =>
    obtain ⟨⟨-, hpending, -⟩, rfl⟩ := updateOne_eq_some.1 h
    exact .of_idle (fun _ _ hcarries => hcarries.status hpending) (.inl rfl) (.inl rfl)
  | restartPending =>
    obtain ⟨-, rfl⟩ := updateOne_eq_some.1 h
    exact .of_same rfl rfl rfl rfl rfl (.inl rfl)
  | runtimeState | pause | closedReceipt | fence | closing | detach | restart | prepare =>
    simp [Act.unaided] at hunaided

/-- An act that goes by its own filters takes no task from the owner who may be connected. -/
theorem Act.apply_spares {act : Act} (h : act.apply records = some records')
    (hunaided : act.unaided = true) (hrests : Rests records.task) :
    Spares records.task records'.task := by
  cases act with
  | control request identifier resources =>
    obtain ⟨⟨_, operation⟩, hcontrol, rfl⟩ := Option.map_eq_some_iff.1 h
    exact requestControl_spares (toOption_eq_some.1 hcontrol)
  | edit => exact editTask_spares (toOption_eq_some.1 h)
  | delete =>
    simp only [Act.apply, deleteTask, toOption_eq_some, bind_eq_ok] at h
    obtain ⟨_, _, h⟩ := h
    cases h
    exact .of_same rfl rfl rfl rfl rfl (.inl rfl)
  | deleteResource =>
    cases h
    simp only [markResourceDeletion]
    split
    · exact .of_same rfl rfl rfl rfl rfl (.inl rfl)
    · exact .refl
  | restartBlocked => exact requestBlockedRestart_spares (toOption_eq_some.1 h)
  | isolateTask | isolateNode | complete => simp [Act.unaided] at hunaided
  | claim =>
    simp only [Act.apply, Option.ite_none_right_eq_some] at h
    exact claimTask_spares h.2
  | consumeFailover => exact consumeConfirmedFailover_spares h
  | consumeRecovery =>
    simp only [Act.apply, Option.ite_none_right_eq_some] at h
    exact consumeAuthorizedRecovery_spares h.2
  | sweepStopped =>
    simp only [Act.apply, Tasks.sweepStopped] at h
    split at h
    · cases h
    · obtain ⟨-, rfl⟩ := updateOne_eq_some.1 h
      exact .refl
  | write => exact OwnerWrite.apply_spares h hunaided
  | recoverPlanned => exact recoverPlannedRestartTask_spares h
  | finalizeClosed => exact finalizeClosedTask_spares h
  | stopUnresponsive =>
    simp only [Act.apply, Option.ite_none_right_eq_some] at h
    exact stopForResourceHealth_spares h.2
  | settle =>
    cases h
    exact .refl
  | healthFailure =>
    simp only [Act.apply, Option.ite_none_right_eq_some] at h
    exact applyFailure_spares h.2
  | healthSuccess =>
    simp only [Act.apply, Option.ite_none_right_eq_some, Option.some.injEq] at h
    obtain ⟨-, rfl⟩ := h
    exact applySuccess_spares hrests
  | userAuthentication =>
    simp only [Act.apply, Option.ite_none_right_eq_some, Option.some.injEq] at h
    obtain ⟨-, rfl⟩ := h
    exact grantAfterUserAuthentication_spares hrests
  | dropReleasedLock | endReleasedRun =>
    obtain ⟨-, rfl⟩ := updateOne_eq_some.1 h
    exact .refl
  | sweepIntent | markPlannedRestart =>
    obtain ⟨-, rfl⟩ := updateOne_eq_some.1 h
    exact .of_same rfl rfl rfl rfl rfl (.inl rfl)
  | blockStale | reconcileStopped | sweepPaused =>
    obtain ⟨-, rfl⟩ := updateOne_eq_some.1 h
    exact .of_same rfl rfl rfl rfl rfl (.inr (by simp))
  | queue =>
    obtain ⟨⟨-, hnone, -⟩, rfl⟩ := updateOne_eq_some.1 h
    exact .of_idle (not_carries_of_none hnone) (.inl rfl) (.inl rfl)
  | preparePending =>
    obtain ⟨⟨-, hpending, -⟩, rfl⟩ := updateOne_eq_some.1 h
    exact .of_idle (fun _ _ hcarries => hcarries.status hpending) (.inl rfl) (.inl rfl)

end CameraLogs.Tasks
