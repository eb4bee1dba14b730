import CameraLogs.Tasks.System

/-!
# Fencing by generations

A claim raises the generation of the task and nothing else ever changes it, so no two claims
make the same owner, and the filter of an owner that has been followed by another one never
matches again. The lock of a task always carries the run the task has: whatever takes the
run away takes the lock with it.
-/

namespace CameraLogs.Tasks

open Lib

variable {records records' : Records}

/-- The lock is of the run the task has. -/
def LockOwned (records : Records) : Prop :=
  ∀ lock ∈ records.lock, some lock.runId = records.task.runId

/-- What every act but a claim leaves as it is. -/
structure Keeps (records records' : Records) : Prop where
  generation : records'.task.generation = records.task.generation
  claims : records'.claims = records.claims
  deleted : records.task.deleted = true → records'.task.deleted = true
  gone : ∀ identifier ∈ records.gone, identifier ∈ records'.gone
  lock : LockOwned records → LockOwned records'

theorem Keeps.refl : Keeps records records := ⟨rfl, rfl, id, fun _ => id, id⟩

theorem Keeps.trans {middle : Records} (h : Keeps records middle) (h' : Keeps middle records') :
    Keeps records records' where
  generation := h'.generation.trans h.generation
  claims := h'.claims.trans h.claims
  deleted := h'.deleted ∘ h.deleted
  gone := fun identifier hmem => h'.gone identifier (h.gone identifier hmem)
  lock := h'.lock ∘ h.lock

/-- The lock stays or goes, and the task keeps its run. -/
theorem Keeps.of_sameRun (hgeneration : records'.task.generation = records.task.generation)
    (hclaims : records'.claims = records.claims)
    (hdeleted : records.task.deleted = true → records'.task.deleted = true)
    (hrun : records'.task.runId = records.task.runId)
    (hlock : ∀ lock ∈ records'.lock, lock ∈ records.lock)
    (hgone : ∀ identifier ∈ records.gone, identifier ∈ records'.gone) : Keeps records records' :=
  ⟨hgeneration, hclaims, hdeleted, hgone,
    fun h lock hmem => (h lock (hlock lock hmem)).trans hrun.symm⟩

/-- The run is taken from the task where nothing has its lock any more. -/
theorem Keeps.of_noLock (hgeneration : records'.task.generation = records.task.generation)
    (hclaims : records'.claims = records.claims)
    (hdeleted : records.task.deleted = true → records'.task.deleted = true)
    (hlock : LockOwned records → ∀ lock, lock ∉ records'.lock)
    (hgone : ∀ identifier ∈ records.gone, identifier ∈ records'.gone) : Keeps records records' :=
  ⟨hgeneration, hclaims, hdeleted, hgone, fun h lock hmem => absurd hmem (hlock h lock)⟩

/-- A change of the task alone. -/
theorem Keeps.withTask {task : Task} (hgeneration : task.generation = records.task.generation)
    (hdeleted : records.task.deleted = true → task.deleted = true)
    (hrun : task.runId = records.task.runId) : Keeps records (records.withTask task) :=
  .of_sameRun hgeneration rfl hdeleted hrun (fun _ => id) fun _ => id

/-- Operations, and what is remembered of releases, count for nothing. -/
theorem Keeps.of_sameTask (htask : records'.task = records.task)
    (hclaims : records'.claims = records.claims)
    (hlock : ∀ lock ∈ records'.lock, lock ∈ records.lock)
    (hgone : ∀ identifier ∈ records.gone, identifier ∈ records'.gone) : Keeps records records' :=
  .of_sameRun (by rw [htask]) hclaims (by rw [htask]; exact id) (by rw [htask]) hlock hgone

theorem closeRun_gone_le {runId : Option RunId} :
    ∀ identifier ∈ records.gone, identifier ∈ (records.closeRun runId).gone := by
  simp

/-- A closed run leaves no lock of its own task. -/
theorem closeRun_noLock (h : LockOwned records) (lock : EndpointLock) :
    lock ∉ (records.closeRun records.task.runId).lock := by
  intro hmem
  obtain ⟨hmem, hne⟩ := Records.mem_closeRun.1 hmem
  exact hne (h lock hmem)

/-! ## The functions, one by one -/

theorem claimControl_keeps (desired : DesiredState) :
    Keeps records (claimControl records desired) :=
  .withTask rfl id rfl

theorem localTransition_keeps {desired : DesiredState}
    (h : localTransition records desired = .ok records') : Keeps records records' := by
  obtain ⟨rfl, -⟩ | ⟨-, -, rfl⟩ | ⟨-, -, -, rfl⟩ | ⟨-, -, hlock, rfl⟩ | ⟨-, -, -, rfl⟩ :=
    localTransition_eq_ok h
  · exact .refl
  · exact .of_sameRun rfl (by simp) id rfl (fun lock hmem => (Records.mem_closeRun.1 hmem).1)
      closeRun_gone_le
  · exact .withTask rfl id rfl
  · exact .of_noLock rfl rfl id (fun _ lock => by simp [hlock]) fun _ => id
  · exact .withTask rfl id rfl

theorem requestControl_keeps {request : Request} {identifier : OperationId}
    {resources : Resources} {operation : Operation}
    (h : requestControl records request.desired request.requirePaused identifier resources =
      .ok (records', operation)) : Keeps records records' := by
  obtain ⟨-, ⟨-, rfl⟩ | ⟨-, -, -, -, rfl⟩ | ⟨-, -, moved, hmoved, rfl⟩⟩ := requestControl_eq_ok h
  · exact claimControl_keeps _
  · exact (claimControl_keeps .running).trans (.of_sameRun rfl rfl id rfl (fun _ => id) fun _ => id)
  · refine ((claimControl_keeps _).trans (localTransition_keeps hmoved)).trans ?_
    exact .of_sameRun rfl rfl id rfl (fun _ => id) fun _ => id

theorem editTask_keeps {version : Nat} {behavioral clear : Bool} {document : TaskDocument}
    {identifier : OperationId} {identifiers : List ResourceId} {resources : Resources}
    {sameIdentity : ResourceId → Bool}
    (h : editTask records version behavioral clear document identifier identifiers resources
      sameIdentity = .ok records') : Keeps records records' := by
  obtain ⟨-, edited, hedited, rfl⟩ := editTask_eq_ok h
  have hdocument : Keeps edited (edited.withTask (edited.task.withDocument document)) :=
    .withTask rfl id rfl
  refine Keeps.trans ?_ hdocument
  obtain rfl | ⟨-, rfl⟩ | ⟨-, rfl⟩ := editIntent_eq_ok hedited
  · exact .withTask rfl id rfl
  · exact .of_sameRun rfl rfl id rfl (fun _ => id) fun _ => id
  · exact .of_sameRun rfl rfl id rfl (fun _ => id) fun _ => id

theorem deleteTask_keeps {version : Nat} (h : deleteTask records version = .ok records') :
    Keeps records records' := by
  simp only [deleteTask, bind_eq_ok] at h
  obtain ⟨_, _, h⟩ := h
  cases h
  exact .of_sameRun rfl rfl (fun _ => rfl) rfl (fun _ => id) fun _ => id

theorem markResourceDeletion_keeps {identifier : ResourceId} :
    Keeps records (markResourceDeletion records identifier) := by
  simp only [markResourceDeletion]
  split
  · exact .of_sameRun rfl rfl (fun _ => rfl) rfl (fun _ => id) fun _ => List.mem_cons_of_mem _
  · exact .of_sameTask rfl rfl (fun _ => id) fun _ => List.mem_cons_of_mem _

theorem finishBlockedRun_keeps {restart : Bool} {operationId : Option OperationId}
    (h : finishBlockedRun records restart operationId = .ok records') :
    Keeps records records' := by
  obtain ⟨-, operations, rfl⟩ := finishBlockedRun_eq_ok h
  exact .of_sameRun rfl (by simp [finishedRecords]) id rfl
    (fun lock hmem => (Records.mem_closeRun.1 hmem).1)
      closeRun_gone_le

theorem claimed_keeps : Keeps records records.claimed := .withTask rfl id rfl

theorem finalizeClosedTask_keeps {owner : Owner} {resources : Resources}
    (h : finalizeClosedTask records owner resources = some records') : Keeps records records' := by
  obtain rfl | ⟨_, _, hfinished, -⟩ := finalizeClosedTask_eq_some h
  · exact claimed_keeps
  · exact claimed_keeps.trans (finishBlockedRun_keeps hfinished)

theorem consumeConfirmedFailover_keeps {resources : Resources}
    (h : consumeConfirmedFailover records resources = some records') : Keeps records records' := by
  obtain ⟨-, rfl | hfinished⟩ := consumeConfirmedFailover_eq_some h
  · exact claimed_keeps
  · exact claimed_keeps.trans (finishBlockedRun_keeps hfinished)

/-- Operations count for nothing. -/
theorem operations_keeps {operations : List Operation} :
    Keeps records { records with operations } :=
  .of_sameTask rfl rfl (fun _ => id) fun _ => id

theorem confirmTaskIsolation_keeps {identifier : OperationId} {resources : Resources}
    (h : confirmTaskIsolation records identifier resources = .ok records') :
    Keeps records records' := by
  obtain rfl | ⟨_, _, _, hfinished, rfl⟩ := confirmTaskIsolation_eq_ok h
  · exact claimed_keeps
  · exact (claimed_keeps.trans (finishBlockedRun_keeps hfinished)).trans operations_keeps

theorem requestBlockedRestart_keeps {identifier : OperationId} {reachable : Bool}
    {resources : Resources}
    (h : requestBlockedRestart records identifier reachable resources = .ok records') :
    Keeps records records' := by
  obtain rfl | ⟨_, _, _, hfinished, rfl⟩ | ⟨_, rfl⟩ := requestBlockedRestart_eq_ok h
  · exact claimed_keeps
  · exact (claimed_keeps.trans (finishBlockedRun_keeps hfinished)).trans operations_keeps
  · exact claimed_keeps.trans (.of_sameRun rfl rfl id rfl (fun _ => id) fun _ => id)

theorem recoverPlannedRestartTask_keeps {owner : Owner} {token : Nat}
    (h : recoverPlannedRestartTask records owner token = some records') :
    Keeps records records' := by
  obtain ⟨-, rfl⟩ := updateOne_eq_some.1 h
  exact .of_sameRun rfl (by simp) id rfl (fun lock hmem => (Records.mem_closeRun.1 hmem).1)
      closeRun_gone_le

theorem confirmNodeIsolation_keeps {nodeId : NodeId}
    (h : confirmNodeIsolation records nodeId = some records') : Keeps records records' := by
  simp only [confirmNodeIsolation] at h
  split at h
  · cases h
  split at h
  · cases h
    exact .of_sameRun rfl (by simp) id rfl (fun lock hmem => (Records.mem_closeRun.1 hmem).1)
      closeRun_gone_le
  · cases h
    split <;> exact .of_sameRun rfl rfl id rfl (fun _ => id) fun _ => id

theorem OwnerWrite.apply_keeps {write : OwnerWrite} {owner : Owner}
    (h : write.apply owner records = some records') : Keeps records records' := by
  cases write with
  | prepare marker =>
    simp only [OwnerWrite.apply] at h
    split at h
    · cases h
    · obtain ⟨-, rfl⟩ := updateOne_eq_some.1 h
      exact .of_sameRun rfl rfl id rfl (fun _ => id) fun _ => id
  | stopPending =>
    obtain ⟨-, rfl⟩ := updateOne_eq_some.1 h
    exact .of_sameRun rfl rfl id rfl (fun _ => id) fun _ => id
  | closing failed =>
    obtain ⟨-, rfl⟩ := updateOne_eq_some.1 h
    cases failed <;> exact .of_sameRun rfl rfl id rfl (fun _ => id) fun _ => id
  | detach failed =>
    obtain ⟨-, rfl⟩ := updateOne_eq_some.1 h
    cases failed <;> exact .withTask rfl id rfl
  | runtimeState | pausing | block | pause | pausePending | restartPending | closedReceipt
  | fence | restart =>
    obtain ⟨-, rfl⟩ := updateOne_eq_some.1 h
    exact .withTask rfl id rfl

theorem completeRun_keeps {marker : DeploymentMarker}
    (h : completeRun records marker = some records') : Keeps records records' := by
  obtain ⟨run, -, -, ⟨-, rfl⟩ | ⟨-, rfl⟩⟩ := completeRun_eq_some h
  · exact .of_sameTask rfl rfl (fun _ => id) fun _ => id
  · unfold Task.deployed
    split <;>
      exact .of_sameRun rfl rfl id rfl (fun lock hmem => (Records.mem_deleteLock.1 hmem).1)
        fun _ => id

theorem stopForResourceHealth_keeps {owner : Option Owner} {claimVersion : Nat}
    {identifier : ResourceId} {resource : Resource} {operationId : OperationId}
    (h : stopForResourceHealth records owner claimVersion identifier resource operationId =
      some records') : Keeps records records' := by
  obtain ⟨-, _, _, rfl⟩ := stopForResourceHealth_eq_some h
  exact .of_sameRun rfl rfl id rfl (fun _ => id) fun _ => id

theorem applyFailure_keeps {identifier : ResourceId} {resource : Resource}
    {operationId : OperationId}
    (h : applyFailure records identifier resource operationId = some records') :
    Keeps records records' := by
  obtain ⟨_, -, rfl⟩ | hstop := applyFailure_eq_some h
  · exact .withTask rfl id rfl
  · exact stopForResourceHealth_keeps hstop

theorem transitionIdentityTask_keeps : Keeps records (transitionIdentityTask records) := by
  simp only [transitionIdentityTask]
  split
  · exact .refl
  split
  · exact .withTask rfl id rfl
  -- the run goes, and its lock with it
  split
  · exact .of_noLock rfl (by simp) id (fun howned lock => closeRun_noLock howned lock)
      closeRun_gone_le
  split
  · exact .of_noLock rfl (by simp) id (fun howned lock => closeRun_noLock howned lock)
      closeRun_gone_le
  · exact .refl

theorem authorizeHealthRecoveries_keeps {identifier : ResourceId} :
    Keeps records (authorizeHealthRecoveries records identifier) := by
  simp only [authorizeHealthRecoveries]
  split
  · exact .refl
  · split
    · exact .withTask rfl id rfl
    · exact .refl

theorem grantAfterUserAuthentication_keeps {identifier : ResourceId} {identityChanged : Bool} :
    Keeps records (grantAfterUserAuthentication records identifier identityChanged) := by
  simp only [grantAfterUserAuthentication]
  have hmoved : Keeps records
      (if records.task.resourceId = identifier ∧ identityChanged = true then
        transitionIdentityTask records else records) := by
    split
    · exact transitionIdentityTask_keeps
    · exact .refl
  split
  · exact .refl
  split
  · exact hmoved
  split
  · exact hmoved.trans (.withTask rfl id rfl)
  · exact hmoved

theorem resumeAfterProbe_keeps {identifier : ResourceId} {timely : Bool} :
    Keeps records (resumeAfterProbe records identifier timely) := by
  simp only [resumeAfterProbe]
  split
  · exact .refl
  · split
    · exact .withTask rfl id rfl
    · exact .refl

theorem applySuccess_keeps {identifier : ResourceId}
    {identityChanged authorizeUserRecovery timely : Bool} :
    Keeps records
      (applySuccess records identifier identityChanged authorizeUserRecovery timely) := by
  simp only [applySuccess]
  refine Keeps.trans ?_ resumeAfterProbe_keeps
  have hmoved : Keeps records (if identityChanged = true ∧ records.task.linked identifier ∧
      records.task.deleted = false then transitionIdentityTask records else records) := by
    split
    · exact transitionIdentityTask_keeps
    · exact .refl
  split
  · exact (hmoved.trans authorizeHealthRecoveries_keeps).trans grantAfterUserAuthentication_keeps
  · exact hmoved.trans authorizeHealthRecoveries_keeps

theorem consumeAuthorizedRecovery_keeps {identifier : ResourceId} {resource : Resource}
    (h : consumeAuthorizedRecovery records identifier resource = some records') :
    Keeps records records' := by
  simp only [consumeAuthorizedRecovery] at h
  split at h
  · cases h
  split at h
  · cases h
  rename_i hready
  split at h
  · cases h
    exact .withTask rfl id rfl
  split at h
  · cases h
    exact .of_noLock rfl rfl id
      (fun _ lock => by simp [(not_not.1 hready).2.2.2.2.2.2.2]) fun _ => id
  · cases h
    exact .withTask rfl id rfl

/-! ## A claim, and every other act -/

/-- A claim is by a new owner, of the next generation, and no other act has one. -/
def Claims (records records' : Records) : Prop :=
  ∃ owner : Owner, owner.generation = records.task.generation + 1 ∧
    records'.task.generation = owner.generation ∧ records'.claims = owner :: records.claims ∧
    records.task.deleted = false ∧ records'.task.deleted = false ∧ records'.gone = records.gone ∧
    LockOwned records'

theorem bind_lockOwned {owner : Owner} (hlock : ∀ lock ∈ records.lock, lock.runId = owner.runId) :
    LockOwned (records.bind owner) := by
  intro lock hmem
  unfold Records.bind at hmem ⊢
  cases hcase : records.lock with
  | none =>
    rw [hcase] at hmem
    cases hmem
    rfl
  | some held =>
    rw [hcase] at hmem
    have hsame : lock ∈ records.lock := hmem
    exact congrArg some (hlock lock hsame)

theorem bind_gone {owner : Owner} : (records.bind owner).gone = records.gone := by
  unfold Records.bind
  cases records.lock <;> rfl

theorem claimTask_keeps_or_claims {status : Status} {runId : Option RunId} {newRun : RunId}
    {nodeId : NodeId} {admitted : Bool} {resources : Resources}
    (h : claimTask records status runId newRun nodeId admitted resources = some records') :
    Keeps records records' ∨ Claims records records' := by
  obtain ⟨-, hdeleted, -, -, rfl | ⟨claimed, rfl, hrun⟩⟩ := claimTask_eq_some h
  · exact .inl (.withTask rfl id rfl)
  · refine .inr ⟨⟨claimed, nodeId, _⟩, rfl, rfl, rfl, hdeleted, hdeleted,
      bind_gone, bind_lockOwned ?_⟩
    obtain ⟨-, hnone⟩ | ⟨-, -, hlock⟩ := hrun
    · simp [hnone]
    · exact hlock

theorem Act.apply_keeps_or_claims {act : Act} (h : act.apply records = some records') :
    Keeps records records' ∨ Claims records records' := by
  cases act with
  | control request identifier resources =>
    obtain ⟨⟨_, operation⟩, hcontrol, rfl⟩ := Option.map_eq_some_iff.1 h
    exact .inl (requestControl_keeps (toOption_eq_some.1 hcontrol))
  | edit => exact .inl (editTask_keeps (toOption_eq_some.1 h))
  | delete => exact .inl (deleteTask_keeps (toOption_eq_some.1 h))
  | deleteResource =>
    cases h
    exact .inl markResourceDeletion_keeps
  | restartBlocked => exact .inl (requestBlockedRestart_keeps (toOption_eq_some.1 h))
  | isolateTask => exact .inl (confirmTaskIsolation_keeps (toOption_eq_some.1 h))
  | isolateNode => exact .inl (confirmNodeIsolation_keeps h)
  | claim =>
    simp only [Act.apply, Option.ite_none_right_eq_some] at h
    exact claimTask_keeps_or_claims h.2
  | consumeFailover => exact .inl (consumeConfirmedFailover_keeps h)
  | consumeRecovery =>
    simp only [Act.apply, Option.ite_none_right_eq_some] at h
    exact .inl (consumeAuthorizedRecovery_keeps h.2)
  | sweepStopped =>
    simp only [Act.apply, Tasks.sweepStopped] at h
    split at h
    · cases h
    · obtain ⟨-, rfl⟩ := updateOne_eq_some.1 h
      exact .inl (.of_sameTask rfl rfl (fun _ => id) fun _ => id)
  | write => exact .inl (OwnerWrite.apply_keeps h)
  | dropReleasedLock =>
    obtain ⟨-, rfl⟩ := updateOne_eq_some.1 h
    exact .inl (.of_sameTask rfl rfl (fun lock hmem => (Records.mem_deleteLock.1 hmem).1)
      fun _ => id)
  | endReleasedRun =>
    obtain ⟨-, rfl⟩ := updateOne_eq_some.1 h
    exact .inl (.of_sameTask rfl rfl (fun _ => id) fun _ => id)
  | recoverPlanned => exact .inl (recoverPlannedRestartTask_keeps h)
  | finalizeClosed => exact .inl (finalizeClosedTask_keeps h)
  | stopUnresponsive =>
    simp only [Act.apply, Option.ite_none_right_eq_some] at h
    exact .inl (stopForResourceHealth_keeps h.2)
  | settle =>
    cases h
    exact .inl (.of_sameTask rfl rfl (fun _ => id) fun _ => id)
  | complete => exact .inl (completeRun_keeps h)
  | healthFailure =>
    simp only [Act.apply, Option.ite_none_right_eq_some] at h
    exact .inl (applyFailure_keeps h.2)
  | healthSuccess =>
    simp only [Act.apply, Option.ite_none_right_eq_some, Option.some.injEq] at h
    obtain ⟨-, rfl⟩ := h
    exact .inl applySuccess_keeps
  | userAuthentication =>
    simp only [Act.apply, Option.ite_none_right_eq_some, Option.some.injEq] at h
    obtain ⟨-, rfl⟩ := h
    exact .inl grantAfterUserAuthentication_keeps
  | blockStale | reconcileStopped | queue | sweepIntent | sweepPaused | markPlannedRestart
  | preparePending =>
    obtain ⟨-, rfl⟩ := updateOne_eq_some.1 h
    exact .inl (.withTask rfl id rfl)

/-! ## Every reachable state -/

/-- The owners so far have generations below one another, the newest at most the task's. -/
structure Fenced (records : Records) : Prop where
  bounded : ∀ owner ∈ records.claims, owner.generation ≤ records.task.generation
  ordered : records.claims.Pairwise fun newer older => older.generation < newer.generation
  lock : LockOwned records

theorem Initial.fenced (h : Initial records) : Fenced records where
  bounded := by simp [h.claims]
  ordered := by simp [h.claims]
  lock := by simp [LockOwned, h.lock]

theorem Keeps.fenced (hkeeps : Keeps records records') (h : Fenced records) : Fenced records' where
  bounded := by
    rw [hkeeps.claims, hkeeps.generation]
    exact h.bounded
  ordered := by
    rw [hkeeps.claims]
    exact h.ordered
  lock := hkeeps.lock h.lock

theorem Claims.fenced (hclaims : Claims records records') (h : Fenced records) :
    Fenced records' := by
  obtain ⟨owner, hnext, hgeneration, hclaims, -, -, -, hlock⟩ := hclaims
  refine ⟨?_, ?_, hlock⟩
  · intro other hmem
    rw [hclaims] at hmem
    rw [hgeneration]
    obtain rfl | hmem := List.mem_cons.1 hmem
    · exact Nat.le_refl _
    · have hbounded := h.bounded other hmem
      omega
  · rw [hclaims]
    refine List.pairwise_cons.2 ⟨fun other hmem => ?_, h.ordered⟩
    have hbounded := h.bounded other hmem
    omega

theorem reachable_fenced (h : Reachable Initial Step records) : Fenced records := by
  refine h.invariant (fun _ => Initial.fenced) ?_
  intro records records' hstep hfenced
  obtain ⟨act, hact⟩ := hstep
  obtain hkeeps | hclaims := Act.apply_keeps_or_claims hact
  · exact hkeeps.fenced hfenced
  · exact hclaims.fenced hfenced

/-- An owner of an earlier claim than the last. -/
def Superseded (owner : Owner) (records : Records) : Prop := owner ∈ records.claims.tail

theorem Superseded.generation_lt {owner : Owner} (h : Superseded owner records)
    (hfenced : Fenced records) : owner.generation < records.task.generation := by
  unfold Superseded at h
  cases hclaims : records.claims with
  | nil => simp [hclaims] at h
  | cons newest older =>
    rw [hclaims] at h
    have hordered := hfenced.ordered
    rw [hclaims] at hordered
    have holder := (List.pairwise_cons.1 hordered).1 owner h
    have hnewest := hfenced.bounded newest (by simp [hclaims])
    omega

theorem Superseded.not_filter {owner : Owner} (h : Superseded owner records)
    (hfenced : Fenced records) :
    ¬ownerFilter owner records.task ∧ ¬formerOwnerFilter owner records.task := by
  have hlt := h.generation_lt hfenced
  refine ⟨fun hfilter => ?_, fun hfilter => ?_⟩
  · have heq := hfilter.2.2
    omega
  · have heq := hfilter.2.2
    omega

/-! ## What a superseded owner can still do -/

theorem Superseded.write_none {owner : Owner} (h : Superseded owner records)
    (hfenced : Fenced records) (write : OwnerWrite) : write.apply owner records = none := by
  cases hwrite : write.apply owner records with
  | none => rfl
  | some records' =>
    obtain hfilter | hfilter := OwnerWrite.apply_filter hwrite
    · exact absurd hfilter (h.not_filter hfenced).1
    · exact absurd hfilter (h.not_filter hfenced).2

theorem Superseded.recoverPlanned_none {owner : Owner} (h : Superseded owner records)
    (hfenced : Fenced records) (token : Nat) :
    recoverPlannedRestartTask records owner token = none := by
  simp [recoverPlannedRestartTask, updateOne, (h.not_filter hfenced).1]

theorem Superseded.finalizeClosed_none {owner : Owner} (h : Superseded owner records)
    (hfenced : Fenced records) (resources : Resources) :
    finalizeClosedTask records owner resources = none := by
  simp [finalizeClosedTask, (h.not_filter hfenced).1]

theorem Superseded.stopUnresponsive_none {owner : Owner} (h : Superseded owner records)
    (hfenced : Fenced records) (claimVersion : Nat) (identifier : ResourceId)
    (resource : Resource) (operationId : OperationId) :
    stopForResourceHealth records (some owner) claimVersion identifier resource operationId =
      none := by
  simp [stopForResourceHealth, (h.not_filter hfenced).1]

/-- A deployment that has frozen an owner since replaced may prove its run closed, but leaves
the task and its lock alone. -/
theorem Superseded.completeRun_task {marker : DeploymentMarker}
    (h : Superseded ⟨marker.runId, marker.nodeId, marker.generation⟩ records)
    (hfenced : Fenced records) (hcomplete : completeRun records marker = some records') :
    records'.task = records.task ∧ records'.lock = records.lock := by
  obtain ⟨_, _, _, ⟨_, rfl⟩ | ⟨hattached, _⟩⟩ := completeRun_eq_some hcomplete
  · exact ⟨rfl, rfl⟩
  · exact absurd hattached.1.1 (h.not_filter hfenced).1

/-! ## Any number of tasks -/

abbrev TaskId := Nat

/-- The documents of every task. -/
abbrev Database := TaskId → Records

def DatabaseInitial (database : Database) : Prop := ∀ taskId, Initial (database taskId)

/-- Something happens to one of the tasks. -/
def DatabaseStep (database database' : Database) : Prop :=
  ∃ taskId, Step (database taskId) (database' taskId) ∧
    ∀ other, other ≠ taskId → database' other = database other

theorem component_reachable {database : Database}
    (h : Reachable DatabaseInitial DatabaseStep database) (taskId : TaskId) :
    Reachable Initial Step (database taskId) := by
  refine h.invariant (I := fun database => Reachable Initial Step (database taskId))
    (fun database hinit => Reachable.initial (hinit taskId)) ?_
  intro database database' hstep hreach
  obtain ⟨changed, hstep, hothers⟩ := hstep
  by_cases hsame : taskId = changed
  · subst hsame
    exact hreach.tail hstep
  · rw [hothers taskId hsame]
    exact hreach

/-- What happens to one task happens to the database. -/
theorem update_reachable {database : Database} {records : Records} {taskId : TaskId}
    (h : Reachable DatabaseInitial DatabaseStep database)
    (hrun : Relation.ReflTransGen Step (database taskId) records) :
    Reachable DatabaseInitial DatabaseStep (Function.update database taskId records) := by
  induction hrun with
  | refl => simpa using h
  | tail _ hstep ih =>
    refine ih.tail ⟨taskId, by simpa using hstep, fun other hother => ?_⟩
    simp [hother]

/-- Owners are never repeated, a task's lock is of the run it has, and a write under the owner
of an earlier claim finds a task claimed again as it was. -/
theorem ownership_fenced (database : Database)
    (h : Reachable DatabaseInitial DatabaseStep database) (taskId : TaskId) :
    (database taskId).claims.Nodup ∧
    (∀ lock ∈ (database taskId).lock, some lock.runId = (database taskId).task.runId) ∧
    ∀ owner, Superseded owner (database taskId) →
      (∀ write : OwnerWrite, write.apply owner (database taskId) = none) ∧
      (∀ token, recoverPlannedRestartTask (database taskId) owner token = none) ∧
      (∀ resources, finalizeClosedTask (database taskId) owner resources = none) ∧
      (∀ claimVersion identifier resource operationId,
        stopForResourceHealth (database taskId) (some owner) claimVersion identifier resource
          operationId = none) ∧
      ∀ marker records', owner = ⟨marker.runId, marker.nodeId, marker.generation⟩ →
        completeRun (database taskId) marker = some records' →
          records'.task = (database taskId).task ∧ records'.lock = (database taskId).lock := by
  have hfenced := reachable_fenced (component_reachable h taskId)
  refine ⟨?_, hfenced.lock, fun owner hsuperseded => ⟨?_, ?_, ?_, ?_, ?_⟩⟩
  · refine hfenced.ordered.imp fun hlt heq => ?_
    rw [heq] at hlt
    exact Nat.lt_irrefl _ hlt
  · exact hsuperseded.write_none hfenced
  · exact hsuperseded.recoverPlanned_none hfenced
  · exact hsuperseded.finalizeClosed_none hfenced
  · exact hsuperseded.stopUnresponsive_none hfenced
  · intro marker records' howner hcomplete
    subst howner
    exact hsuperseded.completeRun_task hfenced hcomplete

/-! A task of a device that answers, claimed, stopped while it queues, started and claimed
again; and two tasks of one device. -/

def onlineDevice : Resources := fun _ => some ⟨true, .online, false, false⟩

def newTask : Task where
  protocol := .ssh
  ip := "10.0.0.1"
  port := 22
  resourceId := 0
  serialServerResourceId := none
  version := 1
  desiredState := .running
  status := .stopped
  nodeId := none
  runId := none
  sessionId := none
  generation := 0
  restartRequested := false
  controlOperationId := some 0
  controlClaimVersion := 0
  deleted := false
  resourceDeleted := false
  resourceHealthRecovery := none
  resumeWaiting := none
  closedReceipt := none
  plannedRestart := none
  deploymentRecovery := none

def newRecords : Records where
  task := newTask
  lock := none
  runs := fun _ => none
  operations := [⟨0, .running, .start, .pending⟩]
  gone := []
  released := []
  claims := []

theorem newRecords_initial : Initial newRecords where
  nodeId := rfl
  runId := rfl
  status := rfl
  generation := rfl
  desiredState := .inl rfl
  restartRequested := rfl
  resourceHealthRecovery := rfl
  deploymentRecovery := rfl
  deleted := rfl
  lock := rfl
  runs := rfl
  released := rfl
  claims := rfl

def newDatabase : Database := fun _ => newRecords

theorem newDatabase_reachable : Reachable DatabaseInitial DatabaseStep newDatabase :=
  Reachable.initial fun _ => newRecords_initial

def claimNew (runId : RunId) (nodeId : NodeId) : Act :=
  .claim .stopped none runId nodeId true onlineDevice

def claimedAgain : List Act :=
  [claimNew 7 1, .control .stop 1 onlineDevice, .write .stopPending ⟨7, 1, 1⟩,
    .dropReleasedLock 7, .endReleasedRun 7, .control .start 2 onlineDevice,
    .claim .stopped (some 7) 8 2 true onlineDevice]

theorem ownership_fenced_claimed_again :
    ∃ records, runActs claimedAgain newRecords = some records ∧
      Superseded ⟨7, 1, 1⟩ records ∧ OwnerWrite.pause.apply ⟨7, 1, 1⟩ records = none := by
  have hrun : ∃ records, runActs claimedAgain newRecords = some records ∧
      records.claims = [⟨8, 2, 2⟩, ⟨7, 1, 1⟩] := ⟨_, rfl, rfl⟩
  obtain ⟨records, hrecords, hclaims⟩ := hrun
  have hreach : Reachable DatabaseInitial DatabaseStep (Function.update newDatabase 0 records) :=
    update_reachable newDatabase_reachable (runActs_reaches hrecords)
  have hfenced := ownership_fenced _ hreach 0
  rw [Function.update_self] at hfenced
  have hsuperseded : Superseded ⟨7, 1, 1⟩ records := by simp [Superseded, hclaims]
  exact ⟨records, hrecords, hsuperseded, (hfenced.2.2 _ hsuperseded).1 .pause⟩

/-- Two tasks of one device have a lock of its endpoint each. -/
theorem endpoint_locked_twice :
    ∃ database, Reachable DatabaseInitial DatabaseStep database ∧
      ∃ lock ∈ (database 0).lock, ∃ lock' ∈ (database 1).lock,
        lock.endpoint = lock'.endpoint ∧ lock.runId ≠ lock'.runId := by
  have hfirst : ∃ records, runActs [claimNew 7 1] newRecords = some records ∧
      records.lock = some ⟨("10.0.0.1", 22), 7⟩ := ⟨_, rfl, rfl⟩
  have hsecond : ∃ records, runActs [claimNew 8 2] newRecords = some records ∧
      records.lock = some ⟨("10.0.0.1", 22), 8⟩ := ⟨_, rfl, rfl⟩
  obtain ⟨first, hrun, hlock⟩ := hfirst
  obtain ⟨second, hrun', hlock'⟩ := hsecond
  have hreach := update_reachable newDatabase_reachable
    (runActs_reaches hrun : Relation.ReflTransGen Step (newDatabase 0) first)
  have hreach' := update_reachable hreach
    (runActs_reaches hrun' : Relation.ReflTransGen Step (Function.update newDatabase 0 first 1) second)
  refine ⟨_, hreach', ⟨("10.0.0.1", 22), 7⟩, ?_, ⟨("10.0.0.1", 22), 8⟩, ?_, rfl, by decide⟩
  · rw [Function.update_of_ne (by decide), Function.update_self]
    exact hlock
  · rw [Function.update_self]
    exact hlock'

end CameraLogs.Tasks
