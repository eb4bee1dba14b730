import CameraLogs.Tasks.Cleanup

/-!
# What a cleanup leaves behind

`release` takes the node away last, when its lock has long gone; `stop_pending` takes it
away first. In between the task is stopped, on no node, and its lock is still there: a
start that is accepted then makes a task that the next claim blocks. Such starts apart, a
lock that has no node belongs to a task that is paused, waits for its device, is blocked
or is not to run.
-/

namespace CameraLogs.Tasks

open Lib

variable {records records' : Records}

/-- Where a lock may be while no node has the task. -/
def Parked (records : Records) : Prop :=
  records.task.nodeId = none → records.task.deleted = false → records.lock ≠ none →
    (records.task.AtRest ∧ records.task.desiredState ≠ .stopped) ∨
      records.task.status = .blocked ∨
      (records.task.status = .stopped ∧ records.task.desiredState ≠ .running)

theorem Parked.of_noLock (h : records.lock = none) : Parked records :=
  fun _ _ hlock => absurd h hlock

theorem Parked.of_node {nodeId : NodeId} (h : records.task.nodeId = some nodeId) :
    Parked records := by
  intro hnone
  rw [h] at hnone
  cases hnone

theorem Parked.of_deleted (h : records.task.deleted = true) : Parked records := by
  intro _ hdeleted
  rw [h] at hdeleted
  cases hdeleted

theorem Parked.of_blocked (h : records.task.status = .blocked) : Parked records :=
  fun _ _ _ => .inr (.inl h)

/-- A lock is only found where one was before. -/
theorem lock_ne_none (hlock : ∀ lock ∈ records'.lock, lock ∈ records.lock)
    (h : records'.lock ≠ none) : records.lock ≠ none := by
  obtain ⟨lock, hmem⟩ := Option.ne_none_iff_exists'.1 h
  have hbefore := hlock lock (Option.mem_def.2 hmem)
  rw [Option.mem_def.1 hbefore]
  exact Option.some_ne_none lock

/-- An update that leaves alone what a parked lock depends on. -/
theorem Parked.of_same (h : Parked records)
    (hlock : ∀ lock ∈ records'.lock, lock ∈ records.lock)
    (hnode : records'.task.nodeId = records.task.nodeId)
    (hdeleted : records'.task.deleted = records.task.deleted)
    (hstatus : records'.task.status = records.task.status)
    (hdesired : records'.task.desiredState = records.task.desiredState) : Parked records' := by
  intro hnone hthere hheld
  rw [hnode] at hnone
  rw [hdeleted] at hthere
  have hparked := h hnone hthere (lock_ne_none hlock hheld)
  unfold Task.AtRest at hparked ⊢
  rwa [hstatus, hdesired]

/-- What every act but a binding claim does: no lock is made, the run stays or goes, and a
lock without a node stays where it may be. -/
structure Yields (records records' : Records) : Prop where
  lock : ∀ lock ∈ records'.lock, lock ∈ records.lock
  runId : records'.task.runId = records.task.runId ∨ records'.task.runId = none
  parked : Rests records.task → LockOwned records → Parked records → Parked records'

theorem Yields.refl : Yields records records := ⟨fun _ => id, .inl rfl, fun _ _ => id⟩

/-- The task is rewritten, its run and its lock apart. -/
theorem Yields.withTask {task : Task} (hrun : task.runId = records.task.runId)
    (hparked : Rests records.task → LockOwned records → Parked records →
      Parked (records.withTask task)) : Yields records (records.withTask task) :=
  ⟨fun _ => id, .inl hrun, hparked⟩

/-- Nothing changes that a lock depends on. -/
theorem Yields.of_same (hlock : ∀ lock ∈ records'.lock, lock ∈ records.lock)
    (hrun : records'.task.runId = records.task.runId)
    (hnode : records'.task.nodeId = records.task.nodeId)
    (hdeleted : records'.task.deleted = records.task.deleted)
    (hstatus : records'.task.status = records.task.status)
    (hdesired : records'.task.desiredState = records.task.desiredState) :
    Yields records records' :=
  ⟨hlock, .inl hrun, fun _ _ h => h.of_same hlock hnode hdeleted hstatus hdesired⟩

/-- The lock of the task's run is gone. -/
theorem Yields.of_noLock (hlock : ∀ lock ∈ records'.lock, lock ∈ records.lock)
    (hrun : records'.task.runId = records.task.runId ∨ records'.task.runId = none)
    (hgone : LockOwned records → records'.lock = none) : Yields records records' :=
  ⟨hlock, hrun, fun _ howned _ => .of_noLock (hgone howned)⟩

theorem Yields.trans {middle : Records} (h : Yields records middle) (h' : Yields middle records')
    (hrests : Rests records.task → Rests middle.task)
    (howned : LockOwned records → LockOwned middle) : Yields records records' where
  lock := fun lock hmem => h.lock lock (h'.lock lock hmem)
  runId := by
    obtain hrun | hrun := h'.runId
    · rw [hrun]
      exact h.runId
    · exact .inr hrun
  parked := fun hrest hown hparked =>
    h'.parked (hrests hrest) (howned hown) (h.parked hrest hown hparked)

theorem closeRun_lock_le {runId : Option RunId} :
    ∀ lock ∈ (records.closeRun runId).lock, lock ∈ records.lock :=
  fun _ hmem => (Records.mem_closeRun.1 hmem).1

theorem deleteLock_le {runId : RunId} :
    ∀ lock ∈ (records.deleteLock runId).lock, lock ∈ records.lock :=
  fun _ hmem => (Records.mem_deleteLock.1 hmem).1

theorem closeRun_lock (h : LockOwned records) : (records.closeRun records.task.runId).lock = none :=
  Option.eq_none_iff_forall_not_mem.2 (closeRun_noLock h)

theorem deleteLock_lock {runId : RunId} (h : LockOwned records)
    (hrun : records.task.runId = some runId) : (records.deleteLock runId).lock = none := by
  refine Option.eq_none_iff_forall_not_mem.2 fun lock hmem => ?_
  obtain ⟨hmem, hne⟩ := Records.mem_deleteLock.1 hmem
  have hsame := h lock hmem
  rw [hrun] at hsame
  exact hne (Option.some.inj hsame)

/-- The run of the task is closed. -/
theorem Yields.closeRun {task : Task}
    (hrun : task.runId = records.task.runId ∨ task.runId = none) :
    Yields records ((records.closeRun records.task.runId).withTask task) :=
  .of_noLock closeRun_lock_le hrun closeRun_lock

/-! ## The functions, one by one -/

/-- A request leaves a lock without a node where it may be, except a start that finds the task
half stopped. -/
theorem requestControl_parked {request : Request} {identifier : OperationId}
    {resources : Resources} {operation : Operation}
    (h : requestControl records request.desired request.requirePaused identifier resources =
      .ok (records', operation))
    (hpatient : request.desired = .running → ¬records.HalfStopped) (howned : LockOwned records)
    (hparked : Parked records) : Parked records' := by
  obtain ⟨-, ⟨-, rfl⟩ | ⟨-, -, hnone, -, rfl⟩ | ⟨-, -, moved, hmoved, rfl⟩⟩ := requestControl_eq_ok h
  · exact hparked.of_same (fun _ => id) rfl rfl rfl rfl
  · exact fun _ _ _ => .inl ⟨.inr rfl, nofun⟩
  · obtain ⟨rfl, hstay⟩ | ⟨-, -, rfl⟩ | ⟨hdesired, -, hwaiting, rfl⟩ | ⟨-, -, hlock, rfl⟩ |
      ⟨hdesired, hnone, herror, rfl⟩ := localTransition_eq_ok hmoved
    · intro hnone hthere hlock
      obtain ⟨hrest, -⟩ | hblocked | ⟨hstopped, -⟩ := hparked hnone hthere hlock
      · refine .inl ⟨hrest, fun hstop => ?_⟩
        -- a stop of a task at rest closes its run
        obtain ⟨hpaused, hwaits⟩ := hstay hstop hnone
        exact hrest.elim hpaused hwaits
      · exact .inr (.inl hblocked)
      · exact .inr (.inr ⟨hstopped, fun hrun => hpatient hrun ⟨hnone, hstopped, hlock⟩⟩)
    · exact .of_noLock (closeRun_lock howned)
    · refine fun _ _ _ => .inl ⟨.inl rfl, fun hstop => ?_⟩
      rw [show request.desired = .stopped from hstop] at hdesired
      cases hdesired
    · exact .of_noLock hlock
    · intro _ hthere hlock
      obtain ⟨hrest, -⟩ | hblocked | ⟨hstopped, -⟩ := hparked hnone hthere hlock
      · obtain hpaused | hwaits := hrest
        · cases hpaused.symm.trans herror
        · cases hwaits.symm.trans herror
      · cases hblocked.symm.trans herror
      · cases hstopped.symm.trans herror

theorem localTransition_runId {moved : Records} {desired : DesiredState}
    (h : localTransition records desired = .ok moved) :
    (∀ lock ∈ moved.lock, lock ∈ records.lock) ∧
      (moved.task.runId = records.task.runId ∨ moved.task.runId = none) := by
  obtain ⟨rfl, -⟩ | ⟨-, -, rfl⟩ | ⟨-, -, -, rfl⟩ | ⟨-, -, -, rfl⟩ | ⟨-, -, -, rfl⟩ :=
    localTransition_eq_ok h
  · exact ⟨fun _ => id, .inl rfl⟩
  · exact ⟨closeRun_lock_le, .inl rfl⟩
  · exact ⟨fun _ => id, .inl rfl⟩
  · exact ⟨fun _ => id, .inr rfl⟩
  · exact ⟨fun _ => id, .inl rfl⟩

theorem requestControl_yields {request : Request} {identifier : OperationId}
    {resources : Resources} {operation : Operation}
    (h : requestControl records request.desired request.requirePaused identifier resources =
      .ok (records', operation))
    (hpatient : request.desired = .running → ¬records.HalfStopped) : Yields records records' := by
  have hparked := requestControl_parked h hpatient
  obtain ⟨-, ⟨-, rfl⟩ | ⟨-, -, hnone, -, rfl⟩ | ⟨-, -, moved, hmoved, rfl⟩⟩ := requestControl_eq_ok h
  · exact ⟨fun _ => id, .inl rfl, fun _ => hparked⟩
  · exact ⟨fun _ => id, .inl rfl, fun _ => hparked⟩
  · obtain ⟨hlock, hrun⟩ := localTransition_runId hmoved
    exact ⟨hlock, hrun, fun _ => hparked⟩

theorem editTask_yields {version : Nat} {behavioral clear : Bool} {document : TaskDocument}
    {identifier : OperationId} {identifiers : List ResourceId} {resources : Resources}
    {sameIdentity : ResourceId → Bool}
    (h : editTask records version behavioral clear document identifier identifiers resources
      sameIdentity = .ok records') : Yields records records' := by
  obtain ⟨-, edited, hedited, rfl⟩ := editTask_eq_ok h
  have hqueued := editIntent_queued hedited
  obtain rfl | ⟨-, rfl⟩ | ⟨hrunning, rfl⟩ := editIntent_eq_ok hedited
  · exact .of_same (fun _ => id) rfl rfl rfl rfl rfl
  · exact .of_same (fun _ => id) rfl rfl rfl rfl rfl
  · -- only a task on a node is asked to stop
    refine ⟨fun _ => id, .inl rfl, fun _ _ _ hnone => ?_⟩
    have hsame := (hqueued hnone).trans hrunning
    cases hsame

theorem claimed_yields : Yields records records.claimed :=
  .of_same (fun _ => id) rfl rfl rfl rfl rfl

theorem finishClaimed_yields {restart : Bool} {operationId : Option OperationId}
    {operations : List Operation}
    (h : finishBlockedRun records.claimed restart operationId = .ok records') :
    Yields records { records' with operations } := by
  obtain ⟨-, _, rfl⟩ := finishBlockedRun_eq_ok h
  exact .of_noLock (@closeRun_lock_le records.claimed _) (.inl rfl)
    (@closeRun_lock records.claimed)

theorem requestBlockedRestart_yields {identifier : OperationId} {reachable : Bool}
    {resources : Resources}
    (h : requestBlockedRestart records identifier reachable resources = .ok records') :
    Yields records records' := by
  obtain rfl | hblocked := requestBlockedRestart_blocked h
  · exact claimed_yields
  obtain rfl | ⟨_, _, _, hfinished, rfl⟩ | ⟨_, rfl⟩ := requestBlockedRestart_eq_ok h
  · exact claimed_yields
  · exact finishClaimed_yields hfinished
  · exact ⟨fun _ => id, .inl rfl, fun _ _ _ => .of_blocked hblocked⟩

theorem confirmNodeIsolation_yields {nodeId : NodeId}
    (h : confirmNodeIsolation records nodeId = some records') : Yields records records' := by
  simp only [confirmNodeIsolation] at h
  split at h
  · cases h
  split at h
  · cases h
    exact .of_noLock closeRun_lock_le (.inl rfl) closeRun_lock
  · rename_i hdesired
    cases h
    refine ⟨?_, ?_, fun _ _ _ => ?_⟩
    · split <;> exact fun _ => id
    · split <;> exact .inl rfl
    · split <;> exact fun _ _ _ => .inl ⟨.inl rfl, hdesired⟩

/-- Of the writes that are no cleanup's, only a pause takes the node away. -/
theorem OwnerWrite.apply_yields {write : OwnerWrite} {owner : Owner}
    (h : write.apply owner records = some records') (hcleans : write.cleans = false) :
    Yields records records' := by
  cases write with
  | prepare marker =>
    simp only [OwnerWrite.apply] at h
    split at h
    · cases h
    · obtain ⟨-, rfl⟩ := updateOne_eq_some.1 h
      exact .of_same (fun _ => id) rfl rfl rfl rfl rfl
  | pause =>
    obtain ⟨⟨-, hdesired⟩, rfl⟩ := updateOne_eq_some.1 h
    exact .withTask rfl fun _ _ _ _ _ _ =>
      .inl ⟨.inl rfl, fun hstop => by cases hdesired.symm.trans hstop⟩
  | pausePending =>
    obtain ⟨⟨-, hdesired, -⟩, rfl⟩ := updateOne_eq_some.1 h
    exact .withTask rfl fun _ _ _ _ _ _ =>
      .inl ⟨.inl rfl, fun hstop => by cases hdesired.symm.trans hstop⟩
  | runtimeState state sessionId =>
    obtain ⟨⟨howner, -⟩, rfl⟩ := updateOne_eq_some.1 h
    exact .withTask rfl fun _ _ _ => .of_node howner.2.1
  | pausing | block =>
    obtain ⟨howner, rfl⟩ := updateOne_eq_some.1 h
    exact .withTask rfl fun _ _ _ => .of_node howner.2.1
  | closedReceipt | fence =>
    obtain ⟨⟨howner, -⟩, rfl⟩ := updateOne_eq_some.1 h
    exact .withTask rfl fun _ _ _ => .of_node howner.2.1
  | stopPending | restartPending | closing | detach | restart => cases hcleans

theorem completeRun_yields {marker : DeploymentMarker}
    (h : completeRun records marker = some records') : Yields records records' := by
  obtain ⟨run, -, -, ⟨-, rfl⟩ | ⟨hattached, rfl⟩⟩ := completeRun_eq_some h
  · exact .of_same (fun _ => id) rfl rfl rfl rfl rfl
  · have hrun : records.task.runId = some marker.runId := hattached.1.1.1
    refine .of_noLock deleteLock_le (.inl ?_) fun howned => deleteLock_lock howned hrun
    simp only [Records.withTask_task, Task.deployed]
    split <;> rfl

/-- A task that is stopped for its device's sake was to run, so it had no lock or a node. -/
theorem stopForResourceHealth_yields {owner : Option Owner} {claimVersion : Nat}
    {identifier : ResourceId} {resource : Resource} {operationId : OperationId}
    (h : stopForResourceHealth records owner claimVersion identifier resource operationId =
      some records') (hwork : records.task.nodeId = none → ¬records.task.AtRest) :
    Yields records records' := by
  obtain ⟨hrunning, _, _, rfl⟩ := stopForResourceHealth_eq_some h
  refine ⟨fun _ => id, .inl rfl, fun _ _ hparked hnone hthere hlock => ?_⟩
  obtain ⟨hrest, -⟩ | hblocked | ⟨-, hhalted⟩ := hparked hnone hthere hlock
  · exact absurd hrest (hwork hnone)
  · exact .inr (.inl hblocked)
  · exact absurd hrunning hhalted

theorem applyFailure_yields {identifier : ResourceId} {resource : Resource}
    {operationId : OperationId}
    (h : applyFailure records identifier resource operationId = some records') :
    Yields records records' := by
  obtain ⟨hpaused, hwaiting⟩ := applyFailure_atWork h
  obtain ⟨_, -, rfl⟩ | hstop := applyFailure_eq_some h
  · exact .of_same (fun _ => id) rfl rfl rfl rfl rfl
  · exact stopForResourceHealth_yields hstop fun _ hrest => hrest.elim hpaused hwaiting

theorem transitionIdentityTask_yields : Yields records (transitionIdentityTask records) := by
  simp only [transitionIdentityTask]
  split
  · exact .refl
  split
  · rename_i hnode
    exact .withTask rfl fun _ _ _ hnone => absurd hnone hnode.1
  split
  · exact .closeRun (.inr rfl)
  split
  · exact .closeRun (.inr rfl)
  · exact .refl

theorem authorizeHealthRecoveries_yields {identifier : ResourceId} :
    Yields records (authorizeHealthRecoveries records identifier) := by
  simp only [authorizeHealthRecoveries]
  split
  · exact .refl
  · split
    · exact .of_same (fun _ => id) rfl rfl rfl rfl rfl
    · exact .refl

theorem grantAfterUserAuthentication_yields {identifier : ResourceId} {identityChanged : Bool} :
    Yields records (grantAfterUserAuthentication records identifier identityChanged) := by
  simp only [grantAfterUserAuthentication]
  have hmoved : Yields records
      (if records.task.resourceId = identifier ∧ identityChanged = true then
        transitionIdentityTask records else records) := by
    split
    · exact transitionIdentityTask_yields
    · exact .refl
  split
  · exact .refl
  split
  · exact hmoved
  split
  · exact ⟨hmoved.lock, hmoved.runId, fun hrests howned hparked =>
      (hmoved.parked hrests howned hparked).of_same (fun _ => id) rfl rfl rfl rfl⟩
  · exact hmoved

theorem resumeAfterProbe_yields {identifier : ResourceId} {timely : Bool} :
    Yields records (resumeAfterProbe records identifier timely) := by
  simp only [resumeAfterProbe]
  split
  · exact .refl
  · split
    · rename_i hwaiting
      -- it waits for its device no longer, and is still to run
      exact .withTask rfl fun _ _ _ _ _ _ =>
        .inl ⟨.inl rfl, fun hstop => by cases hwaiting.2.2.1.symm.trans hstop⟩
    · exact .refl

theorem applySuccess_yields {identifier : ResourceId}
    {identityChanged authorizeUserRecovery timely : Bool} :
    Yields records
      (applySuccess records identifier identityChanged authorizeUserRecovery timely) := by
  simp only [applySuccess]
  have hmoved : Yields records (if identityChanged = true ∧ records.task.linked identifier ∧
      records.task.deleted = false then transitionIdentityTask records else records) := by
    split
    · exact transitionIdentityTask_yields
    · exact .refl
  have hrests : Rests records.task → Rests (if identityChanged = true ∧
      records.task.linked identifier ∧ records.task.deleted = false then
        transitionIdentityTask records else records).task := by
    intro hrest
    split
    · exact transitionIdentityTask_rests hrest
    · exact hrest
  have howned : LockOwned records → LockOwned (if identityChanged = true ∧
      records.task.linked identifier ∧ records.task.deleted = false then
        transitionIdentityTask records else records) := by
    split
    · exact transitionIdentityTask_keeps.lock
    · exact id
  have hauthorized := hmoved.trans (@authorizeHealthRecoveries_yields _ identifier)
    hrests howned
  split
  · refine Yields.trans ?_ resumeAfterProbe_yields
      (fun h => grantAfterUserAuthentication_rests (authorizeHealthRecoveries_rests (hrests h)))
      (fun h => grantAfterUserAuthentication_keeps.lock
        (authorizeHealthRecoveries_keeps.lock (howned h)))
    exact hauthorized.trans grantAfterUserAuthentication_yields
      (fun h => authorizeHealthRecoveries_rests (hrests h))
      (fun h => authorizeHealthRecoveries_keeps.lock (howned h))
  · exact hauthorized.trans resumeAfterProbe_yields
      (fun h => authorizeHealthRecoveries_rests (hrests h))
      (fun h => authorizeHealthRecoveries_keeps.lock (howned h))

theorem consumeAuthorizedRecovery_yields {identifier : ResourceId} {resource : Resource}
    (h : consumeAuthorizedRecovery records identifier resource = some records') :
    Yields records records' := by
  simp only [consumeAuthorizedRecovery] at h
  split at h
  · cases h
  split at h
  · cases h
  rename_i hready
  have hlock : records.lock = none := (not_not.1 hready).2.2.2.2.2.2.2
  split at h
  · cases h
    exact .withTask rfl fun _ _ _ => .of_noLock hlock
  split at h
  · cases h
    exact .of_noLock (fun _ => id) (.inr rfl) fun _ => hlock
  · cases h
    exact .withTask rfl fun _ _ _ => .of_noLock hlock

/-! ## Every act -/

/-- A claim that binds the task makes an owner of the next generation. -/
def Binds (records records' : Records) : Prop :=
  records'.task.generation = records.task.generation + 1 ∧ ∃ nodeId, records'.task.nodeId = some nodeId

theorem claimTask_yields_or_binds {status : Status} {runId : Option RunId} {newRun : RunId}
    {nodeId : NodeId} {admitted : Bool} {resources : Resources}
    (h : claimTask records status runId newRun nodeId admitted resources = some records') :
    Yields records records' ∨ Binds records records' := by
  obtain ⟨-, -, -, -, rfl | ⟨claimed, rfl, -⟩⟩ := claimTask_eq_some h
  · exact .inl (.withTask rfl fun _ _ _ => .of_blocked rfl)
  · exact .inr ⟨rfl, nodeId, rfl⟩

theorem Act.apply_yields_or_binds {act : Act} (h : act.apply records = some records')
    (hcleans : act.cleans = false) (hpatient : (CleaningEvent.act act).Patient records) :
    Yields records records' ∨ Binds records records' := by
  cases act with
  | control request identifier resources =>
    obtain ⟨⟨_, operation⟩, hcontrol, rfl⟩ := Option.map_eq_some_iff.1 h
    exact .inl (requestControl_yields (toOption_eq_some.1 hcontrol) hpatient)
  | edit => exact .inl (editTask_yields (toOption_eq_some.1 h))
  | delete =>
    simp only [Act.apply, deleteTask, toOption_eq_some, bind_eq_ok] at h
    obtain ⟨_, _, h⟩ := h
    cases h
    exact .inl ⟨fun _ => id, .inl rfl, fun _ _ _ => .of_deleted rfl⟩
  | deleteResource =>
    cases h
    simp only [markResourceDeletion]
    split
    · exact .inl ⟨fun _ => id, .inl rfl, fun _ _ _ => .of_deleted rfl⟩
    · exact .inl (.of_same (fun _ => id) rfl rfl rfl rfl rfl)
  | restartBlocked => exact .inl (requestBlockedRestart_yields (toOption_eq_some.1 h))
  | isolateTask =>
    obtain rfl | ⟨_, _, _, hfinished, rfl⟩ := confirmTaskIsolation_eq_ok (toOption_eq_some.1 h)
    · exact .inl claimed_yields
    · exact .inl (finishClaimed_yields hfinished)
  | isolateNode => exact .inl (confirmNodeIsolation_yields h)
  | claim =>
    simp only [Act.apply, Option.ite_none_right_eq_some] at h
    exact claimTask_yields_or_binds h.2
  | consumeFailover =>
    obtain ⟨-, rfl | hfinished⟩ := consumeConfirmedFailover_eq_some h
    · exact .inl claimed_yields
    · exact .inl (finishClaimed_yields hfinished)
  | consumeRecovery =>
    simp only [Act.apply, Option.ite_none_right_eq_some] at h
    exact .inl (consumeAuthorizedRecovery_yields h.2)
  | reconcileStopped =>
    obtain ⟨⟨hstopped, -, hstatus, hblocked, -⟩, rfl⟩ := updateOne_eq_some.1 h
    refine .inl (.withTask rfl fun _ _ hparked hnone hthere hlock => ?_)
    -- a task that is to stop keeps no lock but one of a half-finished stop
    obtain ⟨-, hintent⟩ | hblocked' | ⟨hstatus', -⟩ := hparked hnone hthere hlock
    · exact absurd hstopped hintent
    · exact absurd hblocked' hblocked
    · exact absurd hstatus' hstatus
  | queue =>
    obtain ⟨⟨hoffered, -, hrunning, hstatus, -⟩, rfl⟩ := updateOne_eq_some.1 h
    refine .inl (.withTask rfl fun _ _ hparked hnone hthere hlock => ?_)
    rw [← hstatus] at hoffered
    obtain ⟨hpaused | hwaiting, -⟩ | hblocked | ⟨-, hhalted⟩ := hparked hnone hthere hlock
    · rw [hpaused] at hoffered
      exact absurd hoffered (by decide)
    · rw [hwaiting] at hoffered
      exact absurd hoffered (by decide)
    · rw [hblocked] at hoffered
      exact absurd hoffered (by decide)
    · exact absurd hrunning hhalted
  | sweepStopped =>
    simp only [Act.apply, Tasks.sweepStopped] at h
    split at h
    · cases h
    · obtain ⟨-, rfl⟩ := updateOne_eq_some.1 h
      exact .inl (.of_same (fun _ => id) rfl rfl rfl rfl rfl)
  | sweepIntent =>
    obtain ⟨hdeleted, rfl⟩ := updateOne_eq_some.1 h
    exact .inl (.withTask rfl fun _ _ _ => .of_deleted hdeleted)
  | sweepPaused =>
    obtain ⟨⟨hdeleted, -⟩, rfl⟩ := updateOne_eq_some.1 h
    exact .inl (.withTask rfl fun _ _ _ => .of_deleted hdeleted)
  | write => exact .inl (OwnerWrite.apply_yields h hcleans)
  | dropReleasedLock =>
    obtain ⟨-, rfl⟩ := updateOne_eq_some.1 h
    exact .inl (.of_same deleteLock_le rfl rfl rfl rfl rfl)
  | endReleasedRun =>
    obtain ⟨-, rfl⟩ := updateOne_eq_some.1 h
    exact .inl (.of_same (fun _ => id) rfl rfl rfl rfl rfl)
  | markPlannedRestart =>
    obtain ⟨-, rfl⟩ := updateOne_eq_some.1 h
    exact .inl (.of_same (fun _ => id) rfl rfl rfl rfl rfl)
  | recoverPlanned =>
    obtain ⟨-, rfl⟩ := updateOne_eq_some.1 h
    exact .inl (.closeRun (.inl rfl))
  | finalizeClosed =>
    obtain rfl | ⟨_, _, hfinished, -⟩ := finalizeClosedTask_eq_some h
    · exact .inl claimed_yields
    · exact .inl (finishClaimed_yields hfinished)
  | stopUnresponsive =>
    simp only [Act.apply, Option.ite_none_right_eq_some] at h
    refine .inl (stopForResourceHealth_yields h.2 fun hnone => ?_)
    have howner := (stopForResourceHealth_owner h.2).2.1
    rw [hnone] at howner
    cases howner
  | settle =>
    cases h
    exact .inl (.of_same (fun _ => id) rfl rfl rfl rfl rfl)
  | preparePending =>
    obtain ⟨⟨-, -, hrun⟩, rfl⟩ := updateOne_eq_some.1 h
    refine .inl (.of_noLock (fun _ => id) (.inl rfl) fun howned => ?_)
    refine Option.eq_none_iff_forall_not_mem.2 fun lock hmem => ?_
    have hsame := howned lock hmem
    rw [hrun] at hsame
    cases hsame
  | complete => exact .inl (completeRun_yields h)
  | healthFailure =>
    simp only [Act.apply, Option.ite_none_right_eq_some] at h
    exact .inl (applyFailure_yields h.2)
  | healthSuccess =>
    simp only [Act.apply, Option.ite_none_right_eq_some, Option.some.injEq] at h
    obtain ⟨-, rfl⟩ := h
    exact .inl applySuccess_yields
  | userAuthentication =>
    simp only [Act.apply, Option.ite_none_right_eq_some, Option.some.injEq] at h
    obtain ⟨-, rfl⟩ := h
    exact .inl grantAfterUserAuthentication_yields
  | blockStale =>
    obtain ⟨-, rfl⟩ := updateOne_eq_some.1 h
    exact .inl (.withTask rfl fun _ _ _ => .of_blocked rfl)

/-! ## The writes of a cleanup -/

/-- Past its second write a cleanup has left no lock, as long as the task is its owner's. -/
def Cleanup.Unlocks (cleanup : Cleanup) (records : Records) : Prop :=
  cleanup.stage ≠ .begun → records.task.runId = some cleanup.owner.runId →
    records.task.generation = cleanup.owner.generation → records.lock = none

theorem Yields.unlocks {cleanup : Cleanup} (h : Yields records records')
    (hgeneration : records'.task.generation = records.task.generation)
    (hunlocks : cleanup.Unlocks records) : cleanup.Unlocks records' := by
  intro hstage hrun hsame
  rw [hgeneration] at hsame
  obtain hkept | hnone := h.runId
  · rw [hkept] at hrun
    have hlock := hunlocks hstage hrun hsame
    refine Option.eq_none_iff_forall_not_mem.2 fun lock hmem => ?_
    have hbefore := h.lock lock hmem
    rw [hlock] at hbefore
    cases hbefore
  · rw [hnone] at hrun
    cases hrun

theorem Procedure.first_yields {procedure : Procedure} {owner : Owner}
    (h : procedure.first.apply owner records = some records') :
    records.task.generation = owner.generation ∧ Yields records records' := by
  cases procedure with
  | release failed =>
    obtain ⟨howner, rfl⟩ := updateOne_eq_some.1 h
    -- it keeps the node until the lock is gone
    refine ⟨howner.2.2, fun _ => id, .inl ?_, fun _ _ _ => @Parked.of_node _ owner.nodeId ?_⟩
    · cases failed <;> rfl
    · cases failed <;> exact howner.2.1
  | stopPending =>
    obtain ⟨⟨howner, -, hstopped⟩, rfl⟩ := updateOne_eq_some.1 h
    refine ⟨howner.2.2, fun _ => id, .inl rfl, fun _ _ _ _ _ _ => .inr (.inr ⟨rfl, ?_⟩)⟩
    exact fun hrunning => by cases hstopped.symm.trans hrunning

theorem OwnerWrite.attempt_keeps {write : OwnerWrite} {owner : Owner} :
    Keeps records (write.attempt owner records) := by
  unfold OwnerWrite.attempt
  cases h : write.apply owner records with
  | none => exact .refl
  | some records' => exact OwnerWrite.apply_keeps h

theorem OwnerWrite.attempt_rests {write : OwnerWrite} {owner : Owner}
    (hrests : Rests records.task) : Rests (write.attempt owner records).task := by
  unfold OwnerWrite.attempt
  cases h : write.apply owner records with
  | none => exact hrests
  | some records' => exact OwnerWrite.apply_rests h hrests

/-- A write of an owner whose run has lost its lock, where it reaches the task at all. -/
theorem OwnerWrite.attempt_yields {write : OwnerWrite} {owner : Owner}
    (hlock : ownerFilter owner records.task ∨ formerOwnerFilter owner records.task →
      records.lock = none) : Yields records (write.attempt owner records) := by
  unfold OwnerWrite.attempt
  cases h : write.apply owner records with
  | none => exact .refl
  | some records' =>
    have hnone := hlock (OwnerWrite.apply_filter h)
    have hsame : records'.lock = records.lock ∧ records'.task.runId = records.task.runId := by
      cases write with
      | prepare marker =>
        simp only [OwnerWrite.apply] at h
        split at h
        · cases h
        · obtain ⟨-, rfl⟩ := updateOne_eq_some.1 h
          exact ⟨rfl, rfl⟩
      | closing failed | detach failed =>
        obtain ⟨-, rfl⟩ := updateOne_eq_some.1 h
        cases failed <;> exact ⟨rfl, rfl⟩
      | _ =>
        obtain ⟨-, rfl⟩ := updateOne_eq_some.1 h
        exact ⟨rfl, rfl⟩
    refine .of_noLock (fun lock hmem => ?_) (.inl hsame.2) fun _ => hsame.1.trans hnone
    rwa [← hsame.1]

theorem Cleanup.Unlocks.noLock {cleanup : Cleanup} (h : cleanup.Unlocks records)
    (hstage : cleanup.stage ≠ .begun)
    (hfilter : ownerFilter cleanup.owner records.task ∨
      formerOwnerFilter cleanup.owner records.task) : records.lock = none := by
  obtain ⟨hrun, -, hgeneration⟩ | ⟨hrun, -, hgeneration⟩ := hfilter
  · exact h hstage hrun hgeneration
  · exact h hstage hrun hgeneration

/-- What the next write of a cleanup does to the documents. -/
theorem Cleanup.write_spec {cleanup : Cleanup} (hunlocks : cleanup.Unlocks records) :
    Yields records (cleanup.write records) ∧ Keeps records (cleanup.write records) ∧
      (Rests records.task → Rests (cleanup.write records).task) := by
  obtain ⟨procedure, owner, stage⟩ := cleanup
  cases stage with
  | begun =>
    exact ⟨.of_same deleteLock_le rfl rfl rfl rfl rfl,
      .of_sameTask rfl rfl deleteLock_le fun _ => id, id⟩
  | unlocked =>
    exact ⟨.of_same (fun _ => id) rfl rfl rfl rfl rfl,
      .of_sameTask rfl rfl (fun _ => id) fun _ => id, id⟩
  | ended =>
    cases procedure with
    | release failed =>
      exact ⟨OwnerWrite.attempt_yields (hunlocks.noLock nofun), OwnerWrite.attempt_keeps,
        OwnerWrite.attempt_rests⟩
    | stopPending =>
      exact ⟨OwnerWrite.attempt_yields (hunlocks.noLock nofun), OwnerWrite.attempt_keeps,
        OwnerWrite.attempt_rests⟩
  | detached =>
    exact ⟨OwnerWrite.attempt_yields (hunlocks.noLock nofun), OwnerWrite.attempt_keeps,
      OwnerWrite.attempt_rests⟩

/-- After its next write a cleanup goes on for the same owner, with no lock left. -/
theorem Cleanup.next_unlocks {cleanup following : Cleanup} (h : cleanup.next = some following)
    (hunlocks : cleanup.Unlocks records) (howned : LockOwned records) :
    following.owner = cleanup.owner ∧ following.Unlocks (cleanup.write records) := by
  obtain ⟨hyields, hkeeps, -⟩ := write_spec hunlocks
  obtain ⟨procedure, owner, stage⟩ := cleanup
  cases stage with
  | begun =>
    cases h
    exact ⟨rfl, fun _ hrun _ => deleteLock_lock howned hrun⟩
  | unlocked =>
    cases h
    exact ⟨rfl, fun _ => @Yields.unlocks _ _ ⟨procedure, owner, .unlocked⟩ hyields
      hkeeps.generation hunlocks nofun⟩
  | ended =>
    cases procedure with
    | release failed =>
      cases h
      exact ⟨rfl, fun _ => @Yields.unlocks _ _ ⟨.release failed, owner, .ended⟩ hyields
        hkeeps.generation hunlocks nofun⟩
    | stopPending => cases h
  | detached => cases h

/-! ## Every run -/

structure Kept (state : Cleaning) : Prop where
  rests : Rests state.records.task
  owned : LockOwned state.records
  parked : Parked state.records
  bounded : ∀ cleanup ∈ state.cleanups,
    cleanup.owner.generation ≤ state.records.task.generation
  unlocked : ∀ cleanup ∈ state.cleanups, cleanup.Unlocks state.records

theorem CleaningInitial.kept {state : Cleaning} (h : CleaningInitial state) : Kept state where
  rests := .of_none h.1.nodeId
  owned := by simp [LockOwned, h.1.lock]
  parked := .of_noLock h.1.lock
  bounded := by simp [h.2]
  unlocked := by simp [h.2]

/-- Fewer cleanups under way. -/
theorem Kept.fewer {state : Cleaning} {cleanups : List Cleanup} (h : Kept state)
    (hle : ∀ cleanup ∈ cleanups, cleanup ∈ state.cleanups) : Kept { state with cleanups } where
  rests := h.rests
  owned := h.owned
  parked := h.parked
  bounded := fun cleanup hmem => h.bounded cleanup (hle cleanup hmem)
  unlocked := fun cleanup hmem => h.unlocked cleanup (hle cleanup hmem)

/-- The documents change as everything but a binding claim changes them. -/
theorem Kept.yields {state : Cleaning} (h : Kept state) (hyields : Yields state.records records')
    (hkeeps : Keeps state.records records') (hrests : Rests records'.task) :
    Kept { state with records := records' } where
  rests := hrests
  owned := hkeeps.lock h.owned
  parked := hyields.parked h.rests h.owned h.parked
  bounded := fun cleanup hmem => (h.bounded cleanup hmem).trans_eq hkeeps.generation.symm
  unlocked := fun cleanup hmem => hyields.unlocks hkeeps.generation (h.unlocked cleanup hmem)

/-- A claim leaves every cleanup behind by a generation. -/
theorem Kept.raised {state : Cleaning} (h : Kept state)
    (hgeneration : records'.task.generation = state.records.task.generation + 1)
    (hparked : Parked records') (howned : LockOwned records') (hrests : Rests records'.task) :
    Kept { state with records := records' } where
  rests := hrests
  owned := howned
  parked := hparked
  bounded := by
    intro cleanup hmem
    have hbounded := h.bounded cleanup hmem
    show _ ≤ records'.task.generation
    omega
  unlocked := by
    intro cleanup hmem _ _ hsame
    have hbounded := h.bounded cleanup hmem
    change records'.task.generation = _ at hsame
    omega

theorem Kept.with {state : Cleaning} {cleanup : Cleanup} (h : Kept state)
    (hbounded : cleanup.owner.generation ≤ state.records.task.generation)
    (hunlocks : cleanup.Unlocks state.records) :
    Kept { state with cleanups := cleanup :: state.cleanups } where
  rests := h.rests
  owned := h.owned
  parked := h.parked
  bounded := List.forall_mem_cons.2 ⟨hbounded, h.bounded⟩
  unlocked := List.forall_mem_cons.2 ⟨hunlocks, h.unlocked⟩

theorem PatientStep.kept {state state' : Cleaning} (hstep : PatientStep state state')
    (h : Kept state) : Kept state' := by
  obtain ⟨event, hpatient, hevent⟩ := hstep
  cases event with
  | act act =>
    simp only [CleaningEvent.apply, Option.ite_none_left_eq_some, Option.map_eq_some_iff] at hevent
    obtain ⟨hcleans, records', hact, rfl⟩ := hevent
    have hrests := Act.apply_rests hact h.rests
    have heffect := Act.apply_yields_or_binds hact (by simpa using hcleans) hpatient
    obtain hkeeps | ⟨owner, hnext, hgeneration, -, -, -, -, howned⟩ := Act.apply_keeps_or_claims hact
    · obtain hyields | hbinds := heffect
      · exact h.yields hyields hkeeps hrests
      · exact h.raised hbinds.1 (.of_node hbinds.2.choose_spec) (hkeeps.lock h.owned) hrests
    · have hraised := hgeneration.trans hnext
      obtain hyields | hbinds := heffect
      · exact h.raised hraised (hyields.parked h.rests h.owned h.parked) howned hrests
      · exact h.raised hraised (.of_node hbinds.2.choose_spec) howned hrests
  | begin procedure owner =>
    simp only [CleaningEvent.apply, Option.map_eq_some_iff] at hevent
    obtain ⟨records', hfirst, rfl⟩ := hevent
    obtain ⟨hgeneration, hyields⟩ := Procedure.first_yields hfirst
    have hkeeps := OwnerWrite.apply_keeps hfirst
    have hkept := h.yields hyields hkeeps (OwnerWrite.apply_rests hfirst h.rests)
    exact hkept.with (hgeneration.symm.trans hkeeps.generation.symm).le fun hstage => absurd rfl hstage
  | advance cleanup =>
    simp only [CleaningEvent.apply, Option.ite_none_right_eq_some, Option.some.injEq] at hevent
    obtain ⟨hmem, rfl⟩ := hevent
    have hunlocks := h.unlocked cleanup hmem
    obtain ⟨hyields, hkeeps, hrests⟩ := Cleanup.write_spec hunlocks
    have hfewer : ∀ other ∈ state.cleanups.erase cleanup, other ∈ state.cleanups :=
      fun _ => List.mem_of_mem_erase
    have hkept := (h.yields hyields hkeeps (hrests h.rests)).fewer hfewer
    cases hnext : cleanup.next with
    | none => exact hkept
    | some following =>
      obtain ⟨howner, hfollowing⟩ := Cleanup.next_unlocks hnext hunlocks h.owned
      refine hkept.with ?_ hfollowing
      rw [howner]
      exact (h.bounded cleanup hmem).trans_eq hkeeps.generation.symm
  | crash cleanup =>
    cases hevent
    exact h.fewer fun _ => List.mem_of_mem_erase

theorem reachable_kept {state : Cleaning} (h : Reachable CleaningInitial PatientStep state) :
    Kept state :=
  h.invariant (fun _ => CleaningInitial.kept) fun _ _ => PatientStep.kept

/-- A parked lock stands in no new run's way. -/
theorem Parked.unlocked (h : Parked records) : records.Unlocked := by
  obtain hlock | hlock := Classical.em (records.lock = none)
  · exact fun _ => hlock
  · intro ⟨hrunning, hnone, hthere, hstatus⟩
    obtain ⟨hpaused | hwaiting, -⟩ | hblocked | ⟨-, hhalted⟩ := h hnone hthere hlock
    · rw [hpaused] at hstatus
      exact absurd hstatus (by decide)
    · rw [hwaiting] at hstatus
      exact absurd hstatus (by decide)
    · rw [hblocked] at hstatus
      exact absurd hstatus (by decide)
    · exact absurd hrunning hhalted

/-- Without a lock a claim blocks nothing. -/
theorem claimTask_bound {status : Status} {runId : Option RunId} {newRun : RunId}
    {nodeId : NodeId} {admitted : Bool} {resources : Resources} (hlock : records.lock = none)
    (h : claimTask records status runId newRun nodeId admitted resources = some records') :
    records'.task.status = .pending := by
  simp only [claimTask, hlock] at h
  split at h
  · split at h
    · rename_i hheld
      cases hheld
    · cases h
      rfl
  · cases h

/-- A start that is accepted while the task is half stopped leaves it to run with its lock. -/
theorem requestControl_halfStopped {request : Request} {identifier : OperationId}
    {resources : Resources} {operation : Operation}
    (h : requestControl records request.desired request.requirePaused identifier resources =
      .ok (records', operation))
    (hrunning : request.desired = .running) (hhalf : records.HalfStopped)
    (hparked : Parked records) : ¬records'.Unlocked := by
  obtain ⟨hnone, hstopped, hlock⟩ := hhalf
  obtain ⟨hthere, hcases⟩ := requestControl_eq_ok h
  have hthere : records.task.deleted = false := hthere (by rw [hrunning]; decide)
  -- what is to run already has no such lock, so the start is a new intent
  have hhalted : records.task.desiredState ≠ .running := by
    intro hdesired
    obtain ⟨hrest, -⟩ | hblocked | ⟨-, hhalted⟩ := hparked hnone hthere hlock
    · obtain hpaused | hwaiting := hrest
      · cases hpaused.symm.trans hstopped
      · cases hwaiting.symm.trans hstopped
    · cases hblocked.symm.trans hstopped
    · exact hhalted hdesired
  obtain ⟨hreplayed, -⟩ | ⟨-, hpaused, -⟩ | ⟨-, -, moved, hmoved, rfl⟩ := hcases
  · obtain hprevious | ⟨-, hwaiting⟩ := hreplayed
    · rw [hrunning] at hprevious
      exact absurd (by simp [previousOperation, claimControl, hhalted]) hprevious
    · cases hwaiting.symm.trans hstopped
  · cases hpaused.symm.trans hstopped
  · have hsame : moved = claimControl records request.desired := by
      rw [hrunning] at hmoved ⊢
      obtain ⟨hsame, -⟩ | ⟨hother, -⟩ | ⟨hother, -⟩ | ⟨hother, -⟩ | ⟨-, -, herror, -⟩ :=
        localTransition_eq_ok hmoved
      · exact hsame
      · cases hother
      · cases hother
      · cases hother
      · cases herror.symm.trans hstopped
    subst hsame
    intro hunlocked
    exact hlock (hunlocked ⟨hrunning, hnone, hthere, .inl hstopped⟩)

/-- In a run whose starts wait for a half-finished stop to be over, no lock stands in the way of
a new run and no claim of one blocks the task; and the first start that does not wait leaves
a lock in the way. -/
theorem cleanup_unlocks (state : Cleaning)
    (h : Reachable CleaningInitial PatientStep state) :
    state.records.Unlocked ∧
    (∀ status runId newRun nodeId admitted resources records',
      (status = .stopped ∨ status = .pending) →
        claimTask state.records status runId newRun nodeId admitted resources = some records' →
          records'.task.status ≠ .blocked) ∧
    ∀ (event : CleaningEvent) (state' : Cleaning), event.apply state = some state' →
      (state'.records.Unlocked ↔ event.Patient state.records) := by
  have hkept := reachable_kept h
  refine ⟨hkept.parked.unlocked, ?_, ?_⟩
  · intro status runId newRun nodeId admitted resources records' hstatus hclaim
    obtain ⟨hnone, hthere, hrunning, hsame, -⟩ := claimTask_eq_some hclaim
    rw [← hsame] at hstatus
    have hlock := hkept.parked.unlocked ⟨hrunning, hnone, hthere, hstatus⟩
    rw [claimTask_bound hlock hclaim]
    decide
  · intro event state' hevent
    by_cases hpatient : event.Patient state.records
    · have hkept' := PatientStep.kept ⟨event, hpatient, hevent⟩ hkept
      exact ⟨fun _ => hpatient, fun _ => hkept'.parked.unlocked⟩
    · refine ⟨fun hunlocked => absurd hunlocked ?_, fun h => absurd h hpatient⟩
      cases event with
      | act taskAct =>
        cases taskAct with
        | control request identifier resources =>
          simp only [CleaningEvent.Patient, Classical.not_imp, not_not] at hpatient
          obtain ⟨hrunning, hhalf⟩ := hpatient
          simp only [CleaningEvent.apply, Option.ite_none_left_eq_some, Option.map_eq_some_iff]
            at hevent
          obtain ⟨-, records', hact, rfl⟩ := hevent
          obtain ⟨⟨_, operation⟩, hcontrol, rfl⟩ := Option.map_eq_some_iff.1 hact
          exact requestControl_halfStopped (toOption_eq_some.1 hcontrol) hrunning hhalf hkept.parked
        | _ => exact absurd trivial hpatient
      | _ => exact absurd trivial hpatient

/-! A task that is stopped while it queues and started again, after the worker has done all of
its writes; and after it has died behind the first of them. -/

def halfStopped : List CleaningEvent :=
  [.act (claimNew 7 1), .act (.control .stop 1 onlineDevice), .begin .stopPending ⟨7, 1, 1⟩]

def stopPendingDone : List CleaningEvent :=
  [.advance ⟨.stopPending, ⟨7, 1, 1⟩, .begun⟩, .advance ⟨.stopPending, ⟨7, 1, 1⟩, .unlocked⟩,
    .advance ⟨.stopPending, ⟨7, 1, 1⟩, .ended⟩]

/-- An event that does not come too early. -/
def patientEvent (event : CleaningEvent) (state : Cleaning) : Option Cleaning :=
  if event.Patient state.records then event.apply state else none

theorem cleanup_unlocks_stopped :
    ∃ state, Reachable CleaningInitial PatientStep state ∧ state.records.task.ClaimableAsNew ∧
      state.records.lock = none := by
  have hrun : ∃ state, Lib.runActs patientEvent (halfStopped ++ stopPendingDone ++
      [.act (.control .start 2 onlineDevice)]) ⟨newRecords, []⟩ = some state ∧
      state.records.task.ClaimableAsNew := ⟨_, rfl, by decide⟩
  obtain ⟨state, hrun, hclaimable⟩ := hrun
  have hsteps := Lib.runActs_steps hrun
  have hreach : Reachable CleaningInitial PatientStep state := by
    refine ⟨_, ⟨newRecords_initial, rfl⟩, Relation.ReflTransGen.mono ?_ _ _ hsteps⟩
    intro before after ⟨event, hevent⟩
    obtain ⟨hpatient, hevent⟩ := Option.ite_none_right_eq_some.1 hevent
    exact ⟨event, hpatient, hevent⟩
  exact ⟨state, hreach, hclaimable, (cleanup_unlocks state hreach).1 hclaimable⟩

/-- Anything at all happens. -/
def CleaningStep (state state' : Cleaning) : Prop :=
  ∃ event : CleaningEvent, event.apply state = some state'

/-- The worker dies there, the user starts the task again, and the claim blocks it. -/
theorem cleanup_left_over :
    ∃ state, Reachable CleaningInitial CleaningStep state ∧ ¬state.records.Unlocked ∧
      ∃ records', claimTask state.records .stopped (some 7) 8 2 true onlineDevice =
        some records' ∧ records'.task.status = .blocked := by
  have hrun : ∃ state, Lib.runActs CleaningEvent.apply (halfStopped ++
      [.crash ⟨.stopPending, ⟨7, 1, 1⟩, .begun⟩, .act (.control .start 2 onlineDevice)])
        ⟨newRecords, []⟩ = some state ∧
      state.records.task.ClaimableAsNew ∧ state.records.lock = some ⟨("10.0.0.1", 22), 7⟩ ∧
      (claimTask state.records .stopped (some 7) 8 2 true onlineDevice).map
        (fun records => records.task.status) = some .blocked := ⟨_, rfl, by decide, rfl, rfl⟩
  obtain ⟨state, hrun, hclaimable, hlock, hclaim⟩ := hrun
  refine ⟨state, ⟨_, ⟨newRecords_initial, rfl⟩, Lib.runActs_steps hrun⟩, fun hunlocked => ?_,
    Option.map_eq_some_iff.1 hclaim⟩
  have hnone := hunlocked hclaimable
  rw [hlock] at hnone
  cases hnone

end CameraLogs.Tasks
