import CameraLogs.Tasks.Rest

/-!
# Can a paused task be resumed?

A resume asks for the lock of the paused run and for its open record. `Resumable` says that
a task at rest has both for the run it keeps, and that a task on a node has both as long as
nobody has begun to give the run up. What gives a run up without taking the task out of
rest, or puts a task to rest whose run is being given up, breaks it; `Act.Regular` is an act
that does neither.
-/

namespace CameraLogs.Tasks

open Lib

variable {records records' : Records}

/-- The lock is of this run, and the run is open. -/
def Records.Held (records : Records) (runId : RunId) : Prop :=
  records.lock.map EndpointLock.runId = some runId ∧
    (records.runs runId).map Run.ended = some false

structure Resumable (records : Records) : Prop where
  holds : ∀ runId, records.task.runId = some runId → records.task.AtRest →
    records.Held runId ∧ runId ∉ records.released
  owns : ∀ runId, records.task.runId = some runId → records.task.nodeId ≠ none →
    runId ∉ records.released → records.Held runId

/-- A task with no node that is not at rest keeps nothing. -/
theorem Resumable.of_idle (hnode : records.task.nodeId = none)
    (hpaused : records.task.status ≠ .paused) (hwaiting : records.task.status ≠ .waitingDevice) :
    Resumable records where
  holds := fun _ _ hrest => (hrest.elim hpaused hwaiting).elim
  owns := fun _ _ hassigned => absurd hnode hassigned

/-- A task without a run keeps nothing. -/
theorem Resumable.of_noRun (hrun : records.task.runId = none) : Resumable records where
  holds := fun _ hsome => absurd (hrun.symm.trans hsome) (by simp)
  owns := fun _ hsome => absurd (hrun.symm.trans hsome) (by simp)

/-- An update that leaves the lock, the runs and the owner alone, and puts nothing to rest. -/
theorem Resumable.of_same (h : Resumable records)
    (hrun : records'.task.runId = records.task.runId)
    (hnode : records'.task.nodeId = records.task.nodeId) (hlock : records'.lock = records.lock)
    (hruns : records'.runs = records.runs) (hreleased : records'.released = records.released)
    (hrest : records'.task.AtRest → records.task.AtRest) : Resumable records' := by
  have hheld : ∀ runId, records.Held runId → records'.Held runId := by
    intro runId hheld
    unfold Records.Held at hheld ⊢
    rwa [hlock, hruns]
  refine ⟨fun runId hsome hrests => ?_, fun runId hsome hassigned hkept => ?_⟩
  · obtain ⟨hheld', hkept⟩ := h.holds runId (hrun ▸ hsome) (hrest hrests)
    exact ⟨hheld runId hheld', hreleased ▸ hkept⟩
  · exact hheld runId (h.owns runId (hrun ▸ hsome) (hnode ▸ hassigned) (hreleased ▸ hkept))

/-- A change of the task alone that leaves its owner and its state. -/
theorem Resumable.withTask {task : Task} (h : Resumable records)
    (hrun : task.runId = records.task.runId) (hnode : task.nodeId = records.task.nodeId)
    (hstatus : task.status = records.task.status ∨ ¬task.AtRest) :
    Resumable (records.withTask task) := by
  refine h.of_same hrun hnode rfl rfl rfl fun hrest => ?_
  obtain hsame | hnot := hstatus
  · unfold Task.AtRest at hrest ⊢
    rwa [← hsame]
  · exact absurd hrest hnot

/-- A task of a run that is not being given up is put to rest. -/
theorem Resumable.pause (h : Resumable records) (hassigned : records.task.nodeId ≠ none)
    (hkept : ∀ runId ∈ records.task.runId, runId ∉ records.released) :
    Resumable (records.withTask { records.task with status := .paused, nodeId := none }) where
  holds := fun runId hsome _ =>
    ⟨h.owns runId hsome hassigned (hkept runId hsome), hkept runId hsome⟩
  owns := fun _ _ hnode => absurd rfl hnode

/-! ## The functions, one by one -/

theorem localTransition_resumable {desired : DesiredState}
    (h : localTransition records desired = .ok records') (hresumable : Resumable records) :
    Resumable records' := by
  obtain ⟨rfl, -⟩ | ⟨-, hnone, rfl⟩ | ⟨-, -, hwaiting, rfl⟩ | ⟨-, -, -, rfl⟩ | ⟨-, hnone, -, rfl⟩ :=
    localTransition_eq_ok h
  · exact hresumable
  · exact .of_idle hnone (by simp) (by simp)
  · exact hresumable.of_same rfl rfl rfl rfl rfl fun _ => .inr hwaiting
  · exact .of_noRun rfl
  · exact .of_idle hnone (by simp) (by simp)

theorem requestControl_resumable {request : Request} {identifier : OperationId}
    {resources : Resources} {operation : Operation}
    (h : requestControl records request.desired request.requirePaused identifier resources =
      .ok (records', operation)) (hresumable : Resumable records) : Resumable records' := by
  have hclaimed : ∀ desired, Resumable (claimControl records desired) :=
    fun desired => hresumable.withTask rfl rfl (.inl rfl)
  obtain ⟨-, ⟨-, rfl⟩ | ⟨-, hpaused, -, -, rfl⟩ | ⟨-, -, moved, hmoved, rfl⟩⟩ :=
    requestControl_eq_ok h
  · exact hclaimed _
  · exact hresumable.of_same rfl rfl rfl rfl rfl fun _ => .inl hpaused
  · exact (localTransition_resumable hmoved (hclaimed _)).of_same rfl rfl rfl rfl rfl id

theorem editTask_resumable {version : Nat} {behavioral clear : Bool} {document : TaskDocument}
    {identifier : OperationId} {identifiers : List ResourceId} {resources : Resources}
    {sameIdentity : ResourceId → Bool}
    (h : editTask records version behavioral clear document identifier identifiers resources
      sameIdentity = .ok records') (hresumable : Resumable records) : Resumable records' := by
  obtain ⟨-, edited, hedited, rfl⟩ := editTask_eq_ok h
  obtain rfl | ⟨-, rfl⟩ | ⟨-, rfl⟩ := editIntent_eq_ok hedited <;>
    exact hresumable.of_same rfl rfl rfl rfl rfl id

theorem finishBlockedRun_resumable {restart : Bool} {operationId : Option OperationId}
    (h : finishBlockedRun records restart operationId = .ok records') : Resumable records' := by
  obtain ⟨-, operations, rfl⟩ := finishBlockedRun_eq_ok h
  exact .of_idle rfl (by simp [finishedRecords]) (by simp [finishedRecords])

theorem claimed_resumable (hresumable : Resumable records) : Resumable records.claimed :=
  hresumable.withTask rfl rfl (.inl rfl)

theorem bind_resumable_new {owner : Owner} (hlock : records.lock = none)
    (hrun : records.runs owner.runId = none) : Resumable (records.bind owner) where
  holds := fun _ _ hrest => by simp [Task.AtRest, Records.bind] at hrest
  owns := fun runId hsome _ _ => by
    obtain rfl : owner.runId = runId := Option.some.inj hsome
    simp [Records.Held, Records.bind, Records.upsertRun, hlock, hrun]

theorem bind_resumable_again {owner : Owner} (hheld : records.Held owner.runId) :
    Resumable (records.bind owner) where
  holds := fun _ _ hrest => by simp [Task.AtRest, Records.bind] at hrest
  owns := fun runId hsome _ _ => by
    obtain rfl : owner.runId = runId := Option.some.inj hsome
    obtain ⟨hlock, hrun⟩ := hheld
    obtain ⟨lock, hlock, hsame⟩ := Option.map_eq_some_iff.1 hlock
    obtain ⟨run, hrun, hopen⟩ := Option.map_eq_some_iff.1 hrun
    simp [Records.Held, Records.bind, Records.upsertRun, hlock, hrun, hsame, hopen]

theorem claimTask_resumable {status : Status} {runId : Option RunId} {newRun : RunId}
    {nodeId : NodeId} {admitted : Bool} {resources : Resources}
    (h : claimTask records status runId newRun nodeId admitted resources = some records')
    (hfresh : records.Fresh newRun) (hresumable : Resumable records) : Resumable records' := by
  obtain ⟨hnode, -, -, -, rfl | ⟨claimed, rfl, hrun⟩⟩ := claimTask_eq_some h
  · exact .of_idle hnode (by simp) (by simp)
  · obtain ⟨rfl, hlock⟩ | ⟨hpaused, hsame, -⟩ := hrun
    · exact bind_resumable_new hlock hfresh.1
    · exact bind_resumable_again (hresumable.holds claimed hsame (.inl hpaused)).1

theorem stopForResourceHealth_resumable {owner : Option Owner} {claimVersion : Nat}
    {identifier : ResourceId} {resource : Resource} {operationId : OperationId}
    (h : stopForResourceHealth records owner claimVersion identifier resource operationId =
      some records') (hresumable : Resumable records) : Resumable records' := by
  obtain ⟨-, _, _, rfl⟩ := stopForResourceHealth_eq_some h
  exact hresumable.of_same rfl rfl rfl rfl rfl id

theorem applyFailure_resumable {identifier : ResourceId} {resource : Resource}
    {operationId : OperationId}
    (h : applyFailure records identifier resource operationId = some records')
    (hresumable : Resumable records) : Resumable records' := by
  obtain ⟨_, -, rfl⟩ | hstop := applyFailure_eq_some h
  · exact hresumable.withTask rfl rfl (.inl rfl)
  · exact stopForResourceHealth_resumable hstop hresumable

theorem transitionIdentityTask_resumable (hresumable : Resumable records) :
    Resumable (transitionIdentityTask records) := by
  simp only [transitionIdentityTask]
  split
  · exact hresumable
  split
  · exact hresumable.withTask rfl rfl (.inl rfl)
  split
  · exact .of_noRun rfl
  split
  · exact .of_noRun rfl
  · exact hresumable

theorem authorizeHealthRecoveries_resumable {identifier : ResourceId}
    (hresumable : Resumable records) :
    Resumable (authorizeHealthRecoveries records identifier) := by
  simp only [authorizeHealthRecoveries]
  split
  · exact hresumable
  · split
    · exact hresumable.withTask rfl rfl (.inl rfl)
    · exact hresumable

theorem grantAfterUserAuthentication_resumable {identifier : ResourceId} {identityChanged : Bool}
    (hresumable : Resumable records) :
    Resumable (grantAfterUserAuthentication records identifier identityChanged) := by
  simp only [grantAfterUserAuthentication]
  have hmoved : Resumable
      (if records.task.resourceId = identifier ∧ identityChanged = true then
        transitionIdentityTask records else records) := by
    split
    · exact transitionIdentityTask_resumable hresumable
    · exact hresumable
  split
  · exact hresumable
  split
  · exact hmoved
  split
  · exact hmoved.withTask rfl rfl (.inl rfl)
  · exact hmoved

theorem resumeAfterProbe_resumable {identifier : ResourceId} {timely : Bool}
    (hresumable : Resumable records) : Resumable (resumeAfterProbe records identifier timely) := by
  simp only [resumeAfterProbe]
  split
  · exact hresumable
  · split
    · rename_i hwaiting
      exact hresumable.of_same rfl rfl rfl rfl rfl fun _ => .inr hwaiting.2.1
    · exact hresumable

theorem applySuccess_resumable {identifier : ResourceId}
    {identityChanged authorizeUserRecovery timely : Bool} (hresumable : Resumable records) :
    Resumable
      (applySuccess records identifier identityChanged authorizeUserRecovery timely) := by
  simp only [applySuccess]
  refine resumeAfterProbe_resumable ?_
  have hmoved : Resumable (if identityChanged = true ∧ records.task.linked identifier ∧
      records.task.deleted = false then transitionIdentityTask records else records) := by
    split
    · exact transitionIdentityTask_resumable hresumable
    · exact hresumable
  split
  · exact grantAfterUserAuthentication_resumable (authorizeHealthRecoveries_resumable hmoved)
  · exact authorizeHealthRecoveries_resumable hmoved

theorem consumeAuthorizedRecovery_resumable {identifier : ResourceId} {resource : Resource}
    (h : consumeAuthorizedRecovery records identifier resource = some records')
    (hresumable : Resumable records) : Resumable records' := by
  simp only [consumeAuthorizedRecovery] at h
  split at h
  · cases h
  split at h
  · cases h
  rename_i hready
  have hnone := (not_not.1 hready).2.2.2.2.2.2.1
  split at h
  · cases h
    exact .of_idle hnone (by simp) (by simp)
  split at h
  · cases h
    exact .of_noRun rfl
  · cases h
    refine hresumable.of_same rfl rfl rfl rfl rfl fun hrest => ?_
    simp only [Task.AtRest, Records.withTask_task] at hrest
    split at hrest
    · simp at hrest
    · exact hrest

/-- A run being given up is not one that a task at rest keeps, nor one that its node still
has to itself. -/
theorem dropReleasedLock_resumable {runId : RunId} (hreleased : runId ∈ records.released)
    (hresumable : Resumable records) : Resumable (records.deleteLock runId) := by
  have hheld : ∀ other, other ∉ records.released → records.Held other →
      (records.deleteLock runId).Held other := by
    intro other hkept hheld
    obtain ⟨lock, hlock, hsame⟩ := Option.map_eq_some_iff.1 hheld.1
    refine ⟨?_, hheld.2⟩
    have hne : other ≠ runId := fun heq => hkept (heq ▸ hreleased)
    simp [Records.deleteLock, hlock, hsame, hne]
  refine ⟨fun other hsome hrest => ?_, fun other hsome hassigned hkept => ?_⟩
  · obtain ⟨hother, hkept⟩ := hresumable.holds other hsome hrest
    exact ⟨hheld other hkept hother, hkept⟩
  · exact hheld other hkept (hresumable.owns other hsome hassigned hkept)

theorem endReleasedRun_resumable {runId : RunId} (hreleased : runId ∈ records.released)
    (hresumable : Resumable records) : Resumable (records.endRun runId) := by
  have hheld : ∀ other, other ∉ records.released → records.Held other →
      (records.endRun runId).Held other := by
    intro other hkept hheld
    have hne : other ≠ runId := fun heq => hkept (heq ▸ hreleased)
    refine ⟨hheld.1, ?_⟩
    simpa [Records.endRun, Function.update_of_ne hne] using hheld.2
  refine ⟨fun other hsome hrest => ?_, fun other hsome hassigned hkept => ?_⟩
  · obtain ⟨hother, hkept⟩ := hresumable.holds other hsome hrest
    exact ⟨hheld other hkept hother, hkept⟩
  · exact hheld other hkept (hresumable.owns other hsome hassigned hkept)

/-! ## The acts that could break it -/

/-- A pause of a run that is not being given up. -/
def KeepsRun (records : Records) : Prop :=
  ∀ runId ∈ records.task.runId, runId ∉ records.released

/-- A deployment that completes a run finds its owner still there and not to be paused, or
gone, and then the run is paused or nobody keeps it. -/
def CompletesCleanly (marker : DeploymentMarker) (records : Records) : Prop :=
  ∀ run ∈ records.runs marker.runId, runMatches marker run →
    (attached marker records.task → records.task.desiredState ≠ .paused) ∧
    (¬attached marker records.task → records.task.runId = some marker.runId →
      records.task.desiredState = .paused ∨
        (¬records.task.AtRest ∧
          (records.task.nodeId = none ∨ marker.runId ∈ records.released)))

/-- An act that neither takes from a task at rest what it keeps nor puts to rest a task whose
run is being given up. -/
def Act.Regular (act : Act) (records : Records) : Prop :=
  match act with
  | .complete marker => CompletesCleanly marker records
  | .write .pause _ | .write .pausePending _ => KeepsRun records
  | .isolateNode _ => records.task.desiredState ≠ .stopped → KeepsRun records
  | .sweepStopped => records.task.status ≠ .paused
  | _ => True

theorem confirmNodeIsolation_resumable {nodeId : NodeId}
    (h : confirmNodeIsolation records nodeId = some records')
    (hregular : records.task.desiredState ≠ .stopped → KeepsRun records)
    (hresumable : Resumable records) : Resumable records' := by
  simp only [confirmNodeIsolation] at h
  split at h
  · cases h
  rename_i hblocked
  have hassigned : records.task.nodeId ≠ none := by simp [(not_not.1 hblocked).1]
  split at h
  · cases h
    exact .of_idle rfl (by simp) (by simp)
  · rename_i hdesired
    have hpaused := hresumable.pause hassigned (hregular hdesired)
    cases h
    split
    · exact hpaused.of_same rfl rfl rfl rfl rfl id
    · exact hpaused

theorem prepare_resumable {marker : DeploymentMarker} {run : Run} {task : Task} {runId : RunId}
    (hrun : records.runs runId = some run) (hsame : task.runId = records.task.runId)
    (hnode : task.nodeId = records.task.nodeId) (hstatus : task.status = records.task.status)
    (hresumable : Resumable records) :
    Resumable ({ records with
      runs := Function.update records.runs runId
        (some { run with deploymentRecovery := some marker }) }.withTask task) := by
  have hheld : ∀ other, records.Held other →
      ({ records with
        runs := Function.update records.runs runId
          (some { run with deploymentRecovery := some marker }) }.withTask task).Held other := by
    intro other hheld
    refine ⟨hheld.1, ?_⟩
    by_cases hother : other = runId
    · subst hother
      have hopen := hheld.2
      rw [hrun] at hopen
      simpa [Records.withTask] using hopen
    · simpa [Records.withTask, Function.update_of_ne hother] using hheld.2
  refine ⟨fun other hsome hrest => ?_, fun other hsome hassigned hkept => ?_⟩
  · have hrest' : records.task.AtRest := by
      unfold Task.AtRest at hrest ⊢
      rwa [← hstatus]
    obtain ⟨hother, hkept⟩ := hresumable.holds other (hsame ▸ hsome) hrest'
    exact ⟨hheld other hother, hkept⟩
  · exact hheld other (hresumable.owns other (hsame ▸ hsome) (hnode ▸ hassigned) hkept)

theorem OwnerWrite.apply_resumable {write : OwnerWrite} {owner : Owner}
    (h : write.apply owner records = some records')
    (hregular : (Act.write write owner).Regular records) (hresumable : Resumable records) :
    Resumable records' := by
  cases write with
  | pause | pausePending =>
    obtain ⟨hfilter, rfl⟩ := updateOne_eq_some.1 h
    exact hresumable.pause (by simp [hfilter.1.2.1]) hregular
  | prepare marker =>
    simp only [OwnerWrite.apply] at h
    split at h
    · cases h
    · rename_i run hrun
      obtain ⟨-, rfl⟩ := updateOne_eq_some.1 h
      exact prepare_resumable hrun rfl rfl rfl hresumable
  -- from here on the run is being given up
  | closing failed =>
    obtain ⟨hfilter, rfl⟩ := updateOne_eq_some.1 h
    refine ⟨fun _ _ hrest => by simp [Task.AtRest] at hrest, fun runId hsome _ hkept => ?_⟩
    have hrun : records.task.runId = some runId := by
      cases failed <;> exact hsome
    have howner : owner.runId = runId := Option.some.inj (hfilter.1.symm.trans hrun)
    exact absurd (by simp [Records.release, howner]) hkept
  | stopPending =>
    obtain ⟨-, rfl⟩ := updateOne_eq_some.1 h
    exact .of_idle rfl (by simp) (by simp)
  | detach failed =>
    obtain ⟨-, rfl⟩ := updateOne_eq_some.1 h
    cases failed <;> exact .of_idle rfl (by simp) (by simp)
  | runtimeState state sessionId =>
    obtain ⟨-, rfl⟩ := updateOne_eq_some.1 h
    refine hresumable.withTask rfl rfl (.inr ?_)
    cases state <;> simp [Task.AtRest, RuntimeState.status]
  | restartPending | restart | closedReceipt =>
    obtain ⟨-, rfl⟩ := updateOne_eq_some.1 h
    exact hresumable.withTask rfl rfl (.inl rfl)
  | pausing | block | fence =>
    obtain ⟨-, rfl⟩ := updateOne_eq_some.1 h
    exact hresumable.withTask rfl rfl (.inr (by simp [Task.AtRest]))

theorem completeRun_resumable {marker : DeploymentMarker}
    (h : completeRun records marker = some records') (hregular : CompletesCleanly marker records)
    (hresumable : Resumable records) : Resumable records' := by
  obtain ⟨run, hrun, hmatches, hcase⟩ := completeRun_eq_some h
  obtain ⟨hattached, hchanged⟩ := hregular run hrun hmatches
  obtain ⟨hnot, rfl⟩ | ⟨hstill, rfl⟩ := hcase
  · -- the owner has changed: the run is only ended where nobody keeps it
    have hheld : ∀ other, (other = marker.runId → preservesPausedRun marker records.task) →
        records.Held other → (records.proveRun marker run).Held other := by
      intro other hpreserved hheld
      refine ⟨hheld.1, ?_⟩
      by_cases hother : other = marker.runId
      · have hopen := hheld.2
        rw [hother, hrun] at hopen
        simp only [Option.map_some, Option.some.injEq] at hopen
        simp [Records.proveRun, hother, Run.proved, hopen, hpreserved hother]
      · simpa [Records.proveRun, Function.update_of_ne hother] using hheld.2
    refine ⟨fun other hsome hrest => ?_, fun other hsome hassigned hkept => ?_⟩
    · obtain ⟨hother, hkept⟩ := hresumable.holds other hsome hrest
      refine ⟨hheld other (fun heq => ?_) hother, hkept⟩
      obtain hpaused | hidle := hchanged hnot (heq ▸ hsome)
      · exact ⟨heq ▸ hsome, hpaused⟩
      · exact absurd hrest hidle.1
    · refine hheld other (fun heq => ?_) (hresumable.owns other hsome hassigned hkept)
      obtain hpaused | ⟨-, hnone | hreleased⟩ := hchanged hnot (heq ▸ hsome)
      · exact ⟨heq ▸ hsome, hpaused⟩
      · exact absurd hnone hassigned
      · exact absurd (heq ▸ hreleased) hkept
  · have hdesired := hattached hstill
    unfold Task.deployed
    split
    · exact .of_idle rfl (by simp) (by simp)
    · exact .of_idle rfl (by simp) (by simp)

theorem Act.apply_resumable {act : Act} (h : act.apply records = some records')
    (hregular : act.Regular records) (hresumable : Resumable records) : Resumable records' := by
  cases act with
  | control request identifier resources =>
    obtain ⟨⟨_, operation⟩, hcontrol, rfl⟩ := Option.map_eq_some_iff.1 h
    exact requestControl_resumable (toOption_eq_some.1 hcontrol) hresumable
  | edit => exact editTask_resumable (toOption_eq_some.1 h) hresumable
  | delete =>
    simp only [Act.apply, deleteTask, toOption_eq_some, bind_eq_ok] at h
    obtain ⟨_, _, h⟩ := h
    cases h
    exact hresumable.of_same rfl rfl rfl rfl rfl id
  | deleteResource =>
    cases h
    simp only [markResourceDeletion]
    split <;> exact hresumable.of_same rfl rfl rfl rfl rfl id
  | restartBlocked =>
    obtain rfl | ⟨_, _, _, hfinished, rfl⟩ | ⟨_, rfl⟩ :=
      requestBlockedRestart_eq_ok (toOption_eq_some.1 h)
    · exact claimed_resumable hresumable
    · exact (finishBlockedRun_resumable hfinished).of_same rfl rfl rfl rfl rfl id
    · exact hresumable.of_same rfl rfl rfl rfl rfl id
  | isolateTask =>
    obtain rfl | ⟨_, _, _, hfinished, rfl⟩ := confirmTaskIsolation_eq_ok (toOption_eq_some.1 h)
    · exact claimed_resumable hresumable
    · exact (finishBlockedRun_resumable hfinished).of_same rfl rfl rfl rfl rfl id
  | isolateNode => exact confirmNodeIsolation_resumable h hregular hresumable
  | claim =>
    simp only [Act.apply, Option.ite_none_right_eq_some] at h
    exact claimTask_resumable h.2 h.1.2 hresumable
  | consumeFailover =>
    obtain ⟨-, rfl | hfinished⟩ := consumeConfirmedFailover_eq_some h
    · exact claimed_resumable hresumable
    · exact finishBlockedRun_resumable hfinished
  | consumeRecovery =>
    simp only [Act.apply, Option.ite_none_right_eq_some] at h
    exact consumeAuthorizedRecovery_resumable h.2 hresumable
  | sweepStopped =>
    simp only [Act.apply, Tasks.sweepStopped] at h
    split at h
    · cases h
    · obtain ⟨hfilter, rfl⟩ := updateOne_eq_some.1 h
      refine .of_idle hfilter.2.1 hregular fun hwaiting => ?_
      simp [show records.task.status = .waitingDevice from hwaiting] at hfilter
  | write => exact OwnerWrite.apply_resumable h hregular hresumable
  | dropReleasedLock =>
    obtain ⟨hreleased, rfl⟩ := updateOne_eq_some.1 h
    exact dropReleasedLock_resumable hreleased hresumable
  | endReleasedRun =>
    obtain ⟨hreleased, rfl⟩ := updateOne_eq_some.1 h
    exact endReleasedRun_resumable hreleased hresumable
  | finalizeClosed =>
    obtain rfl | ⟨_, _, hfinished, -⟩ := finalizeClosedTask_eq_some h
    · exact claimed_resumable hresumable
    · exact finishBlockedRun_resumable hfinished
  | stopUnresponsive =>
    simp only [Act.apply, Option.ite_none_right_eq_some] at h
    exact stopForResourceHealth_resumable h.2 hresumable
  | settle =>
    cases h
    exact hresumable.of_same rfl rfl rfl rfl rfl id
  | complete => exact completeRun_resumable h hregular hresumable
  | healthFailure =>
    simp only [Act.apply, Option.ite_none_right_eq_some] at h
    exact applyFailure_resumable h.2 hresumable
  | healthSuccess =>
    simp only [Act.apply, Option.ite_none_right_eq_some, Option.some.injEq] at h
    obtain ⟨-, rfl⟩ := h
    exact applySuccess_resumable hresumable
  | userAuthentication =>
    simp only [Act.apply, Option.ite_none_right_eq_some, Option.some.injEq] at h
    obtain ⟨-, rfl⟩ := h
    exact grantAfterUserAuthentication_resumable hresumable
  | sweepIntent | markPlannedRestart =>
    obtain ⟨-, rfl⟩ := updateOne_eq_some.1 h
    exact hresumable.withTask rfl rfl (.inl rfl)
  | blockStale =>
    obtain ⟨-, rfl⟩ := updateOne_eq_some.1 h
    exact hresumable.withTask rfl rfl (.inr (by simp [Task.AtRest]))
  | recoverPlanned | preparePending =>
    obtain ⟨-, rfl⟩ := updateOne_eq_some.1 h
    exact .of_idle rfl (by simp) (by simp)
  | reconcileStopped =>
    obtain ⟨hfilter, rfl⟩ := updateOne_eq_some.1 h
    exact .of_idle hfilter.2.1 (by simp) (by simp)
  | queue | sweepPaused =>
    obtain ⟨hfilter, rfl⟩ := updateOne_eq_some.1 h
    exact .of_idle hfilter.2.1 (by simp) (by simp)

/-! ## Every run -/

/-- A regular act. -/
def RegularStep (records records' : Records) : Prop :=
  ∃ act : Act, act.Regular records ∧ act.apply records = some records'

theorem RegularStep.step (h : RegularStep records records') : Step records records' := by
  obtain ⟨act, -, hact⟩ := h
  exact ⟨act, hact⟩

theorem Initial.resumable (h : Initial records) : Resumable records :=
  .of_noRun h.runId

theorem reachable_resumable (h : Reachable Initial RegularStep records) : Resumable records := by
  refine h.invariant (fun _ => Initial.resumable) ?_
  intro records records' hstep hresumable
  obtain ⟨act, hregular, hact⟩ := hstep
  exact Act.apply_resumable hact hregular hresumable

/-- Where every act is regular, what a resume asks of a paused task always holds. -/
theorem paused_resumable (h : Reachable Initial RegularStep records) :
    validatePausedRun records = .ok () ∧
      ∀ runId, records.task.status = .paused → records.task.nodeId = none →
        records.task.runId = some runId →
          (∃ lock ∈ records.lock, lock.runId = runId) ∧
            ∃ run ∈ records.runs runId, run.ended = false := by
  have hresumable := reachable_resumable h
  have hfenced := reachable_fenced (h.mono fun _ _ => RegularStep.step)
  refine ⟨?_, fun runId hpaused _ hrun => ?_⟩
  · unfold validatePausedRun
    split
    · rfl
    rename_i hpaused
    have hstatus : records.task.status = .paused := not_not.1 (not_or.1 hpaused).1
    split
    · rename_i hrun
      -- without a run there is no lock: it would be of the run
      have hlock : records.lock = none := by
        cases hlock : records.lock with
        | none => rfl
        | some lock => exact absurd (hfenced.lock lock hlock) (by simp [hrun])
      simp [refuseIf, hlock]
    · rename_i runId hrun
      obtain ⟨hlock, hopen⟩ := (hresumable.holds runId hrun (.inl hstatus)).1
      simp [refuseIf, hlock, hopen]
  · obtain ⟨hlock, hopen⟩ := (hresumable.holds runId hrun (.inl hpaused)).1
    exact ⟨Option.map_eq_some_iff.1 hlock, Option.map_eq_some_iff.1 hopen⟩

theorem runActs_regular {acts : List Act}
    (hregular : ∀ act ∈ acts, ∀ records, act.Regular records)
    (h : runActs acts records = some records') :
    Relation.ReflTransGen RegularStep records records' := by
  induction acts generalizing records with
  | nil =>
    cases h
    exact .refl
  | cons act acts ih =>
    simp only [runActs, List.foldlM_cons, Option.bind_eq_bind, Option.bind_eq_some_iff] at h
    obtain ⟨next, hact, hrest⟩ := h
    exact .head ⟨act, hregular act (by simp) records, hact⟩
      (ih (fun act hmem => hregular act (List.mem_cons_of_mem _ hmem)) hrest)

/-- Collecting, and a pause is asked for. -/
def pausingActs : List Act :=
  [claimNew 7 1, .write (.runtimeState .collecting (some 5)) ⟨7, 1, 1⟩,
    .control .pause 3 onlineDevice]

theorem paused_resumable_by_worker :
    ∃ records, runActs (pausingActs ++ [.write .pause ⟨7, 1, 1⟩]) newRecords = some records ∧
      records.task.status = .paused ∧ validatePausedRun records = .ok () := by
  have hrun : ∃ pausing records, runActs pausingActs newRecords = some pausing ∧
      pausing.released = [] ∧ (Act.write .pause ⟨7, 1, 1⟩).apply pausing = some records ∧
      runActs (pausingActs ++ [.write .pause ⟨7, 1, 1⟩]) newRecords = some records ∧
      records.task.status = .paused := ⟨_, _, rfl, rfl, rfl, rfl, rfl⟩
  obtain ⟨pausing, records, hpausing, hreleased, hpause, hrecords, hstatus⟩ := hrun
  have hreach : Reachable Initial RegularStep pausing :=
    ⟨newRecords, newRecords_initial,
      runActs_regular (by simp [pausingActs, claimNew, Act.Regular]) hpausing⟩
  have hregular : (Act.write .pause ⟨7, 1, 1⟩).Regular pausing := by
    intro runId _
    simp [hreleased]
  exact ⟨records, hrecords, hstatus, (paused_resumable (hreach.tail ⟨_, hregular, hpause⟩)).1⟩

/-- The owner of the run, as a deployment has frozen it. -/
def frozenOwner : DeploymentMarker := ⟨11, 7, 1, 1, 5, 0, some 0⟩

/-- A deployment completes a run whose task has been paused since, and takes its lock. -/
theorem paused_without_lock :
    ∃ records, Reachable Initial Step records ∧ records.task.status = .paused ∧
      records.task.nodeId = none ∧ records.task.runId = some 7 ∧ records.lock = none ∧
      validatePausedRun records ≠ .ok () := by
  have hrun : ∃ records, runActs [claimNew 7 1,
        .write (.runtimeState .collecting (some 5)) ⟨7, 1, 1⟩,
        .write (.prepare frozenOwner) ⟨7, 1, 1⟩, .control .pause 3 onlineDevice,
        .complete frozenOwner] newRecords = some records ∧
      records.task.status = .paused ∧ records.task.nodeId = none ∧
      records.task.runId = some 7 ∧ records.lock = none := ⟨_, rfl, rfl, rfl, rfl, rfl⟩
  obtain ⟨records, hrecords, hstatus, hnode, hrun, hlock⟩ := hrun
  refine ⟨records, ⟨newRecords, newRecords_initial, runActs_reaches hrecords⟩, hstatus, hnode,
    hrun, hlock, ?_⟩
  simp [validatePausedRun, hstatus, hnode, hrun, hlock]

end CameraLogs.Tasks
