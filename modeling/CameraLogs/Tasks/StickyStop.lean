import CameraLogs.Tasks.Rest

/-!
# Does a stop stick?

A task is `Halted` when nothing is left on it that the system could start it from: no
intent to run, no restart it has been promised, and no device, of a health marker or of a
wait, through which it could be given its intent back. No act but a user's request to run
changes that, so a stop that halts the task sticks.

Not every stop does. A stop answered with the operation of an earlier stop does not take
back the restart that an edit has promised, and the deletion of a task takes back neither
the marker nor the wait.
-/

namespace CameraLogs.Tasks

open Lib

variable {records records' : Records}

/-- No device that is still there can start the task: a deleted serial task is never looked
at, and of any other the marker and the wait are for deleted devices. -/
def Task.Calm (task : Task) (gone : List ResourceId) : Prop :=
  (task.deleted = true ∧ task.protocol = .telnetSerial) ∨
    ((∀ marker ∈ task.resourceHealthRecovery, marker.resourceId ∈ gone) ∧
      (task.status = .waitingDevice → task.deleted = true ∧ task.resourceId ∈ gone))

/-- Nothing on the task that the system could start it from. -/
structure Halted (task : Task) (gone : List ResourceId) : Prop where
  desiredState : task.desiredState ≠ .running
  restartRequested : task.restartRequested = false
  calm : task.Calm gone

variable {task task' : Task} {gone : List ResourceId}

theorem Halted.not_claimable (h : Halted task gone) : ¬task.Claimable :=
  fun hclaimable => h.desiredState hclaimable.2.1

/-- Without a marker and without a wait there is nothing to be calm about. -/
theorem Task.Calm.of_none (hmarker : task.resourceHealthRecovery = none)
    (hstatus : task.status ≠ .waitingDevice) : task.Calm gone :=
  .inr ⟨by simp [hmarker], fun hwaiting => absurd hwaiting hstatus⟩

/-- What a task could be started through. -/
theorem Task.Calm.of_same (h : task.Calm gone) (hdeleted : task'.deleted = task.deleted)
    (hprotocol : task'.protocol = task.protocol) (hresource : task'.resourceId = task.resourceId)
    (hmarker : ∀ marker' ∈ task'.resourceHealthRecovery,
      ∃ marker ∈ task.resourceHealthRecovery, marker'.resourceId = marker.resourceId)
    (hstatus : task'.status = task.status ∨ task'.status ≠ .waitingDevice) :
    task'.Calm gone := by
  obtain ⟨hgone, hserial⟩ | ⟨hmarkers, hwaiting⟩ := h
  · exact .inl ⟨hdeleted.trans hgone, hprotocol.trans hserial⟩
  · refine .inr ⟨fun marker' hmem => ?_, fun hwaits => ?_⟩
    · obtain ⟨marker, hmem, hsame⟩ := hmarker marker' hmem
      rw [hsame]
      exact hmarkers marker hmem
    · rw [hdeleted, hresource]
      exact hwaiting (hstatus.elim (fun hsame => hsame ▸ hwaits) (absurd hwaits))

theorem Task.Calm.mono {gone' : List ResourceId} (h : task.Calm gone)
    (hle : ∀ identifier ∈ gone, identifier ∈ gone') : task.Calm gone' := by
  refine h.imp_right fun hdevices => ⟨fun marker hmem => ?_, fun hwaiting => ?_⟩
  · exact hle _ (hdevices.1 marker hmem)
  · exact ⟨(hdevices.2 hwaiting).1, hle _ (hdevices.2 hwaiting).2⟩

/-- An update that leaves all of it alone. -/
theorem Halted.of_same (h : Halted task gone) (hdesired : task'.desiredState = task.desiredState)
    (hrestart : task'.restartRequested = task.restartRequested)
    (hdeleted : task'.deleted = task.deleted) (hprotocol : task'.protocol = task.protocol)
    (hresource : task'.resourceId = task.resourceId)
    (hmarker : task'.resourceHealthRecovery = task.resourceHealthRecovery)
    (hstatus : task'.status = task.status ∨ task'.status ≠ .waitingDevice) :
    Halted task' gone where
  desiredState := hdesired ▸ h.desiredState
  restartRequested := hrestart ▸ h.restartRequested
  calm := h.calm.of_same hdeleted hprotocol hresource
    (fun marker hmem => ⟨marker, hmarker ▸ hmem, rfl⟩) hstatus

/-! ## The functions, one by one -/

theorem claimControl_halted (desired : DesiredState) (h : Halted records.task gone) :
    Halted (claimControl records desired).task gone := by
  refine ⟨h.desiredState, h.restartRequested, h.calm.of_same rfl rfl rfl ?_ (.inl rfl)⟩
  intro marker hmem
  simp only [claimControl, Records.withTask_task] at hmem
  split at hmem
  · cases hmem
  · exact ⟨marker, hmem, rfl⟩

theorem localTransition_calm {desired : DesiredState}
    (h : localTransition records desired = .ok records') :
    records'.task.restartRequested = records.task.restartRequested ∧
      (records.task.Calm gone → records'.task.Calm gone) := by
  have hsame : ∀ {task' : Task}, task'.deleted = records.task.deleted →
      task'.protocol = records.task.protocol → task'.resourceId = records.task.resourceId →
      task'.resourceHealthRecovery = records.task.resourceHealthRecovery →
      task'.status ≠ .waitingDevice → records.task.Calm gone → task'.Calm gone := by
    intro task' hdeleted hprotocol hresource hmarker hstatus hcalm
    exact hcalm.of_same hdeleted hprotocol hresource
      (fun marker hmem => ⟨marker, hmarker ▸ hmem, rfl⟩) (.inr hstatus)
  obtain ⟨rfl, -⟩ | ⟨-, -, rfl⟩ | ⟨-, -, -, rfl⟩ | ⟨-, -, -, rfl⟩ | ⟨-, -, -, rfl⟩ :=
    localTransition_eq_ok h
  · exact ⟨rfl, id⟩
  all_goals exact ⟨rfl, hsame rfl rfl rfl rfl (by simp)⟩

/-- A new intent that is not to run. -/
theorem intentRecords_halted {moved : Records} {desired : DesiredState}
    {identifier : OperationId} {operation : Operation} (hdesired : desired ≠ .running)
    (hrestart : desired = .stopped ∨ moved.task.restartRequested = false)
    (hcalm : moved.task.Calm gone) :
    Halted (intentRecords moved desired identifier operation).task gone where
  desiredState := hdesired
  restartRequested := by
    simp only [intentRecords, Records.withTask_task, Task.withIntent]
    split
    · rfl
    · exact hrestart.resolve_left ‹_›
  calm := hcalm.of_same rfl rfl rfl (fun marker hmem => ⟨marker, hmem, rfl⟩) (.inl rfl)

theorem requestControl_halted {request : Request} {identifier : OperationId}
    {resources : Resources} {operation : Operation} (hrequest : request.desired ≠ .running)
    (h : requestControl records request.desired request.requirePaused identifier resources =
      .ok (records', operation)) (hhalted : Halted records.task gone) :
    Halted records'.task gone := by
  have hclaimed := claimControl_halted request.desired hhalted
  obtain ⟨-, ⟨-, rfl⟩ | ⟨rfl, -⟩ | ⟨-, -, moved, hmoved, rfl⟩⟩ := requestControl_eq_ok h
  · exact hclaimed
  · exact absurd rfl hrequest
  · obtain ⟨hrestart, hcalm⟩ := localTransition_calm hmoved
    exact intentRecords_halted hrequest (.inr (hrestart.trans hclaimed.restartRequested))
      (hcalm hclaimed.calm)

theorem editTask_halted {version : Nat} {behavioral clear : Bool} {document : TaskDocument}
    {identifier : OperationId} {identifiers : List ResourceId} {resources : Resources}
    {sameIdentity : ResourceId → Bool}
    (h : editTask records version behavioral clear document identifier identifiers resources
      sameIdentity = .ok records') (hhalted : Halted records.task gone) :
    Halted records'.task gone := by
  obtain ⟨hthere, edited, hedited, rfl⟩ := editTask_eq_ok h
  obtain rfl | ⟨hrunning, -⟩ | ⟨hrunning, -⟩ := editIntent_eq_ok hedited
  · refine ⟨hhalted.desiredState, hhalted.restartRequested, .inr ?_⟩
    -- the task is there, so it does not wait for a device
    obtain ⟨hdeleted, -⟩ | ⟨hmarkers, hwaiting⟩ := hhalted.calm
    · exact absurd (hthere.symm.trans hdeleted) (by simp)
    · refine ⟨hmarkers, fun hwaits => absurd (hthere.symm.trans (hwaiting hwaits).1) (by simp)⟩
  · exact absurd hrunning hhalted.desiredState
  · exact absurd hrunning hhalted.desiredState

/-- A tombstone, whatever else the deletion writes. -/
theorem withTombstone_halted {gone' : List ResourceId}
    (hle : ∀ identifier ∈ gone, identifier ∈ gone') (hcalm : task.Calm gone) :
    Halted task.withTombstone gone' := by
  refine ⟨by simp [Task.withTombstone], rfl, ?_⟩
  obtain ⟨hdeleted, hserial⟩ | ⟨hmarkers, hwaiting⟩ := hcalm.mono hle
  · exact .inl ⟨rfl, hserial⟩
  · exact .inr ⟨hmarkers, fun hwaits => ⟨rfl, (hwaiting hwaits).2⟩⟩

theorem finishBlockedRun_halted {operationId : Option OperationId}
    (h : finishBlockedRun records false operationId = .ok records')
    (hhalted : Halted records.task gone) : Halted records'.task gone := by
  obtain ⟨-, operations, rfl⟩ := finishBlockedRun_eq_ok h
  refine ⟨by simp [finishedRecords], rfl, hhalted.calm.of_same rfl rfl rfl ?_ (.inr ?_)⟩
  · exact fun marker hmem => ⟨marker, hmem, rfl⟩
  · simp [finishedRecords]

theorem finalizeClosedTask_halted {owner : Owner} {resources : Resources}
    (h : finalizeClosedTask records owner resources = some records')
    (hhalted : Halted records.task gone) : Halted records'.task gone := by
  have hclaimed : Halted records.claimed.task gone :=
    hhalted.of_same rfl rfl rfl rfl rfl rfl (.inl rfl)
  obtain rfl | ⟨restart, _, hfinished, hrestart⟩ := finalizeClosedTask_eq_some h
  · exact hclaimed
  · cases restart with
    | true => exact absurd (hrestart rfl) (by simp [hhalted.restartRequested])
    | false => exact finishBlockedRun_halted hfinished hclaimed

theorem confirmNodeIsolation_halted {nodeId : NodeId}
    (h : confirmNodeIsolation records nodeId = some records') (hhalted : Halted records.task gone) :
    Halted records'.task gone := by
  simp only [confirmNodeIsolation] at h
  split at h
  · cases h
  split at h
  · rename_i hstopped
    cases h
    have hrestart := hhalted.restartRequested
    refine hhalted.of_same ?_ ?_ rfl rfl rfl rfl (.inr (by simp))
    · simp [hrestart, hstopped]
    · simp [hrestart]
  · cases h
    split <;> exact hhalted.of_same rfl rfl rfl rfl rfl rfl (.inr (by simp))

theorem OwnerWrite.apply_halted {write : OwnerWrite} {owner : Owner}
    (h : write.apply owner records = some records') (hhalted : Halted records.task gone) :
    Halted records'.task gone := by
  cases write with
  | prepare marker =>
    simp only [OwnerWrite.apply] at h
    split at h
    · cases h
    · obtain ⟨-, rfl⟩ := updateOne_eq_some.1 h
      exact hhalted.of_same rfl rfl rfl rfl rfl rfl (.inl rfl)
  | closing failed | detach failed =>
    obtain ⟨-, rfl⟩ := updateOne_eq_some.1 h
    cases failed with
    | true =>
      refine ⟨by simp [Task.withFailure], rfl, hhalted.calm.of_same rfl rfl rfl ?_ (.inr ?_)⟩
      · exact fun marker hmem => ⟨marker, hmem, rfl⟩
      · simp
    | false => exact hhalted.of_same rfl rfl rfl rfl rfl rfl (.inr (by simp))
  -- only a restart that has been promised is kept
  | restartPending | restart =>
    obtain ⟨hfilter, -⟩ := updateOne_eq_some.1 h
    exact absurd hfilter.2.2 (by simp [hhalted.restartRequested])
  | runtimeState state sessionId =>
    obtain ⟨-, rfl⟩ := updateOne_eq_some.1 h
    refine hhalted.of_same rfl rfl rfl rfl rfl rfl (.inr ?_)
    cases state <;> simp [RuntimeState.status]
  | closedReceipt =>
    obtain ⟨-, rfl⟩ := updateOne_eq_some.1 h
    exact hhalted.of_same rfl rfl rfl rfl rfl rfl (.inl rfl)
  | pausing | block | pause | pausePending | stopPending | fence =>
    obtain ⟨-, rfl⟩ := updateOne_eq_some.1 h
    exact hhalted.of_same rfl rfl rfl rfl rfl rfl (.inr (by simp))

theorem completeRun_halted {marker : DeploymentMarker}
    (h : completeRun records marker = some records') (hhalted : Halted records.task gone) :
    Halted records'.task gone := by
  obtain ⟨run, -, -, ⟨-, rfl⟩ | ⟨-, rfl⟩⟩ := completeRun_eq_some h
  · exact hhalted
  · simp only [Task.deployed, Records.withTask_task]
    split
    · rename_i hmatches
      exact absurd hmatches.1 hhalted.desiredState
    · refine hhalted.of_same rfl rfl rfl rfl rfl rfl (.inr ?_)
      simp only []
      split <;> simp

theorem stopForResourceHealth_not_halted {owner : Option Owner} {claimVersion : Nat}
    {identifier : ResourceId} {resource : Resource} {operationId : OperationId}
    (h : stopForResourceHealth records owner claimVersion identifier resource operationId =
      some records') : ¬Halted records.task gone :=
  fun hhalted => hhalted.desiredState (stopForResourceHealth_eq_some h).1

theorem applyFailure_halted {identifier : ResourceId} {resource : Resource}
    {operationId : OperationId}
    (h : applyFailure records identifier resource operationId = some records')
    (hhalted : Halted records.task gone) : Halted records'.task gone := by
  obtain ⟨marker, hmarker, rfl⟩ | hstop := applyFailure_eq_some h
  -- the marker keeps its device
  · refine ⟨hhalted.desiredState, hhalted.restartRequested,
      hhalted.calm.of_same rfl rfl rfl ?_ (.inl rfl)⟩
    intro marker' hmem
    cases hmem
    exact ⟨marker, hmarker, rfl⟩
  · exact absurd hhalted (stopForResourceHealth_not_halted hstop)

/-- A device that is still there does not start the task again by becoming another one. -/
theorem transitionIdentityTask_halted (hhalted : Halted records.task gone)
    (hdevice : records.task.status = .waitingDevice → records.task.protocol ≠ .telnetSerial →
      ¬(records.task.deleted = true ∧ records.task.resourceId ∈ gone)) :
    Halted (transitionIdentityTask records).task gone := by
  simp only [transitionIdentityTask]
  split
  · exact hhalted
  rename_i hserial
  split
  · rename_i hrunning
    exact absurd hrunning.2 hhalted.desiredState
  split
  · refine ⟨by simp, rfl, hhalted.calm.of_same rfl rfl rfl ?_ (.inl rfl)⟩
    exact fun marker hmem => ⟨marker, hmem, rfl⟩
  split
  · rename_i hwaiting
    obtain ⟨-, hproto⟩ | ⟨-, hwaits⟩ := hhalted.calm
    · exact absurd hproto hserial
    · exact absurd (hwaits hwaiting) (hdevice hwaiting hserial)
  · exact hhalted

theorem authorizeHealthRecoveries_halted {identifier : ResourceId}
    (hhalted : Halted records.task gone) :
    Halted (authorizeHealthRecoveries records identifier).task gone := by
  simp only [authorizeHealthRecoveries]
  split
  · exact hhalted
  rename_i marker hmarker
  split
  · refine ⟨hhalted.desiredState, hhalted.restartRequested,
      hhalted.calm.of_same rfl rfl rfl ?_ (.inl rfl)⟩
    intro marker' hmem
    cases hmem
    exact ⟨marker, hmarker, rfl⟩
  · exact hhalted

theorem grantAfterUserAuthentication_halted {identifier : ResourceId} {identityChanged : Bool}
    (hthere : identifier ∉ gone) (hhalted : Halted records.task gone) :
    Halted (grantAfterUserAuthentication records identifier identityChanged).task gone := by
  simp only [grantAfterUserAuthentication]
  split
  · exact hhalted
  have hmoved : Halted
      (if records.task.resourceId = identifier ∧ identityChanged = true then
        transitionIdentityTask records else records).task gone := by
    split
    · rename_i hown
      refine transitionIdentityTask_halted hhalted fun _ _ hgone => hthere ?_
      rw [← hown.1]
      exact hgone.2
    · exact hhalted
  split
  · exact hmoved
  rename_i marker hmarker
  split
  · rename_i hown
    refine ⟨hmoved.desiredState, hmoved.restartRequested, ?_⟩
    -- a marker of this device, which is there, is on a deleted serial task at most
    obtain hserial | ⟨hmarkers, -⟩ := hhalted.calm
    · have hsame : transitionIdentityTask records = records := by
        simp [transitionIdentityTask, hserial.2]
      refine .inl ?_
      simpa [hsame] using hserial
    · exact absurd (hown.1 ▸ hmarkers marker hmarker) hthere
  · exact hmoved

theorem resumeAfterProbe_halted {identifier : ResourceId} {timely : Bool}
    (hhalted : Halted records.task gone) :
    Halted (resumeAfterProbe records identifier timely).task gone := by
  simp only [resumeAfterProbe]
  split
  · exact hhalted
  · split
    · exact hhalted.of_same rfl rfl rfl rfl rfl rfl (.inr (by simp))
    · exact hhalted

theorem applySuccess_halted {identifier : ResourceId}
    {identityChanged authorizeUserRecovery timely : Bool} (hthere : identifier ∉ gone)
    (hhalted : Halted records.task gone) :
    Halted (applySuccess records identifier identityChanged authorizeUserRecovery timely).task
      gone := by
  simp only [applySuccess]
  refine resumeAfterProbe_halted ?_
  have hmoved : Halted (if identityChanged = true ∧ records.task.linked identifier ∧
      records.task.deleted = false then transitionIdentityTask records else records).task gone := by
    split
    · rename_i hlinked
      refine transitionIdentityTask_halted hhalted fun _ _ hgone => ?_
      exact absurd (hlinked.2.2.symm.trans hgone.1) (by simp)
    · exact hhalted
  split
  · exact grantAfterUserAuthentication_halted hthere (authorizeHealthRecoveries_halted hmoved)
  · exact authorizeHealthRecoveries_halted hmoved

/-- A marker is consumed for a device that is there, and never on a serial task. -/
theorem consumeAuthorizedRecovery_not_halted {identifier : ResourceId} {resource : Resource}
    (hreads : identifier ∈ gone → resource.deleted = true)
    (h : consumeAuthorizedRecovery records identifier resource = some records') :
    ¬Halted records.task gone := by
  intro hhalted
  simp only [consumeAuthorizedRecovery] at h
  split at h
  · cases h
  rename_i marker hmarker
  split at h
  · cases h
  rename_i hready
  obtain ⟨hthere, -, -, hdevice, -, hserial, -⟩ := not_not.1 hready
  obtain ⟨-, hproto⟩ | ⟨hmarkers, -⟩ := hhalted.calm
  · exact hserial hproto
  · have hgone := hreads (hdevice ▸ hmarkers marker hmarker)
    rw [hthere] at hgone
    cases hgone

/-! ## Every act but a request to run -/

/-- A user asks for running: a start or a resume, or the restart of a blocked run. An edit
restarts only what is meant to run, so it is none. -/
def Act.asksToRun : Act → Bool
  | .control request _ _ => decide (request.desired = .running)
  | .restartBlocked .. | .isolateTask .. => true
  | _ => false

/-- An act that is not a user's request to run. -/
def SystemStep (records records' : Records) : Prop :=
  ∃ act : Act, act.asksToRun = false ∧ act.apply records = some records'

/-- The documents of a halted task. -/
def HaltedRecords (records : Records) : Prop := Halted records.task records.gone

theorem Act.apply_halted {act : Act} (h : act.apply records = some records')
    (hact : act.asksToRun = false) (hhalted : Halted records.task records.gone) :
    Halted records'.task records.gone := by
  cases act with
  | control request identifier resources =>
    obtain ⟨⟨_, operation⟩, hcontrol, rfl⟩ := Option.map_eq_some_iff.1 h
    have hrequest : request.desired ≠ .running := by simpa [Act.asksToRun] using hact
    exact requestControl_halted hrequest (toOption_eq_some.1 hcontrol) hhalted
  | edit => exact editTask_halted (toOption_eq_some.1 h) hhalted
  | delete =>
    simp only [Act.apply, deleteTask, toOption_eq_some, bind_eq_ok] at h
    obtain ⟨_, _, h⟩ := h
    cases h
    exact (withTombstone_halted (fun _ => id) hhalted.calm).of_same rfl rfl rfl rfl rfl rfl
      (.inl rfl)
  | deleteResource =>
    cases h
    simp only [markResourceDeletion]
    split
    · exact (withTombstone_halted (fun _ => id) hhalted.calm).of_same rfl rfl rfl rfl rfl rfl
        (.inl rfl)
    · exact hhalted
  | restartBlocked | isolateTask => cases hact
  | isolateNode => exact confirmNodeIsolation_halted h hhalted
  | claim =>
    simp only [Act.apply, Option.ite_none_right_eq_some] at h
    exact absurd (claimTask_eq_some h.2).2.2.1 hhalted.desiredState
  | queue =>
    obtain ⟨hfilter, -⟩ := updateOne_eq_some.1 h
    exact absurd hfilter.2.2.1 hhalted.desiredState
  | consumeFailover => exact absurd (consumeConfirmedFailover_eq_some h).1 hhalted.desiredState
  | consumeRecovery =>
    simp only [Act.apply, Option.ite_none_right_eq_some] at h
    exact absurd hhalted (consumeAuthorizedRecovery_not_halted h.1 h.2)
  | sweepStopped =>
    simp only [Act.apply, Tasks.sweepStopped] at h
    split at h
    · cases h
    · obtain ⟨-, rfl⟩ := updateOne_eq_some.1 h
      exact hhalted
  | write => exact OwnerWrite.apply_halted h hhalted
  | finalizeClosed => exact finalizeClosedTask_halted h hhalted
  | stopUnresponsive =>
    simp only [Act.apply, Option.ite_none_right_eq_some] at h
    exact absurd hhalted (stopForResourceHealth_not_halted h.2)
  | settle =>
    cases h
    exact hhalted
  | complete => exact completeRun_halted h hhalted
  | healthFailure =>
    simp only [Act.apply, Option.ite_none_right_eq_some] at h
    exact applyFailure_halted h.2 hhalted
  | healthSuccess =>
    simp only [Act.apply, Option.ite_none_right_eq_some, Option.some.injEq] at h
    obtain ⟨hthere, rfl⟩ := h
    exact applySuccess_halted hthere hhalted
  | userAuthentication =>
    simp only [Act.apply, Option.ite_none_right_eq_some, Option.some.injEq] at h
    obtain ⟨hthere, rfl⟩ := h
    exact grantAfterUserAuthentication_halted hthere hhalted
  | dropReleasedLock | endReleasedRun =>
    obtain ⟨-, rfl⟩ := updateOne_eq_some.1 h
    exact hhalted
  | sweepIntent =>
    obtain ⟨-, rfl⟩ := updateOne_eq_some.1 h
    exact ⟨by simp, rfl, hhalted.calm.of_same rfl rfl rfl
      (fun marker hmem => ⟨marker, hmem, rfl⟩) (.inl rfl)⟩
  | markPlannedRestart =>
    obtain ⟨hfilter, -⟩ := updateOne_eq_some.1 h
    exact absurd hfilter.2.1 hhalted.desiredState
  | recoverPlanned =>
    obtain ⟨hfilter, -⟩ := updateOne_eq_some.1 h
    exact absurd hfilter.2.2.1 hhalted.desiredState
  | blockStale | reconcileStopped | sweepPaused | preparePending =>
    obtain ⟨-, rfl⟩ := updateOne_eq_some.1 h
    exact hhalted.of_same rfl rfl rfl rfl rfl rfl (.inr (by simp))

theorem Act.apply_gone {act : Act} (h : act.apply records = some records') :
    ∀ identifier ∈ records.gone, identifier ∈ records'.gone := by
  obtain hkeeps | ⟨_, -, -, -, -, -, hgone, -⟩ := Act.apply_keeps_or_claims h
  · exact hkeeps.gone
  · simp [hgone]

theorem Halted.mono {gone' : List ResourceId} (h : Halted task gone)
    (hle : ∀ identifier ∈ gone, identifier ∈ gone') : Halted task gone' :=
  ⟨h.desiredState, h.restartRequested, h.calm.mono hle⟩

theorem SystemStep.halted (h : SystemStep records records') (hhalted : HaltedRecords records) :
    HaltedRecords records' := by
  obtain ⟨act, hsystem, hact⟩ := h
  exact (Act.apply_halted hact hsystem hhalted).mono (Act.apply_gone hact)

/-! ## The stops -/

/-- A stop of the task: a user's request, or the deletion of the task or of a device of it. -/
def Act.Stops (act : Act) (records : Records) : Prop :=
  match act with
  | .control request _ _ => request = .stop
  | .delete _ => True
  | .deleteResource identifier => records.task.linked identifier ∧ records.task.deleted = false
  | _ => False

/-- No device outside `gone` could give the task its intent back. -/
def Task.NoWayBack (task : Task) (gone : List ResourceId) : Prop :=
  task.protocol = .telnetSerial ∨
    ((∀ marker ∈ task.resourceHealthRecovery, marker.resourceId ∈ gone) ∧
      (task.status = .waitingDevice → task.resourceId ∈ gone))

/-- The stop leaves nothing behind: a request that is answered with an earlier stop finds no
promised restart, and a deletion no way back through a device that stays. -/
def Act.TakesBack (act : Act) (records : Records) : Prop :=
  match act with
  | .control _ _ _ => previousOperation (claimControl records .stopped) .stopped = none ∨
      (records.task.restartRequested = false ∧ records.task.status ≠ .waitingDevice)
  | .delete _ => records.task.NoWayBack records.gone
  | .deleteResource identifier => records.task.NoWayBack (identifier :: records.gone)
  | _ => True

theorem Task.NoWayBack.withTombstone (h : task.NoWayBack gone) :
    Halted task.withTombstone gone := by
  refine ⟨by simp [Task.withTombstone], rfl, ?_⟩
  obtain hserial | ⟨hmarkers, hwaiting⟩ := h
  · exact .inl ⟨rfl, hserial⟩
  · exact .inr ⟨hmarkers, fun hwaits => ⟨rfl, hwaiting hwaits⟩⟩

/-- A stop halts the task. -/
theorem stop_halts {identifier : OperationId} {resources : Resources} {operation : Operation}
    (h : requestControl records .stopped false identifier resources = .ok (records', operation))
    (hrests : Rests records.task)
    (htakes : previousOperation (claimControl records .stopped) .stopped = none ∨
      (records.task.restartRequested = false ∧ records.task.status ≠ .waitingDevice)) :
    Halted records'.task gone := by
  have hcontrol := requestControl_eq_ok
    (show requestControl records Request.stop.desired Request.stop.requirePaused identifier
      resources = .ok (records', operation) from h)
  obtain ⟨-, ⟨hreplayed, rfl⟩ | ⟨hresume, -⟩ | ⟨-, -, moved, hmoved, rfl⟩⟩ := hcontrol
  · obtain hprevious | ⟨hresume, -⟩ := hreplayed
    · -- the request was answered with the operation of an earlier stop
      obtain ⟨hrestart, hstatus⟩ := htakes.resolve_left hprevious
      have hdesired : records.task.desiredState = .stopped := by
        refine Classical.byContradiction fun hne => hprevious ?_
        unfold previousOperation
        exact if_pos hne
      refine ⟨?_, hrestart, .of_none rfl hstatus⟩
      simp [claimControl, hdesired]
    · cases hresume
  · cases hresume
  · refine intentRecords_halted (by simp [Request.desired]) (.inl rfl) ?_
    obtain ⟨rfl, hidle⟩ | ⟨-, -, rfl⟩ | ⟨hpause, -⟩ | ⟨hpause, -⟩ | ⟨hrun, -⟩ :=
      localTransition_eq_ok hmoved
    · refine .of_none rfl fun hwaiting => ?_
      exact (hidle rfl (hrests (.inr hwaiting))).2 hwaiting
    · exact .of_none rfl (by simp)
    · cases hpause
    · cases hpause
    · cases hrun

theorem Act.Stops.halts {act : Act} (hstops : act.Stops records) (htakes : act.TakesBack records)
    (hrests : Rests records.task) (h : act.apply records = some records') :
    HaltedRecords records' := by
  cases act with
  | control request identifier resources =>
    obtain rfl : request = .stop := hstops
    obtain ⟨⟨_, operation⟩, hcontrol, rfl⟩ := Option.map_eq_some_iff.1 h
    exact stop_halts (toOption_eq_some.1 hcontrol) hrests htakes
  | delete =>
    simp only [Act.apply, deleteTask, toOption_eq_some, bind_eq_ok] at h
    obtain ⟨_, _, h⟩ := h
    cases h
    have htombstone : Halted records.task.withTombstone records.gone :=
      Task.NoWayBack.withTombstone htakes
    exact htombstone.of_same rfl rfl rfl rfl rfl rfl (.inl rfl)
  | deleteResource identifier =>
    cases h
    have hlinked : records.task.linked identifier ∧ records.task.deleted = false := hstops
    have htombstone : Halted records.task.withTombstone (identifier :: records.gone) :=
      Task.NoWayBack.withTombstone htakes
    simp only [HaltedRecords, markResourceDeletion]
    rw [if_pos (by exact hlinked)]
    exact htombstone.of_same rfl rfl rfl rfl rfl rfl (.inl rfl)
  | _ => exact hstops.elim

/-! ## Every run -/

/-- A deleted task stays deleted, and nobody claims it. -/
theorem deleted_never_runs (hdeleted : records.task.deleted = true)
    (h : Relation.ReflTransGen Step records records') :
    records'.task.deleted = true ∧ records'.claims = records.claims := by
  induction h with
  | refl => exact ⟨hdeleted, rfl⟩
  | tail _ hstep ih =>
    obtain ⟨act, hact⟩ := hstep
    obtain hkeeps | ⟨_, -, -, -, hthere, -⟩ := Act.apply_keeps_or_claims hact
    · exact ⟨hkeeps.deleted ih.1, hkeeps.claims.trans ih.2⟩
    · exact absurd (hthere.symm.trans ih.1) (by simp)

/-- A stop that leaves nothing behind sticks: whatever the system does after it, the task is
not meant to run and is not claimable, until a user asks for it. A deleted task is never
claimed again, whatever anybody does. -/
theorem stop_sticky {records stopped : Records} {act : Act}
    (hreach : Reachable Initial Step records) (hstops : act.Stops records)
    (hact : act.apply records = some stopped) :
    (act.TakesBack records →
      ∀ records', Relation.ReflTransGen SystemStep stopped records' →
        records'.task.desiredState ≠ .running ∧ ¬records'.task.Claimable) ∧
    (stopped.task.deleted = true →
      ∀ records', Relation.ReflTransGen Step stopped records' →
        records'.task.deleted = true ∧ ¬records'.task.Claimable ∧
          records'.claims = stopped.claims) := by
  refine ⟨?_, ?_⟩
  · intro htakes records' hrun
    have hhalted : HaltedRecords stopped := hstops.halts htakes (reachable_rests hreach) hact
    have hhalted' : HaltedRecords records' := sticky (fun _ _ => SystemStep.halted) hrun hhalted
    exact ⟨hhalted'.desiredState, hhalted'.not_claimable⟩
  · intro hdeleted records' hrun
    obtain ⟨hdeleted', hclaims⟩ := deleted_never_runs hdeleted hrun
    refine ⟨hdeleted', fun hclaimable => ?_, hclaims⟩
    exact absurd (hclaimable.2.2.1.symm.trans hdeleted') (by simp)

theorem runActs_system {acts : List Act} (hsystem : ∀ act ∈ acts, act.asksToRun = false)
    (h : runActs acts records = some records') :
    Relation.ReflTransGen SystemStep records records' := by
  induction acts generalizing records with
  | nil =>
    cases h
    exact .refl
  | cons act acts ih =>
    simp only [runActs, List.foldlM_cons, Option.bind_eq_bind, Option.bind_eq_some_iff] at h
    obtain ⟨next, hact, hrest⟩ := h
    exact .head ⟨act, hsystem act (by simp), hact⟩
      (ih (fun act hmem => hsystem act (List.mem_cons_of_mem _ hmem)) hrest)

/-- Collecting, then stopped by its user and released by its worker. -/
def stoppedActs : List Act :=
  [claimNew 7 1, .write (.runtimeState .collecting (some 5)) ⟨7, 1, 1⟩]

theorem stop_sticky_collecting :
    ∃ records stopped, runActs stoppedActs newRecords = some records ∧
      (Act.control .stop 3 onlineDevice).apply records = some stopped ∧
      stopped.task.desiredState ≠ .running := by
  have hrun : ∃ records stopped, runActs stoppedActs newRecords = some records ∧
      (Act.control .stop 3 onlineDevice).apply records = some stopped ∧
      previousOperation (claimControl records .stopped) .stopped = none :=
    ⟨_, _, rfl, rfl, rfl⟩
  obtain ⟨records, stopped, hrecords, hstop, hnone⟩ := hrun
  have hreach : Reachable Initial Step records :=
    ⟨newRecords, newRecords_initial, runActs_reaches hrecords⟩
  have hstops : (Act.control .stop 3 onlineDevice).Stops records := rfl
  exact ⟨records, stopped, hrecords, hstop,
    ((stop_sticky hreach hstops hstop).1 (.inl hnone) stopped .refl).1⟩

/-- The new configuration of an edit. -/
def editedDocument : TaskDocument := ⟨.ssh, "10.0.0.1", 2222, 0, none⟩

/-- Collecting, then edited so that it has to stop and start again. -/
def editedActs : List Act :=
  stoppedActs ++ [.edit 1 true false editedDocument 2 [0] onlineDevice fun _ => true]

/-- The worker closes the run and releases it. -/
def releaseActs : List Act :=
  [.write (.closing false) ⟨7, 1, 1⟩, .dropReleasedLock 7, .endReleasedRun 7,
    .write (.detach false) ⟨7, 1, 1⟩, .write (.restart false) ⟨7, 1, 1⟩]

/-- A device that has lost contact stops the task, and answers again after it was deleted. -/
def recoverActs : List Act :=
  [.healthSuccess 0 false false true, .consumeRecovery 0 ⟨true, .online, false, false⟩]

/-- A user's stop that is answered with the operation of the edit before it is undone by the
release it has asked for; and a deleted task is set running by the marker it has kept. -/
theorem stop_undone :
    (∃ records stopped records', Reachable Initial Step records ∧
      (Act.control .stop 3 onlineDevice).apply records = some stopped ∧
      Relation.ReflTransGen SystemStep stopped records' ∧
      records'.task.desiredState = .running ∧ records'.task.Claimable) ∧
    (∃ records stopped records', Reachable Initial Step records ∧
      (Act.delete 1).apply records = some stopped ∧
      Relation.ReflTransGen SystemStep stopped records' ∧
      records'.task.desiredState = .running) := by
  refine ⟨?_, ?_⟩
  · have hrun : ∃ records stopped records', runActs editedActs newRecords = some records ∧
        (Act.control .stop 3 onlineDevice).apply records = some stopped ∧
        runActs releaseActs stopped = some records' ∧
        records'.task.desiredState = .running ∧ records'.task.nodeId = none ∧
        records'.task.deleted = false ∧ records'.task.resourceDeleted = false ∧
        records'.task.status = .stopped :=
      ⟨_, _, _, rfl, rfl, rfl, rfl, rfl, rfl, rfl, rfl⟩
    obtain ⟨records, stopped, records', hrecords, hstop, hrelease, hdesired, hnode, hdeleted,
      hresource, hstatus⟩ := hrun
    exact ⟨records, stopped, records', ⟨newRecords, newRecords_initial, runActs_reaches hrecords⟩,
      hstop, runActs_system (by simp [releaseActs, Act.asksToRun]) hrelease, hdesired,
      hnode, hdesired, hdeleted, hresource, .inl hstatus⟩
  · have hrun : ∃ records stopped records',
        runActs [.healthFailure 0 ⟨true, .offline, false, false⟩ 9] newRecords = some records ∧
        (Act.delete 1).apply records = some stopped ∧
        runActs recoverActs stopped = some records' ∧
        records'.task.desiredState = .running := ⟨_, _, _, rfl, rfl, rfl, rfl⟩
    obtain ⟨records, stopped, records', hrecords, hstop, hrecover, hdesired⟩ := hrun
    exact ⟨records, stopped, records', ⟨newRecords, newRecords_initial, runActs_reaches hrecords⟩,
      hstop, runActs_system (by simp [recoverActs, Act.asksToRun]) hrecover, hdesired⟩

end CameraLogs.Tasks
