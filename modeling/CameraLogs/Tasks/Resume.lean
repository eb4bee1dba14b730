import CameraLogs.Tasks.System

/-!
# An accepted resume

A resume leaves an operation that is pending until a worker collects again. Meanwhile the
task waits for its device, is paused with the intent to run, and is claimed. Whatever takes
the intent away from it ends the operation in the same commit, or so it should be: the
change of a device's identity looks at the status alone, and takes a paused task that is
about to resume for one that a user has paused.
-/

namespace CameraLogs.Tasks

variable {records records' : Records} {identifier : OperationId} {act : Act}

/-- The operation of an accepted resume that has not come to its end. -/
def Operation.PendsResume (operation : Operation) (identifier : OperationId) : Prop :=
  operation.id = identifier ∧ operation.desiredState = .running ∧
    (operation.action = .resume ∨ operation.action = .resumeWaitDevice) ∧
    operation.status = .pending

instance (operation : Operation) (identifier : OperationId) :
    Decidable (operation.PendsResume identifier) :=
  inferInstanceAs (Decidable (_ ∧ _))

def Records.ResumePending (records : Records) (identifier : OperationId) : Prop :=
  ∃ operation ∈ records.operations, operation.PendsResume identifier

instance (records : Records) (identifier : OperationId) :
    Decidable (records.ResumePending identifier) :=
  inferInstanceAs (Decidable (∃ operation ∈ records.operations, _))

/-- What users ask for besides running: a stop, a pause, an edit, a deletion, the restart of
a blocked run. -/
def Act.byUser : Act → Bool
  | .control request _ _ => decide (request.desired ≠ .running)
  | .edit .. | .delete _ | .deleteResource _ | .restartBlocked .. => true
  | _ => false

/-- A stop for the device's sake. -/
def Act.stopsForHealth : Act → Bool
  | .healthFailure .. | .stopUnresponsive .. => true
  | _ => false

/-- The first and the last write of a release that reports a failure. -/
def Act.fails : Act → Bool
  | .write (.closing failed) _ | .write (.detach failed) _ => failed
  | _ => false

/-- The device of the task turns out to be another one. -/
def Act.swapsDevice (act : Act) (task : Task) : Prop :=
  match act with
  | .healthSuccess identifier identityChanged _ _ =>
    identityChanged = true ∧ task.linked identifier ∧ task.deleted = false
  | .userAuthentication identifier identityChanged =>
    task.resourceId = identifier ∧ identityChanged = true
  | _ => False

/-- Another device for a task that is paused or that a node has. -/
def Act.Disregards (act : Act) (task : Task) : Prop :=
  act.swapsDevice task ∧ task.protocol ≠ .telnetSerial ∧
    (task.nodeId ≠ none ∨ task.status = .paused)

/-- The step leaves the intent to run, or ends the resume in the same commit: by a request of a
user, by a stop for the device's sake, or because the device has been deleted. -/
def Follows (identifier : OperationId) (act : Act) (records records' : Records) : Prop :=
  records'.task.desiredState = .running ∨
    (¬records'.ResumePending identifier ∧
      (act.byUser = true ∨
        (act.stopsForHealth = true ∧ records'.task.desiredState = .stopped) ∨
        records.task.resourceDeleted = true))

/-- A step that does not swap the device of a resume under way. -/
def HeedfulStep (identifier : OperationId) (records records' : Records) : Prop :=
  ∃ act : Act, act.fails = false ∧
    (records.ResumePending identifier → ¬act.Disregards records.task) ∧
    act.apply records = some records'

/-! ## Pending operations -/

theorem resumePending_settle {picks : DesiredState → Bool} {status : OperationStatus}
    (h : (records.settle picks status).ResumePending identifier) :
    records.ResumePending identifier := by
  obtain ⟨operation, hmem, hpends⟩ := h
  obtain ⟨before, hbefore, rfl⟩ := List.mem_map.1 hmem
  refine ⟨before, hbefore, ?_⟩
  split at hpends
  · rename_i hpicked
    exact ⟨hpends.1, hpends.2.1, hpends.2.2.1, hpicked.1⟩
  · exact hpends

/-- Where the operations of runs are settled, the resume is over. -/
theorem not_resumePending_settle {picks : DesiredState → Bool} {status : OperationStatus}
    (hpicks : picks .running = true) (hstatus : status ≠ .pending) :
    ¬(records.settle picks status).ResumePending identifier := by
  intro ⟨operation, hmem, hpends⟩
  obtain ⟨before, hbefore, rfl⟩ := List.mem_map.1 hmem
  split at hpends
  · exact hstatus hpends.2.2.2
  · rename_i hkept
    obtain ⟨-, hdesired, -, hpending⟩ := hpends
    exact hkept ⟨hpending, by rw [hdesired]; exact hpicks⟩

theorem resumePending_withTask {task : Task} :
    (records.withTask task).ResumePending identifier ↔ records.ResumePending identifier := .rfl

theorem resumePending_insert {operation : Operation}
    (h : (records.insertOperation operation).ResumePending identifier) :
    records.ResumePending identifier ∨ operation.PendsResume identifier := by
  obtain ⟨other, hmem, hpends⟩ := h
  obtain hmem | hmem := List.mem_append.1 hmem
  · exact .inl ⟨other, hmem, hpends⟩
  · rw [List.mem_singleton.1 hmem] at hpends
    exact .inr hpends

/-- Cancelled, and followed by an operation of another kind. -/
theorem not_resumePending_replaced {picks : DesiredState → Bool} {operation : Operation}
    (hpicks : picks .running = true) (hother : ¬operation.PendsResume identifier) :
    ¬((records.settle picks .cancelled).insertOperation operation).ResumePending identifier := by
  intro h
  obtain h | h := resumePending_insert h
  · exact not_resumePending_settle hpicks (by decide) h
  · exact hother h

@[simp] theorem closeRun_operations (runId : Option RunId) :
    (records.closeRun runId).operations = records.operations := by
  cases runId <;> rfl

@[simp] theorem bind_operations {owner : Owner} :
    (records.bind owner).operations = records.operations := by
  unfold Records.bind
  cases records.lock <;> rfl

theorem resumePending_of_same (hoperations : records'.operations = records.operations)
    (h : records'.ResumePending identifier) : records.ResumePending identifier := by
  unfold Records.ResumePending at h ⊢
  rwa [hoperations] at h

/-! ## Steps that heed a resume -/

/-- What a step does to an operation that is pending, and to a task that is to run. -/
structure Heeds (identifier : OperationId) (act : Act) (records records' : Records) : Prop where
  pending : records'.ResumePending identifier → records.ResumePending identifier ∨
    (records'.task.desiredState = .running ∧ records'.task.deleted = false)
  deleted : records.task.deleted = false → records'.ResumePending identifier →
    records'.task.deleted = false
  follows : records.task.desiredState = .running → records.task.deleted = false →
    act.fails = false → ¬act.Disregards records.task → Follows identifier act records records'

/-- The intent and the tombstone stay as they are, and no resume is made. -/
theorem Heeds.of_same (hpending : records'.ResumePending identifier →
      records.ResumePending identifier)
    (hdesired : records'.task.desiredState = records.task.desiredState)
    (hdeleted : records'.task.deleted = records.task.deleted) :
    Heeds identifier act records records' where
  pending := fun h => .inl (hpending h)
  deleted := fun h _ => hdeleted.trans h
  follows := fun hrunning _ _ _ => .inl (hdesired.trans hrunning)

/-- A change of the task, not of its intent. -/
theorem Heeds.withTask {task : Task} (hdesired : task.desiredState = records.task.desiredState)
    (hdeleted : task.deleted = records.task.deleted) :
    Heeds identifier act records (records.withTask task) :=
  .of_same id hdesired hdeleted

/-- The task is to run afterwards. -/
theorem Heeds.of_running (hrunning : records'.task.desiredState = .running)
    (hdeleted : records'.task.deleted = false) : Heeds identifier act records records' where
  pending := fun _ => .inr ⟨hrunning, hdeleted⟩
  deleted := fun _ _ => hdeleted
  follows := fun _ _ _ _ => .inl hrunning

/-- The resume is over. -/
theorem Heeds.of_ended (hended : ¬records'.ResumePending identifier)
    (hact : act.byUser = true ∨
      (act.stopsForHealth = true ∧ records'.task.desiredState = .stopped) ∨
      records.task.resourceDeleted = true) : Heeds identifier act records records' where
  pending := fun h => absurd h hended
  deleted := fun _ h => absurd h hended
  follows := fun _ _ _ _ => .inr ⟨hended, hact⟩

/-- The task was not to run. -/
theorem Heeds.of_halted (hpending : records'.ResumePending identifier →
      records.ResumePending identifier)
    (hdeleted : records'.task.deleted = records.task.deleted)
    (hhalted : records.task.desiredState = .stopped ∨ records.task.deleted = true) :
    Heeds identifier act records records' where
  pending := fun h => .inl (hpending h)
  deleted := fun h _ => hdeleted.trans h
  follows := by
    intro hrunning hthere
    obtain hstopped | hdeleted := hhalted
    · cases hrunning.symm.trans hstopped
    · cases hthere.symm.trans hdeleted

/-! ## The functions, one by one -/

theorem previousOperation_desired {desired : DesiredState} {operation : Operation}
    (h : previousOperation records desired = some operation) :
    operation.desiredState = desired := by
  unfold previousOperation at h
  split at h
  · cases h
  · obtain ⟨hfound, -⟩ := Option.filter_eq_some_iff.1 h
    have hmatches := List.find?_some hfound
    exact of_decide_eq_true (Bool.and_eq_true_iff.1 hmatches).1

theorem commitControl_desired {desired : DesiredState} {requirePaused : Bool}
    {operation : Operation}
    (h : commitControl records desired requirePaused identifier = .ok (records', operation)) :
    operation.desiredState = desired := by
  simp only [commitControl, bind_eq_ok] at h
  obtain ⟨_, _, _, _, h⟩ := h
  cases h
  rfl

/-- A request not to run is answered with an operation not to run. -/
theorem requestControl_desired {request : Request} {resources : Resources}
    {operation : Operation} (hdesired : request.desired ≠ .running)
    (h : requestControl records request.desired request.requirePaused identifier resources =
      .ok (records', operation)) : operation.desiredState = request.desired := by
  have hrequest : request.requirePaused = false := by
    cases request
    case resume => exact absurd rfl hdesired
    all_goals rfl
  rw [hrequest] at h
  simp only [requestControl, bind_eq_ok] at h
  obtain ⟨_, _, _, _, h⟩ := h
  split at h
  · rename_i hwaiting
    simp [waitingOperation] at hwaiting
  split at h
  · rename_i hwaits
    cases hwaits.1
  simp only [changeControl, bind_eq_ok] at h
  obtain ⟨_, _, h⟩ := h
  split at h
  · rename_i previous hprevious
    cases h
    exact previousOperation_desired (Option.filter_eq_some_iff.1 hprevious).1
  · simp only [bind_eq_ok] at h
    obtain ⟨_, _, _, _, h⟩ := h
    split at h
    · rename_i previous hprevious
      cases h
      exact previousOperation_desired hprevious
    · exact commitControl_desired h

theorem localTransition_deleted {moved : Records} {desired : DesiredState}
    (h : localTransition records desired = .ok moved) :
    moved.task.deleted = records.task.deleted := by
  obtain ⟨rfl, -⟩ | ⟨-, -, rfl⟩ | ⟨-, -, -, rfl⟩ | ⟨-, -, -, rfl⟩ | ⟨-, -, -, rfl⟩ :=
    localTransition_eq_ok h <;> rfl

theorem requestControl_heeds {request : Request} {resources : Resources} {other : OperationId}
    {operation : Operation}
    (h : requestControl records request.desired request.requirePaused other resources =
      .ok (records', operation)) :
    Heeds identifier (.control request other resources) records records' := by
  have hoperation := fun hdesired => requestControl_desired hdesired h
  obtain ⟨hthere, ⟨-, rfl⟩ | ⟨rfl, -, -, -, rfl⟩ | ⟨-, -, moved, hmoved, rfl⟩⟩ :=
    requestControl_eq_ok h
  · exact .withTask rfl rfl
  · exact .of_running rfl (hthere (by decide))
  · by_cases hdesired : request.desired = .running
    · refine .of_running hdesired ?_
      exact (localTransition_deleted hmoved).trans (hthere (by rw [hdesired]; decide))
    · -- the opposite intents are cancelled in the same commit
      refine .of_ended ?_ (.inl (by simpa [Act.byUser] using hdesired))
      refine not_resumePending_replaced (by simpa using Ne.symm hdesired) fun hpends => ?_
      exact hdesired ((hoperation hdesired).symm.trans hpends.2.1)

theorem editTask_heeds {version : Nat} {behavioral clear : Bool} {document : TaskDocument}
    {other : OperationId} {identifiers : List ResourceId} {resources : Resources}
    {sameIdentity : ResourceId → Bool}
    (h : editTask records version behavioral clear document other identifiers resources
      sameIdentity = .ok records') (hact : act.byUser = true) :
    Heeds identifier act records records' := by
  obtain ⟨-, edited, hedited, rfl⟩ := editTask_eq_ok h
  obtain rfl | ⟨-, rfl⟩ | ⟨-, rfl⟩ := editIntent_eq_ok hedited
  · exact .withTask rfl rfl
  · exact .withTask rfl rfl
  · exact .of_ended (not_resumePending_replaced rfl (by simp [Operation.PendsResume])) (.inl hact)

/-- A blocked run that is settled is to run again, or its resume is over. -/
theorem finishBlockedRun_heeds {restart : Bool} {operationId : Option OperationId}
    (h : finishBlockedRun records.claimed restart operationId = .ok records')
    (hrestart : restart = false → records.task.desiredState = .stopped ∨
      records.task.deleted = true ∨ records.task.resourceDeleted = true) :
    Heeds identifier act records records' := by
  cases restart with
  | true =>
    obtain ⟨hthere, operations, rfl⟩ := finishBlockedRun_eq_ok h
    exact .of_running rfl (hthere rfl).1
  | false =>
    simp only [finishBlockedRun, bind_eq_ok] at h
    obtain ⟨_, _, _, _, h⟩ := h
    cases h
    have hended : ¬(((finishedRecords records.claimed false operationId).settle
        (fun desired => decide (desired = .stopped)) .succeeded).settle
          (fun desired => decide (desired = .running)) .cancelled).ResumePending identifier :=
      not_resumePending_settle rfl (by decide)
    obtain hstopped | hdeleted | hresource := hrestart rfl
    · exact .of_halted (fun h => absurd h hended) (by simp [finishedRecords]; rfl) (.inl hstopped)
    · exact .of_halted (fun h => absurd h hended) (by simp [finishedRecords]; rfl) (.inr hdeleted)
    · exact .of_ended hended (.inr (.inr hresource))

theorem finishBlockedRun_running {operationId : Option OperationId}
    {operations : List Operation}
    (h : finishBlockedRun records.claimed true operationId = .ok records') :
    Heeds identifier act records { records' with operations } := by
  obtain ⟨hthere, _, rfl⟩ := finishBlockedRun_eq_ok h
  exact .of_running rfl (hthere rfl).1

theorem claimed_heeds : Heeds identifier act records records.claimed := .withTask rfl rfl

/-- A worker gives up for good only what is to stop or has been deleted. -/
theorem finalizeClosedTask_restart {owner : Owner} {resources : Resources}
    (h : finalizeClosedTask records owner resources = some records') :
    records' = records.claimed ∨
      ∃ restart operationId, finishBlockedRun records.claimed restart operationId = .ok records' ∧
        (restart = false → records.task.desiredState = .stopped ∨ records.task.deleted = true ∨
          records.task.resourceDeleted = true) := by
  simp only [finalizeClosedTask] at h
  split at h
  · cases h
  split at h
  · cases h
    exact .inl rfl
  split at h
  · cases h
    exact .inl rfl
  rename_i hhalted
  split at h
  · split at h
    · simp only [toOption_eq_some, bind_eq_ok] at h
      obtain ⟨_, _, h⟩ := h
      exact .inr ⟨true, _, h, fun hfalse => by cases hfalse⟩
    · cases h
      exact .inl rfl
  · rename_i hrestart
    refine .inr ⟨false, _, toOption_eq_some.1 h, fun _ => ?_⟩
    by_cases hstopped : records.task.desiredState = .stopped
    · exact .inl hstopped
    · refine .inr ?_
      have hremoved : (records.task.deleted || records.task.resourceDeleted) ≠ false :=
        fun hkept => hhalted ⟨by simpa using hrestart, hstopped, hkept⟩
      exact Bool.or_eq_true_iff.1 (Bool.ne_false_iff.1 hremoved)

theorem requestBlockedRestart_heeds {other : OperationId} {reachable : Bool}
    {resources : Resources}
    (h : requestBlockedRestart records other reachable resources = .ok records')
    (hact : act.byUser = true) : Heeds identifier act records records' := by
  simp only [requestBlockedRestart, bind_eq_ok] at h
  obtain ⟨_, _, h⟩ := h
  split at h
  · cases h
    exact claimed_heeds
  · simp only [bind_eq_ok] at h
    obtain ⟨_, _, _, _, h⟩ := h
    split at h
    · obtain ⟨_, _, _, hfinished, rfl⟩ := restartClosed_eq_ok h
      exact finishBlockedRun_running hfinished
    split at h
    · cases h
      exact claimed_heeds
    · simp only [bind_eq_ok] at h
      obtain ⟨_, _, h⟩ := h
      cases h
      exact .of_ended (not_resumePending_replaced rfl (by simp [Operation.PendsResume])) (.inl hact)

theorem confirmNodeIsolation_heeds {nodeId : NodeId}
    (h : confirmNodeIsolation records nodeId = some records') :
    Heeds identifier act records records' := by
  simp only [confirmNodeIsolation] at h
  split at h
  · cases h
  split at h
  · rename_i hstopped
    cases h
    refine .of_halted (fun h => ?_) rfl (.inl hstopped)
    have hbefore := resumePending_settle h
    exact resumePending_of_same (closeRun_operations records.task.runId) hbefore
  · cases h
    split
    · exact .of_same resumePending_settle rfl rfl
    · exact .withTask rfl rfl

theorem OwnerWrite.apply_heeds {write : OwnerWrite} {owner : Owner}
    (h : write.apply owner records = some records') :
    Heeds identifier (.write write owner) records records' := by
  cases write with
  | prepare marker =>
    simp only [OwnerWrite.apply] at h
    split at h
    · cases h
    · obtain ⟨-, rfl⟩ := updateOne_eq_some.1 h
      exact .of_same id rfl rfl
  | restart | restartPending =>
    obtain ⟨-, rfl⟩ := updateOne_eq_some.1 h
    exact ⟨.inl, fun h _ => h, fun _ _ _ _ => .inl rfl⟩
  | closing failed | detach failed =>
    obtain ⟨-, rfl⟩ := updateOne_eq_some.1 h
    cases failed with
    | true => exact ⟨.inl, fun h _ => h, fun _ _ hfails => by cases hfails⟩
    | false => exact .of_same id rfl rfl
  | stopPending =>
    obtain ⟨-, rfl⟩ := updateOne_eq_some.1 h
    exact .of_same id rfl rfl
  | runtimeState | pausing | block | pause | pausePending | closedReceipt | fence =>
    obtain ⟨-, rfl⟩ := updateOne_eq_some.1 h
    exact .withTask rfl rfl

theorem completeRun_heeds {marker : DeploymentMarker}
    (h : completeRun records marker = some records') : Heeds identifier act records records' := by
  obtain ⟨run, -, -, ⟨-, rfl⟩ | ⟨-, rfl⟩⟩ := completeRun_eq_some h
  · exact .of_same id rfl rfl
  · unfold Task.deployed
    split <;> exact .of_same id rfl rfl

/-- A stop for the device's sake cancels what it goes against. -/
theorem stopForResourceHealth_heeds {owner : Option Owner} {claimVersion : Nat}
    {device : ResourceId} {resource : Resource} {other : OperationId}
    (h : stopForResourceHealth records owner claimVersion device resource other = some records')
    (hact : act.stopsForHealth = true) : Heeds identifier act records records' := by
  unfold stopForResourceHealth at h
  extract_lets task owned at h
  split at h
  · cases h
    refine .of_ended ?_ (.inr (.inl ⟨hact, rfl⟩))
    exact not_resumePending_replaced rfl (by simp [Operation.PendsResume])
  · cases h

theorem applyFailure_heeds {device : ResourceId} {resource : Resource} {other : OperationId}
    (h : applyFailure records device resource other = some records')
    (hact : act.stopsForHealth = true) : Heeds identifier act records records' := by
  obtain ⟨_, -, rfl⟩ | hstop := applyFailure_eq_some h
  · exact .withTask rfl rfl
  · exact stopForResourceHealth_heeds hstop hact

/-! ### Another device -/

/-- An update that touches neither the intent nor the operations. -/
structure Untouched (records records' : Records) : Prop where
  operations : records'.operations = records.operations
  desired : records'.task.desiredState = records.task.desiredState
  deleted : records'.task.deleted = records.task.deleted

theorem Untouched.refl : Untouched records records := ⟨rfl, rfl, rfl⟩

theorem authorizeHealthRecoveries_untouched {device : ResourceId} :
    Untouched records (authorizeHealthRecoveries records device) := by
  simp only [authorizeHealthRecoveries]
  split
  · exact .refl
  · split
    · exact ⟨rfl, rfl, rfl⟩
    · exact .refl

theorem resumeAfterProbe_untouched {device : ResourceId} {timely : Bool} :
    Untouched records (resumeAfterProbe records device timely) := by
  simp only [resumeAfterProbe]
  split
  · exact .refl
  · split
    · exact ⟨rfl, rfl, rfl⟩
    · exact .refl

/-- The effect on a task that is to run, where its device is swapped if `swap` holds: it is to
run still, unless a node has it or it is paused. -/
structure Swapped (swap : Prop) (records records' : Records) : Prop where
  operations : records'.operations = records.operations
  deleted : records'.task.deleted = records.task.deleted
  desired : records.task.desiredState = .running →
    (records'.task.desiredState = .running ↔
      ¬(swap ∧ records.task.protocol ≠ .telnetSerial ∧
        (records.task.nodeId ≠ none ∨ records.task.status = .paused)))

theorem Swapped.then {swap : Prop} {middle : Records} (h : Swapped swap records middle)
    (h' : Untouched middle records') : Swapped swap records records' where
  operations := h'.operations.trans h.operations
  deleted := h'.deleted.trans h.deleted
  desired := by
    rw [h'.desired]
    exact h.desired

theorem Swapped.of_not {swap : Prop} (h : ¬(swap ∧ records.task.protocol ≠ .telnetSerial)) :
    Swapped swap records records where
  operations := rfl
  deleted := rfl
  desired := fun hrunning => by
    simp only [hrunning, true_iff]
    exact fun hswap => h ⟨hswap.1, hswap.2.1⟩

theorem transitionIdentityTask_swapped {swap : Prop} (hswap : swap) :
    Swapped swap records (transitionIdentityTask records) := by
  simp only [transitionIdentityTask]
  split
  · rename_i hserial
    exact .of_not fun hother => hother.2 hserial
  rename_i hserial
  split
  · rename_i hnode
    exact ⟨rfl, rfl, fun _ => by simp [hserial, hnode.1, hswap]⟩
  rename_i hnode
  split
  · rename_i hpaused
    exact ⟨closeRun_operations _, rfl, fun _ => by simp [hserial, hpaused, hswap]⟩
  rename_i hpaused
  -- otherwise a task that is to run has no node
  have hkept : records.task.desiredState = .running →
      ¬(records.task.nodeId ≠ none ∨ records.task.status = .paused) := by
    intro hrunning hwrong
    exact hwrong.elim (fun hsome => hnode ⟨hsome, hrunning⟩) hpaused
  split
  · exact ⟨closeRun_operations _, rfl, fun hrunning => by simp [hkept hrunning]⟩
  · exact ⟨rfl, rfl, fun hrunning => by simp [hrunning, hkept hrunning]⟩

theorem transitionIf_swapped {swap : Prop} [Decidable swap] :
    Swapped swap records (if swap then transitionIdentityTask records else records) := by
  split
  · rename_i hswap
    exact transitionIdentityTask_swapped hswap
  · rename_i hkept
    exact .of_not fun hswap => hkept hswap.1

theorem grantAfterUserAuthentication_swapped {device : ResourceId} {identityChanged : Bool} :
    Swapped (records.task.resourceId = device ∧ identityChanged = true) records
      (grantAfterUserAuthentication records device identityChanged) := by
  simp only [grantAfterUserAuthentication]
  have hmoved : Swapped (records.task.resourceId = device ∧ identityChanged = true) records _ :=
    transitionIf_swapped
  split
  · rename_i hother
    exact .of_not fun hswap => hother ⟨.inl hswap.1.1, hswap.2⟩
  split
  · exact hmoved
  split
  · exact hmoved.then ⟨rfl, rfl, rfl⟩
  · exact hmoved

theorem grantAfterUserAuthentication_untouched {device : ResourceId} :
    Untouched records (grantAfterUserAuthentication records device false) := by
  simp only [grantAfterUserAuthentication, Bool.false_eq_true, and_false, if_false]
  split
  · exact .refl
  split
  · exact .refl
  split
  · exact ⟨rfl, rfl, rfl⟩
  · exact .refl

theorem applySuccess_swapped {device : ResourceId}
    {identityChanged authorizeUserRecovery timely : Bool} :
    Swapped (identityChanged = true ∧ records.task.linked device ∧ records.task.deleted = false)
      records (applySuccess records device identityChanged authorizeUserRecovery timely) := by
  simp only [applySuccess]
  have hmoved : Swapped (identityChanged = true ∧ records.task.linked device ∧
      records.task.deleted = false) records _ := transitionIf_swapped
  have hauthorized := hmoved.then (@authorizeHealthRecoveries_untouched _ device)
  refine Swapped.then ?_ resumeAfterProbe_untouched
  split
  · exact hauthorized.then grantAfterUserAuthentication_untouched
  · exact hauthorized

/-- The acts that may swap the device do so under their own condition. -/
theorem Act.apply_swapped {act : Act} (h : act.apply records = some records')
    (hswaps : act.swapsDevice records.task) :
    Swapped (act.swapsDevice records.task) records records' := by
  cases act with
  | healthSuccess =>
    simp only [Act.apply, Option.ite_none_right_eq_some, Option.some.injEq] at h
    obtain ⟨-, rfl⟩ := h
    exact applySuccess_swapped
  | userAuthentication =>
    simp only [Act.apply, Option.ite_none_right_eq_some, Option.some.injEq] at h
    obtain ⟨-, rfl⟩ := h
    exact grantAfterUserAuthentication_swapped
  | _ => exact hswaps.elim

theorem Swapped.heeds (h : Swapped (act.swapsDevice records.task) records records') :
    Heeds identifier act records records' where
  pending := fun hpends => .inl (resumePending_of_same h.operations hpends)
  deleted := fun hthere _ => h.deleted.trans hthere
  follows := fun hrunning _ _ hheeds => .inl ((h.desired hrunning).2 hheeds)

/-- A resume whose device is swapped under it, paused or on a node, goes on pending without the
intent to run. -/
theorem Swapped.not_follows (h : Swapped (act.swapsDevice records.task) records records')
    (hrunning : records.task.desiredState = .running)
    (hpends : records.ResumePending identifier) (hdisregards : act.Disregards records.task) :
    ¬Follows identifier act records records' := by
  intro hfollows
  obtain hkept | ⟨hended, -⟩ := hfollows
  · exact (h.desired hrunning).1 hkept hdisregards
  · exact hended (resumePending_of_same h.operations.symm hpends)

end CameraLogs.Tasks
