import CameraLogs.Tasks.Control

/-!
# Blocked runs

A run whose node has failed or lost contact is blocked, and stays so until its connection
is known to be closed: by the receipt of its worker, by an administrator, or because its
node was shut down as planned. `finishBlockedRun` is what all of them come down to.
-/

namespace CameraLogs.Tasks

/-- A receipt counts for the run the task has now, and for no other. -/
def matchingClosedReceipt (task : Task) : Prop :=
  task.closedReceipt.any (fun receipt =>
    decide (task.runId = some receipt.runId ∧ task.generation = receipt.generation ∧
      task.nodeId = some receipt.nodeId ∧ task.sessionId = some receipt.sessionId)) = true

instance (task : Task) : Decidable (matchingClosedReceipt task) :=
  inferInstanceAs (Decidable (_ = true))

/-- A failover asks for more: the receipt of a worker that closed because contact was lost. -/
def isConfirmedFailoverReceipt (task : Task) : Prop :=
  matchingClosedReceipt task ∧ task.closedReceipt.any ClosedReceipt.fenced = true

instance (task : Task) : Decidable (isConfirmedFailoverReceipt task) :=
  inferInstanceAs (Decidable (_ ∧ _))

/-- The restart that the current control pointer has already been given. -/
def acceptedRestart (records : Records) : Option Operation :=
  if records.task.desiredState ≠ .running ∨ records.task.status = .blocked then none
  else records.operations.find? fun operation =>
    some operation.id = records.task.controlOperationId ∧ operation.action = .restartBlocked ∧
      (operation.status = .pending ∨
        (records.task.status = .collecting ∧ operation.status = .succeeded))

/-- The documents of a blocked run that has been settled. -/
def finishedRecords (records : Records) (restart : Bool) (operationId : Option OperationId) :
    Records :=
  (records.closeRun records.task.runId).withTask { records.task with
    nodeId := none
    status := .stopped
    desiredState := if restart = true then .running else .stopped
    restartRequested := false
    controlOperationId := operationId <|> records.task.controlOperationId }

/-- Settle a run that is proved closed; a deleted task can only stop. -/
def finishBlockedRun (records : Records) (restart : Bool) (operationId : Option OperationId) :
    Except Refusal Records := do
  let task := records.task
  refuseIf (records.foreignLock task.runId) 409 "任务存在后继运行锁，不能释放旧运行"
  refuseIf (task.status ≠ .blocked ∨
    (restart = true ∧ (task.deleted = true ∨ task.resourceDeleted = true))) 409
    "任务控制意图或旧运行归属已变化，请重新查询"
  let closed := finishedRecords records restart operationId
  let settled := closed.settle (fun desired => decide (desired = .stopped)) .succeeded
  .ok (if restart = true then settled
    else settled.settle (fun desired => decide (desired = .running)) .cancelled)

/-- Settled operations apart, the outcome is the same in both directions. -/
theorem finishBlockedRun_eq_ok {records records' : Records} {restart : Bool}
    {operationId : Option OperationId}
    (h : finishBlockedRun records restart operationId = .ok records') :
    (restart = true → records.task.deleted = false ∧ records.task.resourceDeleted = false) ∧
      ∃ operations, records' = { finishedRecords records restart operationId with operations } := by
  simp only [finishBlockedRun, bind_eq_ok, refuseIf_eq_ok] at h
  obtain ⟨_, _, _, hstill, h⟩ := h
  cases h
  refine ⟨fun hrestart => by simpa [hrestart] using (not_or.1 hstill).2, ?_⟩
  cases restart <;> exact ⟨_, rfl⟩

/-- The claim of a transaction on a task. -/
def Records.claimed (records : Records) : Records :=
  records.withTask { records.task with
    controlClaimVersion := records.task.controlClaimVersion + 1 }

/-- A pending request to restart a blocked run. -/
def pendingRestart (records : Records) : Option Operation :=
  records.operations.find? fun operation =>
    operation.action = .restartBlocked ∧ operation.status = .pending

/-- Restart a run that is proved closed, under the pending operation there is or a new one. -/
def restartClosed (records : Records) (identifier : OperationId) : Except Refusal Records :=
  match pendingRestart records with
  | some operation => finishBlockedRun records true (some operation.id)
  | none => do
    let finished ← finishBlockedRun records true (some identifier)
    .ok (finished.insertOperation ⟨identifier, .running, .restartBlocked, .pending⟩)

/-- A worker without a runtime for a blocked task consumes its receipt. -/
def finalizeClosedTask (records : Records) (owner : Owner) (resources : Resources) :
    Option Records :=
  if ¬(ownerFilter owner records.task ∧ records.task.status = .blocked) then none
  else
    let records := records.claimed
    let task := records.task
    let removed : Bool := task.deleted || task.resourceDeleted
    let restart : Bool := task.restartRequested && !removed
    if ¬matchingClosedReceipt task then some records
    else if restart = false ∧ task.desiredState ≠ .stopped ∧ removed = false then some records
    else if restart = true then
      if records.operations.any (fun operation =>
          some operation.id = task.controlOperationId && operation.action = .restartBlocked &&
            operation.status = .pending) then
        -- a refusal rolls the transaction back
        (do guardResources task resources
            finishBlockedRun records true task.controlOperationId).toOption
      else some records
    else (finishBlockedRun records false task.controlOperationId).toOption

/-- The blocked runs with the receipt of a fenced worker are released. -/
def consumeConfirmedFailover (records : Records) (resources : Resources) : Option Records :=
  if ¬(records.task.status = .blocked ∧ records.task.desiredState = .running ∧
      records.task.deleted = false) then none
  else
    let records := records.claimed
    if ¬isConfirmedFailoverReceipt records.task ∨ records.task.resourceDeleted = true then
      some records
    else
      (do guardResources records.task resources
          finishBlockedRun records true none).toOption

/-- An administrator confirms that the old run of one task is isolated. -/
def confirmTaskIsolation (records : Records) (identifier : OperationId) (resources : Resources) :
    Except Refusal Records := do
  refuseIf (records.task.deleted = true ∨ records.task.resourceDeleted = true) 409
    "任务已删除，仅可查询已有日志"
  let records := records.claimed
  match acceptedRestart records with
  | some _ => .ok records
  | none =>
    refuseIf (records.task.status ≠ .blocked) 409 "任务不处于阻塞状态"
    guardResources records.task resources
    restartClosed records identifier

/-- A user asks for the restart of a blocked run; `reachable` where its node has reported
within thirty seconds. -/
def requestBlockedRestart (records : Records) (identifier : OperationId) (reachable : Bool)
    (resources : Resources) : Except Refusal Records := do
  refuseIf (records.task.deleted = true ∨ records.task.resourceDeleted = true) 409
    "任务已删除，仅可查询已有日志"
  let records := records.claimed
  match acceptedRestart records with
  | some _ => .ok records
  | none =>
    refuseIf (records.task.status ≠ .blocked) 409 "仅阻塞任务可以请求重新启动"
    guardResources records.task resources
    if matchingClosedReceipt records.task then
      restartClosed records identifier
    else
      match pendingRestart records with
      | some _ => .ok records
      | none =>
        refuseIf (reachable = false) 409 "旧节点不可达，必须确认单任务隔离"
        let cancelled := records.settle (fun desired => decide (desired = .running)) .cancelled
        .ok ((cancelled.insertOperation
          ⟨identifier, .running, .restartBlocked, .pending⟩).withTask { records.task with
            desiredState := .stopped
            restartRequested := true
            controlOperationId := some identifier })

/-! What the four of them come down to. -/

theorem finalizeClosedTask_eq_some {records records' : Records} {owner : Owner}
    {resources : Resources} (h : finalizeClosedTask records owner resources = some records') :
    records' = records.claimed ∨
      ∃ restart operationId, finishBlockedRun records.claimed restart operationId = .ok records' ∧
        (restart = true → records.task.restartRequested = true) := by
  simp only [finalizeClosedTask] at h
  split at h
  · cases h
  split at h
  · cases h
    exact .inl rfl
  split at h
  · cases h
    exact .inl rfl
  split at h
  · rename_i hrestart
    split at h
    · simp only [toOption_eq_some, bind_eq_ok] at h
      obtain ⟨_, _, h⟩ := h
      exact .inr ⟨true, _, h, fun _ => (Bool.and_eq_true_iff.1 hrestart).1⟩
    · cases h
      exact .inl rfl
  · exact .inr ⟨false, _, toOption_eq_some.1 h, nofun⟩

theorem consumeConfirmedFailover_eq_some {records records' : Records} {resources : Resources}
    (h : consumeConfirmedFailover records resources = some records') :
    records.task.desiredState = .running ∧
      (records' = records.claimed ∨
        finishBlockedRun records.claimed true none = .ok records') := by
  simp only [consumeConfirmedFailover] at h
  split at h
  · cases h
  rename_i hblocked
  refine ⟨(not_not.1 hblocked).2.1, ?_⟩
  split at h
  · cases h
    exact .inl rfl
  · simp only [toOption_eq_some, bind_eq_ok] at h
    obtain ⟨_, _, h⟩ := h
    exact .inr h

theorem restartClosed_eq_ok {records records' : Records} {identifier : OperationId}
    (h : restartClosed records identifier = .ok records') :
    ∃ operationId finished operations,
      finishBlockedRun records true operationId = .ok finished ∧
        records' = { finished with operations } := by
  unfold restartClosed at h
  split at h
  · exact ⟨_, _, _, h, rfl⟩
  · simp only [bind_eq_ok] at h
    obtain ⟨finished, hfinished, h⟩ := h
    cases h
    exact ⟨_, _, _, hfinished, rfl⟩

theorem confirmTaskIsolation_eq_ok {records records' : Records} {identifier : OperationId}
    {resources : Resources} (h : confirmTaskIsolation records identifier resources = .ok records') :
    records' = records.claimed ∨
      ∃ operationId finished operations,
        finishBlockedRun records.claimed true operationId = .ok finished ∧
          records' = { finished with operations } := by
  simp only [confirmTaskIsolation, bind_eq_ok] at h
  obtain ⟨_, _, h⟩ := h
  split at h
  · cases h
    exact .inl rfl
  · simp only [bind_eq_ok] at h
    obtain ⟨_, _, _, _, h⟩ := h
    exact .inr (restartClosed_eq_ok h)

theorem requestBlockedRestart_eq_ok {records records' : Records} {identifier : OperationId}
    {reachable : Bool} {resources : Resources}
    (h : requestBlockedRestart records identifier reachable resources = .ok records') :
    records' = records.claimed ∨
      (∃ operationId finished operations,
        finishBlockedRun records.claimed true operationId = .ok finished ∧
          records' = { finished with operations }) ∨
      (∃ operations, records' = { records.claimed.withTask { records.claimed.task with
          desiredState := .stopped
          restartRequested := true
          controlOperationId := some identifier } with operations }) := by
  simp only [requestBlockedRestart, bind_eq_ok] at h
  obtain ⟨_, _, h⟩ := h
  split at h
  · cases h
    exact .inl rfl
  · simp only [bind_eq_ok] at h
    obtain ⟨_, _, _, _, h⟩ := h
    split at h
    · exact .inr (.inl (restartClosed_eq_ok h))
    split at h
    · cases h
      exact .inl rfl
    · simp only [bind_eq_ok] at h
      obtain ⟨_, _, h⟩ := h
      cases h
      exact .inr (.inr ⟨_, rfl⟩)

/-- A request for a restart changes a blocked task or nothing but the claim. -/
theorem requestBlockedRestart_blocked {records records' : Records} {identifier : OperationId}
    {reachable : Bool} {resources : Resources}
    (h : requestBlockedRestart records identifier reachable resources = .ok records') :
    records' = records.claimed ∨ records.task.status = .blocked := by
  simp only [requestBlockedRestart, bind_eq_ok, refuseIf_eq_ok] at h
  obtain ⟨_, _, h⟩ := h
  split at h
  · cases h
    exact .inl rfl
  · simp only [bind_eq_ok, refuseIf_eq_ok] at h
    obtain ⟨_, hblocked, _⟩ := h
    exact .inr (not_not.1 hblocked)

/-! None of the three gives a run up without its receipt. -/

theorem finalizeClosedTask_closed {records records' : Records} {owner : Owner}
    {resources : Resources} (h : finalizeClosedTask records owner resources = some records') :
    records' = records.claimed ∨ matchingClosedReceipt records.task := by
  simp only [finalizeClosedTask] at h
  split at h
  · cases h
  split at h
  · cases h
    exact .inl rfl
  · rename_i hclosed
    exact .inr (not_not.1 hclosed)

theorem consumeConfirmedFailover_closed {records records' : Records} {resources : Resources}
    (h : consumeConfirmedFailover records resources = some records') :
    records' = records.claimed ∨ matchingClosedReceipt records.task := by
  simp only [consumeConfirmedFailover] at h
  split at h
  · cases h
  split at h
  · cases h
    exact .inl rfl
  · rename_i hconfirmed
    exact .inr (not_not.1 (not_or.1 hconfirmed).1).1

theorem requestBlockedRestart_closed {records records' : Records} {identifier : OperationId}
    {reachable : Bool} {resources : Resources}
    (h : requestBlockedRestart records identifier reachable resources = .ok records') :
    matchingClosedReceipt records.task ∨ records' = records.claimed ∨
      ∃ operations, records' = { records.claimed.withTask { records.claimed.task with
        desiredState := .stopped
        restartRequested := true
        controlOperationId := some identifier } with operations } := by
  simp only [requestBlockedRestart, bind_eq_ok] at h
  obtain ⟨_, _, h⟩ := h
  split at h
  · cases h
    exact .inr (.inl rfl)
  · simp only [bind_eq_ok] at h
    obtain ⟨_, _, _, _, h⟩ := h
    split at h
    · rename_i hclosed
      exact .inl hclosed
    split at h
    · cases h
      exact .inr (.inl rfl)
    · simp only [bind_eq_ok] at h
      obtain ⟨_, _, h⟩ := h
      cases h
      exact .inr (.inr ⟨_, rfl⟩)

/-- A node that was shut down as planned gives back one of its runs. -/
def recoverPlannedRestartTask (records : Records) (owner : Owner) (token : Nat) :
    Option Records :=
  let task := records.task
  updateOne (ownerFilter owner task ∧ task.plannedRestart = some token ∧
      task.desiredState = .running ∧ task.deleted = false ∧ task.resourceDeleted = false ∧
      (task.status = .blocked ∨ task.status = .pending ∨ task.status = .connecting ∨
        task.status = .collecting ∨ task.status = .reconnecting) ∧
      -- no session was ever opened, or it is proved closed
      (if task.status = .pending then task.sessionId = none else matchingClosedReceipt task) ∧
      ¬records.foreignLock task.runId)
    ((records.closeRun task.runId).withTask { task with
      nodeId := none
      status := .stopped
      restartRequested := false
      plannedRestart := none
      closedReceipt := none })

/-- An administrator confirms that a whole node is isolated: a blocked run that was to stop
is stopped, any other is kept, paused, with its budget. -/
def confirmNodeIsolation (records : Records) (nodeId : NodeId) : Option Records :=
  let task := records.task
  if ¬(task.nodeId = some nodeId ∧ task.status = .blocked) then none
  else if task.desiredState = .stopped then
    let restart : Bool := task.restartRequested && !task.resourceDeleted
    some (((records.closeRun task.runId).withTask { task with
      nodeId := none
      status := .stopped
      desiredState := if restart = true then .running else .stopped
      restartRequested := if restart = true then false else task.restartRequested }).settle
        (fun desired => decide (desired = .stopped)) .succeeded)
  else
    let paused := records.withTask { task with nodeId := none, status := .paused }
    some (if task.desiredState = .paused then
      paused.settle (fun desired => decide (desired = .paused)) .succeeded else paused)

end CameraLogs.Tasks
