import CameraLogs.Tasks.Control

/-!
# The scheduler's writes

`claimTask` is the one write that makes an owner: in a transaction it binds the task, its
lock and its run to a node and raises the generation. The other writes of a scheduling
cycle follow it.
-/

namespace CameraLogs.Tasks

/-- The run that a claim with this snapshot of the task resumes. -/
def resumedRun (status : Status) (runId : Option RunId) : Option RunId :=
  if status = .paused then runId else none

/-- What the device has to be for a task to be handed out. -/
def admitsResource (task : Task) (resources : Resources) : Prop :=
  (resources task.resourceId).any (fun resource =>
    !resource.deleted && !decide (resourceHealthBlocksTask task resource)) = true

instance (task : Task) (resources : Resources) : Decidable (admitsResource task resources) :=
  inferInstanceAs (Decidable (_ = true))

/-- The run of a claim: a new document where there is none. -/
def Records.upsertRun (records : Records) (owner : Owner) : Records :=
  { records with
    runs := Function.update records.runs owner.runId <| some <|
      match records.runs owner.runId with
      | none => ⟨owner.nodeId, owner.generation, none, false, none⟩
      | some run => { run with nodeId := owner.nodeId, generation := owner.generation } }

/-- The writes of a successful claim. -/
def Records.bind (records : Records) (owner : Owner) : Records :=
  let locked := match records.lock with
    | none => { records with
        lock := some ⟨(records.task.ip, records.task.port), owner.runId⟩ }
    | some _ => records
  { (locked.upsertRun owner).withTask { records.task with
      nodeId := some owner.nodeId
      runId := some owner.runId
      status := .pending
      generation := owner.generation } with
    claims := owner :: records.claims }

/-- Claim a task for a node, from a snapshot of its status and its run. `admitted` is what
the node's own documents answer: its heartbeat, disk, isolation, capacity and admission, and
whether a failed-over task may come back to it. -/
def claimTask (records : Records) (status : Status) (runId : Option RunId) (newRun : RunId)
    (nodeId : NodeId) (admitted : Bool) (resources : Resources) : Option Records :=
  let task := records.task
  let resumed := resumedRun status runId
  let claimed := resumed.getD newRun
  if admitted = true ∧ task.nodeId = none ∧ task.desiredState = .running ∧
      task.deleted = false ∧ task.resourceDeleted = false ∧ task.status = status ∧
      (resumed = none ∨ task.runId = resumed) ∧ admitsResource task resources then
    -- the lock of another run: the task must not connect a second time
    if records.lock.any (fun lock => resumed ≠ some lock.runId) = true then
      some (records.withTask { task with status := .blocked })
    else
      some (records.bind ⟨claimed, nodeId, task.generation + 1⟩)
  else none

/-- What a claim comes to: the task is blocked by a lock it should not find, or it is bound,
to the run it resumes or to the new one. -/
theorem claimTask_eq_some {records records' : Records} {status : Status} {runId : Option RunId}
    {newRun : RunId} {nodeId : NodeId} {admitted : Bool} {resources : Resources}
    (h : claimTask records status runId newRun nodeId admitted resources = some records') :
    records.task.nodeId = none ∧ records.task.deleted = false ∧
      records.task.desiredState = .running ∧ records.task.status = status ∧
      (records' = records.withTask { records.task with status := .blocked } ∨
        ∃ claimed, records' = records.bind ⟨claimed, nodeId, records.task.generation + 1⟩ ∧
          ((claimed = newRun ∧ records.lock = none) ∨
            (records.task.status = .paused ∧ records.task.runId = some claimed ∧
              ∀ lock ∈ records.lock, lock.runId = claimed))) := by
  unfold claimTask at h
  extract_lets task resumed claimed at h
  split at h
  · rename_i hready
    obtain ⟨-, hnode, hdesired, hdeleted, -, hstatus, hresumed, -⟩ := hready
    refine ⟨hnode, hdeleted, hdesired, hstatus, ?_⟩
    split at h
    · cases h
      exact .inl rfl
    · rename_i hlock
      cases h
      refine .inr ⟨claimed, rfl, ?_⟩
      cases hcase : resumed with
      | none =>
        -- a new run, and then any lock would have been a foreign one
        refine .inl ⟨by simp [claimed, hcase], ?_⟩
        simpa [hcase] using hlock
      | some resumedRun =>
        have hclaimed : claimed = resumedRun := by simp [claimed, hcase]
        have hpaused : status = .paused ∧ runId = some resumedRun := by
          have hunfold : (if status = .paused then runId else none) = some resumedRun := hcase
          split at hunfold
          · rename_i hstatus
            exact ⟨hstatus, hunfold⟩
          · cases hunfold
        refine .inr ⟨hstatus.trans hpaused.1, ?_, ?_⟩
        · rw [hcase] at hresumed
          rw [hclaimed]
          exact hresumed.resolve_left (by simp)
        · intro lock hmem
          rw [Option.mem_def.1 hmem, hcase] at hlock
          simpa [hclaimed] using (by simpa using hlock : resumedRun = lock.runId).symm
  · cases h

/-- A node that has lost contact keeps what it has, blocked. -/
def blockStale (records : Records) (nodeId : NodeId) : Option Records :=
  updateOne (records.task.nodeId = some nodeId ∧ records.task.status ≠ .stopped ∧
      records.task.status ≠ .blocked)
    (records.withTask { records.task with status := .blocked })

def reconcileStoppedTasks (records : Records) : Option Records :=
  updateOne (records.task.desiredState = .stopped ∧ records.task.nodeId = none ∧
      records.task.status ≠ .stopped ∧ records.task.status ≠ .blocked ∧
      records.task.status ≠ .error)
    (records.withTask { records.task with status := .stopped })

/-- No node can take the task now: it queues, under the snapshot the scheduler has. -/
def queueTask (records : Records) (status : Status) (runId : Option RunId) (generation : Nat) :
    Option Records :=
  updateOne ((status = .stopped ∨ status = .pending) ∧ records.task.nodeId = none ∧
      records.task.desiredState = .running ∧ records.task.status = status ∧
      records.task.runId = runId ∧ records.task.generation = generation ∧
      records.task.resourceDeleted = false)
    (records.withTask { records.task with status := .pending })

end CameraLogs.Tasks
