import CameraLogs.Tasks.Spared

/-!
# At most one live connection per task

While a connection may be open its runtime has not been stopped and the task carries its owner
and its session. What takes a task from its node without a receipt of that session is a worker
that has stopped the runtime, or a deployment whose old container has stopped; and a receipt of
the session is only written once its runtime is stopped.

So where a task is free to be claimed no connection is open, and two connections would be
carried by one owner, on one node, in one process, by one runtime.
-/

namespace CameraLogs.Tasks

open Lib

variable {task : Task} {cluster cluster' : Cluster}

/-! ## The processes -/

/-- A connection is the one of the runtime that its node has, which has not been stopped. -/
def Cluster.Backed (cluster : Cluster) (connection : Connection) : Prop :=
  ∃ worker runtime, cluster.workers connection.owner.nodeId = some worker ∧
    worker.process = connection.process ∧ worker.active = some runtime ∧
    runtime.owner = connection.owner ∧ runtime.session = some connection.session ∧
    runtime.started = true ∧ runtime.stopped = false

/-- A session that has been made, and that no runtime will connect for any more. -/
def Cluster.Sealed (cluster : Cluster) (session : SessionId) : Prop :=
  cluster.constructed session ≠ none ∧
    ∀ nodeId worker runtime, cluster.workers nodeId = some worker →
      worker.active = some runtime → runtime.session = some session → runtime.stopped = true

/-- What holds of the documents, the processes and the connections together. -/
structure Supervised (cluster : Cluster) : Prop where
  reachable : Reachable Initial Step cluster.records
  process : ∀ nodeId worker, cluster.workers nodeId = some worker →
    worker.process ∈ cluster.processes
  distinct : ∀ nodeId nodeId' worker worker', cluster.workers nodeId = some worker →
    cluster.workers nodeId' = some worker' → worker.process = worker'.process → nodeId = nodeId'
  constructed : ∀ session process, cluster.constructed session = some process →
    process ∈ cluster.processes
  active : ∀ nodeId worker runtime, cluster.workers nodeId = some worker →
    worker.active = some runtime → runtime.owner.nodeId = nodeId ∧
      ∀ session, runtime.session = some session →
        cluster.constructed session = some worker.process
  fenced : ∀ nodeId worker runtime, cluster.workers nodeId = some worker →
    worker.selfFenced = some runtime → runtime.finishing = some .fence ∧
      ∀ session, runtime.session = some session →
        cluster.constructed session = some worker.process ∧
          ∀ other, worker.active = some other → other.session = some session →
            other.stopped = true
  backed : ∀ connection ∈ cluster.connections, cluster.Backed connection
  carried : ∀ connection ∈ cluster.connections,
    Carries connection.owner connection.session cluster.records.task
  single : cluster.connections.length ≤ 1
  session : ∀ session, cluster.records.task.sessionId = some session →
    cluster.constructed session ≠ none
  receipt : ∀ receipt ∈ cluster.records.task.closedReceipt, cluster.Sealed receipt.sessionId
  prepared : ∀ frozen ∈ cluster.prepared, cluster.constructed frozen.1.sessionId ≠ none ∧
    ∀ worker, cluster.workers frozen.1.nodeId = some worker →
      cluster.constructed frozen.1.sessionId = some worker.process →
        frozen.2 = some worker.process

theorem ClusterInitial.supervised (h : ClusterInitial cluster) : Supervised cluster where
  reachable := Reachable.initial h.records
  process := by simp [h.workers]
  distinct := by simp [h.workers]
  constructed := by simp [h.constructed]
  active := by simp [h.workers]
  fenced := by simp [h.workers]
  backed := by simp [h.connections]
  carried := by simp [h.connections]
  single := by simp [h.connections]
  session := by simp [h.sessionId]
  receipt := by simp [h.closedReceipt]
  prepared := by simp [h.prepared]

/-- Only the documents are written. -/
theorem Supervised.withRecords (h : Supervised cluster) {records : Records}
    (hstep : Step cluster.records records)
    (hcarried : ∀ connection ∈ cluster.connections,
      Carries connection.owner connection.session records.task)
    (hsession : ∀ session, records.task.sessionId = some session →
      cluster.constructed session ≠ none)
    (hreceipt : ∀ receipt ∈ records.task.closedReceipt, cluster.Sealed receipt.sessionId) :
    Supervised (cluster.withRecords records) :=
  { h with
    reachable := h.reachable.tail hstep
    carried := hcarried
    session := hsession
    receipt := hreceipt }

/-- A write that spares the connections, whoever makes it. -/
theorem Supervised.spare (h : Supervised cluster) {records : Records}
    (hstep : Step cluster.records records) (hspares : Spares cluster.records.task records.task) :
    Supervised (cluster.withRecords records) := by
  refine h.withRecords hstep ?_ ?_ ?_
  · intro connection hmem
    exact hspares.carries _ _ (h.carried connection hmem)
  · intro session hsession
    obtain hsame | hnone := hspares.session
    · exact h.session session (hsame ▸ hsession)
    · rw [hnone] at hsession
      cases hsession
  · intro receipt hreceipt
    obtain hsame | hnone := hspares.receipt
    · exact h.receipt receipt (hsame ▸ hreceipt)
    · rw [hnone] at hreceipt
      cases hreceipt

/-- Where a task is carried, it is carried for the only owner it has. -/
theorem Carries.owner_eq {owner : Owner} {session : SessionId} (h : Carries owner session task)
    {other : Owner} (hother : ownerFilter other task) : other = owner := by
  obtain ⟨hrun, hnode, hgeneration⟩ := h.filter
  obtain ⟨hrun', hnode', hgeneration'⟩ := hother
  rw [hrun] at hrun'
  rw [hnode] at hnode'
  rw [hgeneration] at hgeneration'
  cases owner
  cases other
  cases hrun'
  cases hnode'
  cases hgeneration'
  rfl

/-- The runtime of the owner that a write has matched is the one behind every connection. -/
theorem Supervised.backed_by (h : Supervised cluster) {nodeId : NodeId} {worker : Worker}
    {runtime : Runtime} (hworker : cluster.workers nodeId = some worker)
    (hruntime : worker.active = some runtime)
    (hfilter : ownerFilter runtime.owner cluster.records.task) :
    ∀ connection ∈ cluster.connections, runtime.session = some connection.session ∧
      runtime.started = true ∧ runtime.stopped = false ∧
      connection.owner = runtime.owner ∧ connection.process = worker.process := by
  intro connection hmem
  have howner := (h.carried connection hmem).owner_eq hfilter
  obtain ⟨worker', runtime', hworker', hprocess, hruntime', howner', hsession, hstarted, hstopped⟩ :=
    h.backed connection hmem
  have hnode := (h.active nodeId worker runtime hworker hruntime).1
  rw [← howner, hnode, hworker] at hworker'
  cases hworker'
  rw [hruntime] at hruntime'
  cases hruntime'
  exact ⟨hsession, hstarted, hstopped, howner.symm, hprocess.symm⟩

/-- Some connections are closed. -/
theorem Supervised.filter (h : Supervised cluster) (keep : Connection → Bool) :
    Supervised { cluster with connections := cluster.connections.filter keep } :=
  { h with
    backed := fun connection hmem => h.backed connection (List.mem_of_mem_filter hmem)
    carried := fun connection hmem => h.carried connection (List.mem_of_mem_filter hmem)
    single := (List.length_filter_le _ _).trans h.single }

/-- The worker of a node changes, and neither makes a session nor opens one. -/
theorem Supervised.withWorker (h : Supervised cluster) {nodeId : NodeId} {worker worker' : Worker}
    (hworker : cluster.workers nodeId = some worker) (hprocess : worker'.process = worker.process)
    (hactive : ∀ runtime, worker'.active = some runtime → runtime.owner.nodeId = nodeId ∧
      ∀ session, runtime.session = some session →
        cluster.constructed session = some worker.process)
    (hlive : ∀ runtime, worker'.active = some runtime → runtime.stopped = false →
      ∀ session, runtime.session = some session →
        ∃ old, worker.active = some old ∧ old.session = some session ∧ old.stopped = false)
    (hfenced : ∀ runtime, worker'.selfFenced = some runtime → runtime.finishing = some .fence ∧
      ∀ session, runtime.session = some session →
        cluster.constructed session = some worker.process ∧
          ∀ other, worker'.active = some other → other.session = some session →
            other.stopped = true)
    (hbacked : ∀ connection ∈ cluster.connections, connection.owner.nodeId = nodeId →
      ∃ runtime, worker'.active = some runtime ∧ runtime.owner = connection.owner ∧
        runtime.session = some connection.session ∧ runtime.started = true ∧
        runtime.stopped = false) :
    Supervised (cluster.withWorker nodeId (some worker')) := by
  -- the process is the one the node had, so it is still nobody else's
  have hold : ∀ other found, (cluster.withWorker nodeId (some worker')).workers other = some found →
      ∃ before, cluster.workers other = some before ∧ before.process = found.process := by
    intro other found hfound
    obtain ⟨rfl, hnew⟩ | ⟨-, hbefore⟩ := Cluster.withWorker_workers hfound
    · cases hnew
      exact ⟨worker, hworker, hprocess.symm⟩
    · exact ⟨found, hbefore, rfl⟩
  refine { h with
    process := ?_, distinct := ?_, active := ?_, fenced := ?_, backed := ?_, receipt := ?_,
    prepared := ?_ }
  · intro other found hfound
    obtain ⟨before, hbefore, hsame⟩ := hold other found hfound
    rw [← hsame]
    exact h.process other before hbefore
  · intro one two found found' hfound hfound' heq
    obtain ⟨before, hbefore, hprocess₁⟩ := hold one found hfound
    obtain ⟨before', hbefore', hprocess₂⟩ := hold two found' hfound'
    exact h.distinct one two before before' hbefore hbefore'
      (hprocess₁.trans (heq.trans hprocess₂.symm))
  · intro other found runtime hfound hruntime
    obtain ⟨rfl, hnew⟩ | ⟨-, hbefore⟩ := Cluster.withWorker_workers hfound
    · cases hnew
      rw [hprocess]
      exact hactive runtime hruntime
    · exact h.active other found runtime hbefore hruntime
  · intro other found runtime hfound hruntime
    obtain ⟨rfl, hnew⟩ | ⟨-, hbefore⟩ := Cluster.withWorker_workers hfound
    · cases hnew
      rw [hprocess]
      exact hfenced runtime hruntime
    · exact h.fenced other found runtime hbefore hruntime
  · intro connection hmem
    by_cases hsame : connection.owner.nodeId = nodeId
    · obtain ⟨runtime, hruntime, howner, hsession, hstarted, hstopped⟩ :=
        hbacked connection hmem hsame
      obtain ⟨before, _, hbefore, hprocess', -⟩ := h.backed connection hmem
      rw [hsame, hworker] at hbefore
      cases hbefore
      refine ⟨worker', runtime, ?_, hprocess.trans hprocess', hruntime, howner, hsession, hstarted,
        hstopped⟩
      rw [hsame]
      exact Function.update_self ..
    · obtain ⟨before, runtime, hbefore, hrest⟩ := h.backed connection hmem
      refine ⟨before, runtime, ?_, hrest⟩
      exact (Function.update_of_ne hsame ..).trans hbefore
  · intro receipt hreceipt
    obtain ⟨hmade, hstopped⟩ := h.receipt receipt hreceipt
    refine ⟨hmade, ?_⟩
    intro other found runtime hfound hruntime hsession
    obtain ⟨rfl, hnew⟩ | ⟨-, hbefore⟩ := Cluster.withWorker_workers hfound
    · cases hnew
      -- a runtime that could still connect for the session would have been there before
      cases hcase : runtime.stopped with
      | true => rfl
      | false =>
        obtain ⟨old, hold, holdSession, holdStopped⟩ :=
          hlive runtime hruntime hcase receipt.sessionId hsession
        have hcontra := hstopped other worker old hworker hold holdSession
        rw [holdStopped] at hcontra
        cases hcontra
    · exact hstopped other found runtime hbefore hruntime hsession
  · intro frozen hmem
    obtain ⟨hmade, hfrozen⟩ := h.prepared frozen hmem
    refine ⟨hmade, ?_⟩
    intro found hfound hprocess'
    obtain ⟨hsame, hnew⟩ | ⟨-, hbefore⟩ := Cluster.withWorker_workers hfound
    · cases hnew
      rw [hprocess] at hprocess' ⊢
      exact hfrozen worker (hsame ▸ hworker) hprocess'
    · exact hfrozen found hbefore hprocess'

/-- A runtime that keeps its owner, its session and how far it has got. -/
theorem Supervised.withRuntime (h : Supervised cluster) {nodeId : NodeId} {worker : Worker}
    {runtime runtime' : Runtime} (hworker : cluster.workers nodeId = some worker)
    (hruntime : worker.active = some runtime) (howner : runtime'.owner = runtime.owner)
    (hsession : runtime'.session = runtime.session) (hstarted : runtime'.started = runtime.started)
    (hstopped : runtime'.stopped = runtime.stopped) :
    Supervised (cluster.withRuntime nodeId worker runtime') := by
  have hactive := h.active nodeId worker runtime hworker hruntime
  refine h.withWorker hworker rfl ?_ ?_ ?_ ?_
  · intro found hfound
    cases hfound
    rw [howner, hsession]
    exact hactive
  · intro found hfound hlive session hmade
    cases hfound
    rw [hsession] at hmade
    rw [hstopped] at hlive
    exact ⟨runtime, hruntime, hmade, hlive⟩
  · intro fenced hfenced
    obtain ⟨haction, hsessions⟩ := h.fenced nodeId worker fenced hworker hfenced
    refine ⟨haction, fun session hmade => ?_⟩
    obtain ⟨hby, hothers⟩ := hsessions session hmade
    refine ⟨hby, fun other hother hsame => ?_⟩
    cases hother
    rw [hsession] at hsame
    rw [hstopped]
    exact hothers runtime hruntime hsame
  · intro connection hmem hnode
    obtain ⟨before, found, hbefore, -, hfound, hsame, hmade, hbegun, hlive⟩ :=
      h.backed connection hmem
    rw [hnode, hworker] at hbefore
    cases hbefore
    rw [hruntime] at hfound
    cases hfound
    exact ⟨runtime', rfl, howner.trans hsame, hsession.trans hmade, hstarted.trans hbegun,
      hstopped.trans hlive⟩

theorem Supervised.begin (h : Supervised cluster) {nodeId : NodeId} {worker : Worker}
    {runtime : Runtime} {action : Finish} (hworker : cluster.workers nodeId = some worker)
    (hruntime : worker.active = some runtime)
    (hbegin : cluster.begin nodeId worker runtime action = some cluster') :
    Supervised cluster' := by
  simp only [Cluster.begin, Option.bind_eq_bind, Option.bind_eq_some_iff, Option.some.injEq] at hbegin
  obtain ⟨_, -, rfl⟩ := hbegin
  exact h.withRuntime hworker hruntime rfl rfl rfl rfl

/-- The node has no runtime any more, or never had one: nothing on it is connected. -/
theorem Supervised.unconnected (h : Supervised cluster) {nodeId : NodeId} {worker : Worker}
    (hworker : cluster.workers nodeId = some worker)
    (hidle : ∀ runtime, worker.active = some runtime → runtime.stopped = true) :
    ∀ connection ∈ cluster.connections, connection.owner.nodeId ≠ nodeId := by
  intro connection hmem hnode
  obtain ⟨found, runtime, hfound, -, hruntime, -, -, -, hlive⟩ := h.backed connection hmem
  rw [hnode, hworker] at hfound
  cases hfound
  rw [hidle runtime hruntime] at hlive
  cases hlive

/-- A runtime that `tick` starts has made no session. -/
theorem Supervised.start (h : Supervised cluster) {nodeId : NodeId} {worker : Worker}
    {owner : Owner} (hworker : cluster.workers nodeId = some worker) (hnone : worker.active = none)
    (hnode : owner.nodeId = nodeId) :
    Supervised (cluster.withRuntime nodeId worker (.start owner)) := by
  refine h.withWorker hworker rfl ?_ ?_ ?_ ?_
  · intro runtime hruntime
    cases hruntime
    exact ⟨hnode, fun session hsession => by cases hsession⟩
  · intro runtime hruntime _ session hsession
    cases hruntime
    cases hsession
  · intro fenced hfenced
    obtain ⟨haction, hsessions⟩ := h.fenced nodeId worker fenced hworker hfenced
    refine ⟨haction, fun session hsession => ⟨(hsessions session hsession).1, ?_⟩⟩
    intro other hother hsame
    cases hother
    cases hsame
  · intro connection hmem hsame
    have hidle := h.unconnected hworker (fun runtime hruntime => by
      rw [hnone] at hruntime
      cases hruntime)
    exact absurd hsame (hidle connection hmem)

theorem owner?_nodeId {owner : Owner} {nodeId : NodeId} (h : task.owner? = some owner)
    (hnode : task.nodeId = some nodeId) : owner.nodeId = nodeId := by
  simp only [Task.owner?, hnode, Option.bind_eq_bind, Option.bind_eq_some_iff,
    Option.some.injEq] at h
  obtain ⟨runId, -, found, rfl, rfl⟩ := h
  rfl

/-- A worker on its way down has what it had. -/
theorem Supervised.shutdown (h : Supervised cluster) {nodeId : NodeId} {worker : Worker}
    (hworker : cluster.workers nodeId = some worker) :
    Supervised (cluster.withWorker nodeId (some { worker with closing := true })) := by
  refine h.withWorker hworker rfl ?_ ?_ ?_ ?_
  · exact fun runtime hruntime => h.active nodeId worker runtime hworker hruntime
  · exact fun runtime hruntime hlive session hsession => ⟨runtime, hruntime, hsession, hlive⟩
  · exact fun fenced hfenced => h.fenced nodeId worker fenced hworker hfenced
  · intro connection hmem hnode
    obtain ⟨found, runtime, hfound, -, hrest⟩ := h.backed connection hmem
    rw [hnode, hworker] at hfound
    cases hfound
    exact ⟨runtime, hrest⟩

/-- A worker without a connection can do without its runtime. -/
theorem Supervised.withoutRuntime (h : Supervised cluster) {nodeId : NodeId}
    {worker worker' : Worker} (hworker : cluster.workers nodeId = some worker)
    (hprocess : worker'.process = worker.process) (hnone : worker'.active = none)
    (hfenced : ∀ runtime, worker'.selfFenced = some runtime → runtime.finishing = some .fence ∧
      ∀ session, runtime.session = some session →
        cluster.constructed session = some worker.process)
    (hidle : ∀ connection ∈ cluster.connections, connection.owner.nodeId ≠ nodeId) :
    Supervised (cluster.withWorker nodeId (some worker')) := by
  have hnever : ∀ runtime, worker'.active ≠ some runtime := by
    intro runtime hactive
    rw [hnone] at hactive
    cases hactive
  refine h.withWorker hworker hprocess ?_ ?_ ?_ ?_
  · exact fun runtime hactive => absurd hactive (hnever runtime)
  · exact fun runtime hactive => absurd hactive (hnever runtime)
  · intro runtime hruntime
    obtain ⟨haction, hsessions⟩ := hfenced runtime hruntime
    exact ⟨haction, fun session hsession => ⟨hsessions session hsession,
      fun other hactive => absurd hactive (hnever other)⟩⟩
  · exact fun connection hmem hsame => absurd hsame (hidle connection hmem)

/-- A runtime that is done with is forgotten. -/
theorem Supervised.discard (h : Supervised cluster) {nodeId : NodeId} {worker : Worker}
    {runtime : Runtime} (hworker : cluster.workers nodeId = some worker)
    (hruntime : worker.active = some runtime) (hstopped : runtime.stopped = true) :
    Supervised (cluster.withWorker nodeId (some { worker with active := none })) := by
  refine h.withoutRuntime hworker rfl rfl ?_ ?_
  · intro fenced hfenced
    obtain ⟨haction, hsessions⟩ := h.fenced nodeId worker fenced hworker hfenced
    exact ⟨haction, fun session hsession => (hsessions session hsession).1⟩
  · refine h.unconnected hworker fun found hfound => ?_
    rw [hruntime] at hfound
    cases hfound
    exact hstopped

/-- Once the connection of its runtime is closed, a node has none. -/
theorem Supervised.close_unconnected (h : Supervised cluster) {nodeId : NodeId} {worker : Worker}
    {runtime : Runtime} (hworker : cluster.workers nodeId = some worker)
    (hruntime : worker.active = some runtime) :
    ∀ connection ∈ (cluster.close worker.process runtime.session).connections,
      connection.owner.nodeId ≠ nodeId := by
  intro connection hmem hnode
  obtain ⟨hopen, hkept⟩ := List.mem_filter.1 hmem
  obtain ⟨found, other, hfound, hprocess, hother, -, hsession, -, -⟩ := h.backed connection hopen
  rw [hnode, hworker] at hfound
  cases hfound
  rw [hruntime] at hother
  cases hother
  simp [hprocess, hsession] at hkept

theorem Supervised.stop (h : Supervised cluster) {nodeId : NodeId} {worker : Worker}
    {runtime : Runtime} (hworker : cluster.workers nodeId = some worker)
    (hruntime : worker.active = some runtime) {action : Finish}
    (hfinishing : runtime.finishing = some action) :
    Supervised (if action = .fence then
      (cluster.close worker.process runtime.session).withWorker nodeId
        (some { worker with active := none, selfFenced := some { runtime with stopped := true } })
      else (cluster.close worker.process runtime.session).withRuntime nodeId worker
        { runtime with stopped := true }) := by
  have hactive := h.active nodeId worker runtime hworker hruntime
  have hidle := h.close_unconnected hworker hruntime
  have hclosed : Supervised (cluster.close worker.process runtime.session) := h.filter _
  split
  · rename_i hfence
    refine hclosed.withoutRuntime hworker rfl rfl ?_ hidle
    intro fenced hfenced
    cases hfenced
    rw [hfence] at hfinishing
    exact ⟨hfinishing, hactive.2⟩
  · refine hclosed.withWorker hworker rfl ?_ ?_ ?_ ?_
    · intro found hfound
      cases hfound
      exact hactive
    · intro found hfound hlive
      cases hfound
      cases hlive
    · intro fenced hfenced
      obtain ⟨haction, hsessions⟩ := h.fenced nodeId worker fenced hworker hfenced
      refine ⟨haction, fun session hsession => ⟨(hsessions session hsession).1, ?_⟩⟩
      intro other hother _
      cases hother
      rfl
    · intro connection hmem hsame
      exact absurd hsame (hidle connection hmem)

/-- A new collector makes a session that nothing knows yet. -/
theorem Supervised.collect (h : Supervised cluster) {nodeId : NodeId} {worker : Worker}
    {runtime : Runtime} {session : SessionId} (hworker : cluster.workers nodeId = some worker)
    (hruntime : worker.active = some runtime) (hfresh : cluster.constructed session = none)
    (hidle : ∀ connection ∈ cluster.connections, connection.process ≠ worker.process) :
    Supervised { cluster.withRuntime nodeId worker (runtime.collect session) with
      constructed := Function.update cluster.constructed session (some worker.process) } := by
  -- what has been made before is another session
  have hother : ∀ other, cluster.constructed other ≠ none → other ≠ session := by
    intro other hmade heq
    rw [heq] at hmade
    exact hmade hfresh
  have hsame : ∀ other, cluster.constructed other ≠ none →
      Function.update cluster.constructed session (some worker.process) other =
        cluster.constructed other :=
    fun other hmade => Function.update_of_ne (hother other hmade) ..
  have hself : Function.update cluster.constructed session (some worker.process) session =
      some worker.process := Function.update_self ..
  have hactive := h.active nodeId worker runtime hworker hruntime
  have hnode : ∀ connection ∈ cluster.connections, connection.owner.nodeId ≠ nodeId := by
    intro connection hmem hnode
    obtain ⟨found, -, hfound, hprocess, -⟩ := h.backed connection hmem
    rw [hnode, hworker] at hfound
    cases hfound
    exact hidle connection hmem hprocess.symm
  have hmoved : ∀ other found,
      (cluster.withRuntime nodeId worker (runtime.collect session)).workers other = some found →
        (other = nodeId ∧ found = { worker with active := some (runtime.collect session) }) ∨
          cluster.workers other = some found := by
    intro other found hfound
    obtain ⟨hnodes, hnew⟩ | ⟨-, hbefore⟩ := Cluster.withWorker_workers hfound
    · exact .inl ⟨hnodes, (Option.some.inj hnew).symm⟩
    · exact .inr hbefore
  refine { h with
    process := ?_, distinct := ?_, constructed := ?_, active := ?_, fenced := ?_, backed := ?_,
    session := ?_, receipt := ?_, prepared := ?_ }
  · intro other found hfound
    obtain ⟨rfl, rfl⟩ | hbefore := hmoved other found hfound
    · exact h.process other worker hworker
    · exact h.process other found hbefore
  · intro one two found found' hfound hfound' heq
    obtain ⟨rfl, rfl⟩ | hbefore := hmoved one found hfound
    · obtain ⟨rfl, rfl⟩ | hbefore' := hmoved two found' hfound'
      · rfl
      · exact h.distinct one two worker found' hworker hbefore' heq
    · obtain ⟨rfl, rfl⟩ | hbefore' := hmoved two found' hfound'
      · exact h.distinct one two found worker hbefore hworker heq
      · exact h.distinct one two found found' hbefore hbefore' heq
  · intro other process hmade
    by_cases hsessions : other = session
    · subst hsessions
      cases hself.symm.trans hmade
      exact h.process nodeId worker hworker
    · exact h.constructed other process ((Function.update_of_ne hsessions ..).symm.trans hmade)
  · intro other found other' hfound hother'
    obtain ⟨rfl, rfl⟩ | hbefore := hmoved other found hfound
    · cases hother'
      refine ⟨hactive.1, fun made hmade => ?_⟩
      cases hmade
      exact hself
    · obtain ⟨howner, hsessions⟩ := h.active other found other' hbefore hother'
      refine ⟨howner, fun made hmade => ?_⟩
      have hby := hsessions made hmade
      exact (hsame made (by rw [hby]; exact Option.some_ne_none _)).trans hby
  · intro other found fenced hfound hfenced
    obtain ⟨rfl, rfl⟩ | hbefore := hmoved other found hfound
    · obtain ⟨haction, hsessions⟩ := h.fenced other worker fenced hworker hfenced
      refine ⟨haction, fun made hmade => ?_⟩
      have hby := (hsessions made hmade).1
      have hne : cluster.constructed made ≠ none := by
        rw [hby]
        exact Option.some_ne_none _
      refine ⟨(hsame made hne).trans hby, fun active hactive' hequal => ?_⟩
      cases hactive'
      exact absurd (Option.some.inj hequal).symm (hother made hne)
    · obtain ⟨haction, hsessions⟩ := h.fenced other found fenced hbefore hfenced
      refine ⟨haction, fun made hmade => ?_⟩
      obtain ⟨hby, hothers⟩ := hsessions made hmade
      exact ⟨(hsame made (by rw [hby]; exact Option.some_ne_none _)).trans hby, hothers⟩
  · intro connection hmem
    obtain ⟨found, other, hfound, hrest⟩ := h.backed connection hmem
    refine ⟨found, other, ?_, hrest⟩
    exact (Function.update_of_ne (hnode connection hmem) ..).trans hfound
  · intro other hother' hnone
    have hmade := h.session other hother'
    exact hmade ((hsame other hmade).symm.trans hnone)
  · intro receipt hreceipt
    obtain ⟨hmade, hstopped⟩ := h.receipt receipt hreceipt
    refine ⟨fun hnone => hmade ((hsame _ hmade).symm.trans hnone), ?_⟩
    intro other found other' hfound hother' hequal
    obtain ⟨rfl, rfl⟩ | hbefore := hmoved other found hfound
    · cases hother'
      exact absurd (Option.some.inj hequal).symm (hother _ hmade)
    · exact hstopped other found other' hbefore hother' hequal
  · intro frozen hmem
    obtain ⟨hmade, hfrozen⟩ := h.prepared frozen hmem
    refine ⟨fun hnone => hmade ((hsame _ hmade).symm.trans hnone), fun found hfound hby => ?_⟩
    have hby := (hsame _ hmade).symm.trans hby
    obtain ⟨hnodes, rfl⟩ | hbefore := hmoved frozen.1.nodeId found hfound
    · exact hfrozen worker (hnodes ▸ hworker) hby
    · exact hfrozen found hbefore hby


/-- The first process of a node, or the next. -/
theorem Supervised.boot (h : Supervised cluster) {nodeId : NodeId} {process : ProcessId}
    (hnone : cluster.workers nodeId = none) (hfresh : process ∉ cluster.processes) :
    Supervised { cluster.withWorker nodeId (some ⟨process, none, none, false⟩) with
      processes := process :: cluster.processes } := by
  have hmoved : ∀ other found,
      (cluster.withWorker nodeId (some ⟨process, none, none, false⟩)).workers other = some found →
        (other = nodeId ∧ found = ⟨process, none, none, false⟩) ∨
          cluster.workers other = some found := by
    intro other found hfound
    obtain ⟨hnodes, hnew⟩ | ⟨-, hbefore⟩ := Cluster.withWorker_workers hfound
    · exact .inl ⟨hnodes, (Option.some.inj hnew).symm⟩
    · exact .inr hbefore
  refine { h with
    process := ?_, distinct := ?_, constructed := ?_, active := ?_, fenced := ?_, backed := ?_,
    receipt := ?_, prepared := ?_ }
  · intro other found hfound
    obtain ⟨-, rfl⟩ | hbefore := hmoved other found hfound
    · exact List.mem_cons_self ..
    · exact List.mem_cons_of_mem _ (h.process other found hbefore)
  · intro one two found found' hfound hfound' heq
    obtain ⟨hone, rfl⟩ | hbefore := hmoved one found hfound
    · obtain ⟨htwo, rfl⟩ | hbefore' := hmoved two found' hfound'
      · exact hone.trans htwo.symm
      · have hold := h.process two found' hbefore'
        rw [← heq] at hold
        exact absurd hold hfresh
    · obtain ⟨-, rfl⟩ | hbefore' := hmoved two found' hfound'
      · have hold := h.process one found hbefore
        rw [heq] at hold
        exact absurd hold hfresh
      · exact h.distinct one two found found' hbefore hbefore' heq
  · intro session other hmade
    exact List.mem_cons_of_mem _ (h.constructed session other hmade)
  · intro other found runtime hfound hruntime
    obtain ⟨-, rfl⟩ | hbefore := hmoved other found hfound
    · cases hruntime
    · exact h.active other found runtime hbefore hruntime
  · intro other found fenced hfound hfenced
    obtain ⟨-, rfl⟩ | hbefore := hmoved other found hfound
    · cases hfenced
    · exact h.fenced other found fenced hbefore hfenced
  · intro connection hmem
    obtain ⟨found, runtime, hfound, hrest⟩ := h.backed connection hmem
    have hne : connection.owner.nodeId ≠ nodeId := by
      intro hsame
      rw [hsame, hnone] at hfound
      cases hfound
    exact ⟨found, runtime, (Function.update_of_ne hne ..).trans hfound, hrest⟩
  · intro receipt hreceipt
    obtain ⟨hmade, hstopped⟩ := h.receipt receipt hreceipt
    refine ⟨hmade, fun other found runtime hfound hruntime hsession => ?_⟩
    obtain ⟨-, rfl⟩ | hbefore := hmoved other found hfound
    · cases hruntime
    · exact hstopped other found runtime hbefore hruntime hsession
  · intro frozen hmem
    obtain ⟨hmade, hfrozen⟩ := h.prepared frozen hmem
    refine ⟨hmade, fun found hfound hby => ?_⟩
    obtain ⟨-, rfl⟩ | hbefore := hmoved frozen.1.nodeId found hfound
    -- what was frozen was made by a process there had been
    · exact absurd (h.constructed _ _ hby) hfresh
    · exact hfrozen found hbefore hby

/-- A process ends, and its connections with it. -/
theorem Supervised.exit (h : Supervised cluster) {nodeId : NodeId} {worker : Worker}
    (hworker : cluster.workers nodeId = some worker) :
    Supervised { cluster.withWorker nodeId none with
      connections := cluster.connections.filter (·.process ≠ worker.process) } := by
  have hmoved : ∀ other found, (cluster.withWorker nodeId none).workers other = some found →
      other ≠ nodeId ∧ cluster.workers other = some found := by
    intro other found hfound
    obtain ⟨-, hnew⟩ | hbefore := Cluster.withWorker_workers hfound
    · cases hnew
    · exact hbefore
  have hfilter := h.filter (fun connection => decide (connection.process ≠ worker.process))
  refine { hfilter with
    process := ?_, distinct := ?_, active := ?_, fenced := ?_, backed := ?_, receipt := ?_,
    prepared := ?_ }
  · intro other found hfound
    exact h.process other found (hmoved other found hfound).2
  · intro one two found found' hfound hfound' heq
    exact h.distinct one two found found' (hmoved one found hfound).2 (hmoved two found' hfound').2 heq
  · intro other found runtime hfound hruntime
    exact h.active other found runtime (hmoved other found hfound).2 hruntime
  · intro other found fenced hfound hfenced
    exact h.fenced other found fenced (hmoved other found hfound).2 hfenced
  · intro connection hmem
    obtain ⟨hopen, hkept⟩ := List.mem_filter.1 hmem
    obtain ⟨found, runtime, hfound, hprocess, hrest⟩ := h.backed connection hopen
    have hne : connection.owner.nodeId ≠ nodeId := by
      intro hsame
      rw [hsame, hworker] at hfound
      cases hfound
      simp [hprocess] at hkept
    exact ⟨found, runtime, (Function.update_of_ne hne ..).trans hfound, hprocess, hrest⟩
  · intro receipt hreceipt
    obtain ⟨hmade, hstopped⟩ := h.receipt receipt hreceipt
    refine ⟨hmade, fun other found runtime hfound hruntime hsession => ?_⟩
    exact hstopped other found runtime (hmoved other found hfound).2 hruntime hsession
  · intro frozen hmem
    obtain ⟨hmade, hfrozen⟩ := h.prepared frozen hmem
    exact ⟨hmade, fun found hfound hby => hfrozen found (hmoved _ found hfound).2 hby⟩

/-! ## The connections -/

theorem OwnerWrite.step {write : OwnerWrite} {owner : Owner} {records records' : Records}
    (h : write.apply owner records = some records') : Step records records' :=
  ⟨.write write owner, h⟩

/-- The write of a collector's state: the task carries its session from then on. -/
theorem runtimeState_task {records records' : Records} {owner : Owner} {state : RuntimeState}
    {session : SessionId}
    (h : (OwnerWrite.runtimeState state (some session)).apply owner records = some records') :
    ownerFilter owner records.task ∧ records'.task.closedReceipt = records.task.closedReceipt ∧
      records'.task.sessionId = some session ∧
      ((∀ receipt ∈ records.task.closedReceipt, receipt.sessionId ≠ session) →
        Carries owner session records'.task) := by
  obtain ⟨⟨hfilter, -⟩, rfl⟩ := updateOne_eq_some.1 h
  refine ⟨hfilter, rfl, rfl, fun hreceipt => ⟨hfilter, rfl, ?_, hreceipt⟩⟩
  cases state <;> simp [RuntimeState.status]

/-- The receipts there are do not speak of a session whose runtime goes on. -/
theorem Supervised.receipt_ne (h : Supervised cluster) {nodeId : NodeId} {worker : Worker}
    {runtime : Runtime} {session : SessionId} (hworker : cluster.workers nodeId = some worker)
    (hruntime : worker.active = some runtime) (hsession : runtime.session = some session)
    (hstopped : runtime.stopped = false) :
    ∀ receipt ∈ cluster.records.task.closedReceipt, receipt.sessionId ≠ session := by
  intro receipt hreceipt hsame
  have hsealed := (h.receipt receipt hreceipt).2 nodeId worker runtime hworker hruntime
    (hsame ▸ hsession)
  rw [hstopped] at hsealed
  cases hsealed

theorem Supervised.report (h : Supervised cluster) {nodeId : NodeId} {worker : Worker}
    {runtime : Runtime} {session : SessionId} {state : RuntimeState} {records : Records}
    (hworker : cluster.workers nodeId = some worker) (hruntime : worker.active = some runtime)
    (hsession : runtime.session = some session) (hstopped : runtime.stopped = false)
    (hwrite : (OwnerWrite.runtimeState state (some session)).apply runtime.owner cluster.records =
      some records) : Supervised (cluster.withRecords records) := by
  obtain ⟨hfilter, hreceipt, hannounced, hcarries⟩ := runtimeState_task hwrite
  have hcarried := hcarries (h.receipt_ne hworker hruntime hsession hstopped)
  refine h.withRecords (OwnerWrite.step hwrite) ?_ ?_ ?_
  · intro connection hmem
    obtain ⟨hsame, -, -, howner, -⟩ := h.backed_by hworker hruntime hfilter connection hmem
    rw [hsession] at hsame
    rw [howner, ← Option.some.inj hsame]
    exact hcarried
  · intro other hother
    rw [hannounced] at hother
    rw [← Option.some.inj hother,
      (h.active nodeId worker runtime hworker hruntime).2 session hsession]
    exact Option.some_ne_none _
  · rw [hreceipt]
    exact h.receipt

/-- The one way a connection comes to be. -/
theorem Supervised.connect (h : Supervised cluster) {nodeId : NodeId} {worker : Worker}
    {runtime : Runtime} {session : SessionId} {records : Records}
    (hworker : cluster.workers nodeId = some worker) (hruntime : worker.active = some runtime)
    (hsession : runtime.session = some session) (hstarted : runtime.started = false)
    (hstopped : runtime.stopped = false)
    (hwrite : (OwnerWrite.runtimeState .connecting (some session)).apply runtime.owner
      cluster.records = some records) :
    Supervised { (cluster.withRuntime nodeId worker { runtime with started := true }).withRecords
        records with
      connections := ⟨worker.process, runtime.owner, session⟩ :: cluster.connections } := by
  obtain ⟨hfilter, -, -, hcarries⟩ := runtimeState_task hwrite
  have hcarried := hcarries (h.receipt_ne hworker hruntime hsession hstopped)
  have hactive := h.active nodeId worker runtime hworker hruntime
  -- a connection there was would be of this runtime, which has not announced any
  have hnone : cluster.connections = [] := by
    refine List.eq_nil_iff_forall_not_mem.2 fun connection hmem => ?_
    obtain ⟨-, hbegun, -⟩ := h.backed_by hworker hruntime hfilter connection hmem
    rw [hstarted] at hbegun
    cases hbegun
  have hrecords := h.report hworker hruntime hsession hstopped hwrite
  have hstart : Supervised ((cluster.withRecords records).withWorker nodeId
      (some { worker with active := some { runtime with started := true } })) := by
    refine hrecords.withWorker hworker rfl ?_ ?_ ?_ ?_
    · intro found hfound
      cases hfound
      exact hactive
    · intro found hfound hlive other hother
      cases hfound
      exact ⟨runtime, hruntime, hother, hlive⟩
    · intro fenced hfenced
      obtain ⟨haction, hsessions⟩ := h.fenced nodeId worker fenced hworker hfenced
      refine ⟨haction, fun other hother => ?_⟩
      obtain ⟨hby, hothers⟩ := hsessions other hother
      refine ⟨hby, fun found hfound hsame => ?_⟩
      cases hfound
      exact hothers runtime hruntime hsame
    · intro connection hmem
      have hmem : connection ∈ cluster.connections := hmem
      rw [hnone] at hmem
      cases hmem
  have hself : ∀ connection ∈ (⟨worker.process, runtime.owner, session⟩ :: cluster.connections :
      List Connection), connection = ⟨worker.process, runtime.owner, session⟩ := by
    intro connection hmem
    rw [hnone] at hmem
    exact List.mem_singleton.1 hmem
  refine { hstart with backed := ?_, carried := ?_, single := ?_ }
  · intro connection hmem
    rw [hself connection hmem]
    refine ⟨{ worker with active := some { runtime with started := true } },
      { runtime with started := true }, ?_, rfl, rfl, rfl, hsession, rfl, hstopped⟩
    rw [hactive.1]
    exact Function.update_self ..
  · intro connection hmem
    rw [hself connection hmem]
    exact hcarried
  · simp [hnone]

/-! ## The writes that give a run up -/

/-- The receipt of a runtime that is stopped: its session is over. -/
theorem Supervised.seal (h : Supervised cluster) {nodeId : NodeId} {worker : Worker}
    {session : SessionId} (hworker : cluster.workers nodeId = some worker)
    (hby : cluster.constructed session = some worker.process)
    (hothers : ∀ runtime, worker.active = some runtime → runtime.session = some session →
      runtime.stopped = true) : cluster.Sealed session := by
  refine ⟨by rw [hby]; exact Option.some_ne_none _, fun other found runtime hfound hruntime hsession => ?_⟩
  have hmade := (h.active other found runtime hfound hruntime).2 session hsession
  rw [hby] at hmade
  have hsame := h.distinct nodeId other worker found hworker hfound (Option.some.inj hmade)
  subst hsame
  rw [hworker] at hfound
  cases hfound
  exact hothers runtime hruntime hsession

theorem Supervised.closedReceipt (h : Supervised cluster) {owner : Owner} {session : SessionId}
    {fenced : Bool} {records : Records} (hsealed : cluster.Sealed session)
    (hwrite : (OwnerWrite.closedReceipt session fenced).apply owner cluster.records =
      some records) : Supervised (cluster.withRecords records) := by
  have hstep := OwnerWrite.step hwrite
  obtain ⟨-, rfl⟩ := updateOne_eq_some.1 hwrite
  refine h.withRecords hstep ?_ h.session ?_
  · intro connection hmem
    have hcarried := h.carried connection hmem
    refine ⟨hcarried.filter, hcarried.sessionId, hcarried.status, fun receipt hreceipt hsame => ?_⟩
    cases hreceipt
    -- what is sealed no runtime has open
    obtain ⟨worker, runtime, hworker, -, hruntime, -, hsession, -, hstopped⟩ :=
      h.backed connection hmem
    have hover := hsealed.2 _ worker runtime hworker hruntime (hsession.trans (congrArg some hsame.symm))
    rw [hstopped] at hover
    cases hover
  · intro receipt hreceipt
    cases hreceipt
    exact hsealed

/-- A worker that has stopped the runtime of an owner has left no connection of its. -/
theorem Supervised.no_connections (h : Supervised cluster) {nodeId : NodeId} {worker : Worker}
    {runtime : Runtime} (hworker : cluster.workers nodeId = some worker)
    (hruntime : worker.active = some runtime) (hstopped : runtime.stopped = true)
    (hfilter : ownerFilter runtime.owner cluster.records.task) : cluster.connections = [] := by
  refine List.eq_nil_iff_forall_not_mem.2 fun connection hmem => ?_
  obtain ⟨-, -, hlive, -⟩ := h.backed_by hworker hruntime hfilter connection hmem
  rw [hstopped] at hlive
  cases hlive

/-- Where nothing is connected, a write need only leave the session and the receipt alone. -/
theorem Supervised.idle (h : Supervised cluster) {records : Records}
    (hstep : Step cluster.records records) (hnone : cluster.connections = [])
    (hsession : records.task.sessionId = cluster.records.task.sessionId)
    (hreceipt : records.task.closedReceipt = cluster.records.task.closedReceipt ∨
      records.task.closedReceipt = none) : Supervised (cluster.withRecords records) := by
  refine h.withRecords hstep ?_ ?_ ?_
  · intro connection hmem
    rw [hnone] at hmem
    cases hmem
  · rw [hsession]
    exact h.session
  · obtain hsame | hgone := hreceipt
    · rw [hsame]
      exact h.receipt
    · intro receipt hmem
      rw [hgone] at hmem
      cases hmem

/-- The writes of a runtime that is stopped. -/
theorem Supervised.write (h : Supervised cluster) {nodeId : NodeId} {worker : Worker}
    {runtime : Runtime} {write : OwnerWrite} {records : Records}
    (hworker : cluster.workers nodeId = some worker) (hpermits : runtime.permits write)
    (hruntime : worker.active = some runtime ∨ worker.selfFenced = some runtime)
    (hwrite : write.apply runtime.owner cluster.records = some records) :
    Supervised (cluster.withRecords records) := by
  obtain ⟨hstopped, hallowed⟩ := hpermits
  have hstep := OwnerWrite.step hwrite
  -- what takes the task from its node is left to the runtime that the node still has
  have hactive : runtime.finishing ≠ some .fence → worker.active = some runtime := by
    intro hfinishing
    obtain hactive | hfenced := hruntime
    · exact hactive
    · exact absurd (h.fenced nodeId worker runtime hworker hfenced).1 hfinishing
  cases write with
  | closedReceipt session fenced =>
    refine h.closedReceipt ?_ hwrite
    obtain hactive | hfenced := hruntime
    · refine h.seal hworker ((h.active nodeId worker runtime hworker hactive).2 session hallowed.1) ?_
      intro other hother _
      rw [hactive] at hother
      cases hother
      exact hstopped
    · obtain ⟨hby, hothers⟩ := (h.fenced nodeId worker runtime hworker hfenced).2 session hallowed.1
      exact h.seal hworker hby hothers
  | pause =>
    obtain ⟨⟨hfilter, -⟩, rfl⟩ := updateOne_eq_some.1 hwrite
    have hpause : runtime.finishing = some .pause := hallowed
    have hnone := h.no_connections hworker (hactive (by rw [hpause]; decide)) hstopped hfilter
    exact h.idle hstep hnone rfl (.inl rfl)
  | detach failed =>
    obtain ⟨hfilter, rfl⟩ := updateOne_eq_some.1 hwrite
    have hfinishing : runtime.finishing ≠ some .fence := by
      obtain hpause | hrelease := hallowed
      · rw [hpause]
        decide
      · rw [hrelease]
        decide
    have hnone := h.no_connections hworker (hactive hfinishing) hstopped hfilter
    cases failed <;> exact h.idle hstep hnone rfl (.inl rfl)
  | closing failed =>
    obtain ⟨-, rfl⟩ := updateOne_eq_some.1 hwrite
    cases failed <;> exact h.spare hstep (.of_same rfl rfl rfl rfl rfl (.inr (by simp)))
  | fence =>
    obtain ⟨-, rfl⟩ := updateOne_eq_some.1 hwrite
    exact h.spare hstep (.of_same rfl rfl rfl rfl rfl (.inr (by simp)))
  | restart =>
    obtain ⟨-, rfl⟩ := updateOne_eq_some.1 hwrite
    exact h.spare hstep (.of_same rfl rfl rfl rfl rfl (.inl rfl))
  | runtimeState | pausing | block | pausePending | stopPending | restartPending | prepare =>
    exact hallowed.elim

/-- A deployment freezes the owner of a task, and with it the process its node has. -/
theorem Supervised.prepare (h : Supervised cluster) {marker : DeploymentMarker}
    {records : Records}
    (hwrite : (OwnerWrite.prepare marker).apply ⟨marker.runId, marker.nodeId, marker.generation⟩
      cluster.records = some records) :
    Supervised { cluster.withRecords records with
      prepared := (marker, (cluster.workers marker.nodeId).map Worker.process) ::
        cluster.prepared } := by
  have hstep := OwnerWrite.step hwrite
  simp only [OwnerWrite.apply] at hwrite
  split at hwrite
  · cases hwrite
  obtain ⟨⟨-, hsession, -⟩, rfl⟩ := updateOne_eq_some.1 hwrite
  have hspared := h.spare hstep (.of_same rfl rfl rfl rfl rfl (.inl rfl))
  refine { hspared with prepared := ?_ }
  intro frozen hmem
  obtain rfl | hold := List.mem_cons.1 hmem
  · refine ⟨h.session _ hsession, fun worker hworker _ => ?_⟩
    have hworker : cluster.workers marker.nodeId = some worker := hworker
    rw [hworker]
    rfl
  · exact h.prepared frozen hold

/-- A deployment completes what it has frozen only once the old process has stopped. -/
theorem Supervised.complete (h : Supervised cluster) {marker : DeploymentMarker}
    {records : Records} (hstopped : cluster.stoppedSince marker)
    (hcomplete : completeRun cluster.records marker = some records) :
    Supervised (cluster.withRecords records) := by
  have hstep : Step cluster.records records := ⟨.complete marker, hcomplete⟩
  obtain ⟨run, -, -, ⟨-, rfl⟩ | ⟨hattached, rfl⟩⟩ := completeRun_eq_some hcomplete
  · exact h.spare hstep .refl
  have hnone : cluster.connections = [] := by
    refine List.eq_nil_iff_forall_not_mem.2 fun connection hmem => ?_
    have hcarried := h.carried connection hmem
    have howner := hcarried.owner_eq hattached.1.1
    have hsession := hattached.1.2
    rw [hcarried.sessionId] at hsession
    -- the session frozen is the one that is open, so its process is the one frozen with it
    obtain ⟨frozen, hfrozen, rfl, hgone⟩ := hstopped
    obtain ⟨worker, runtime, hworker, -, hruntime, -, hopen, -⟩ := h.backed connection hmem
    have hmade := (h.active _ worker runtime hworker hruntime).2 _ hopen
    rw [Option.some.inj hsession] at hmade
    rw [← howner] at hworker
    have hprocess := (h.prepared frozen hfrozen).2 worker hworker hmade
    refine hgone worker.process hprocess ?_
    unfold Cluster.runs
    have hworker : cluster.workers frozen.1.nodeId = some worker := hworker
    rw [hworker]
    rfl
  refine h.idle hstep hnone ?_ ?_
  · simp only [Task.deployed, Records.withTask_task]
    split <;> rfl
  · simp only [Task.deployed, Records.withTask_task]
    split
    · exact .inr rfl
    · exact .inl rfl

/-! ## Every event, every reachable cluster -/

theorem Event.apply_supervised {event : Event} (h : event.apply cluster = some cluster')
    (hsupervised : Supervised cluster) : Supervised cluster' := by
  cases event with
  | act taskAct =>
    simp only [Event.apply, Option.bind_eq_bind, Option.bind_eq_some_iff, Option.some.injEq] at h
    obtain ⟨_, hunaided, records, hact, rfl⟩ := h
    refine hsupervised.spare ⟨taskAct, hact⟩ ?_
    exact Act.apply_spares hact (of_guard hunaided) (reachable_rests hsupervised.reachable)
  | prepare marker =>
    simp only [Event.apply, Option.bind_eq_bind, Option.bind_eq_some_iff, Option.some.injEq] at h
    obtain ⟨records, hwrite, rfl⟩ := h
    exact hsupervised.prepare hwrite
  | complete marker =>
    simp only [Event.apply, Option.bind_eq_bind, Option.bind_eq_some_iff, Option.some.injEq] at h
    obtain ⟨_, hstopped, records, hcomplete, rfl⟩ := h
    exact hsupervised.complete (of_guard hstopped) hcomplete
  | boot nodeId process =>
    simp only [Event.apply, Option.bind_eq_bind, Option.bind_eq_some_iff, Option.some.injEq] at h
    obtain ⟨_, hguard, rfl⟩ := h
    exact hsupervised.boot (of_guard hguard).1 (of_guard hguard).2
  | exit nodeId =>
    simp only [Event.apply, Option.bind_eq_bind, Option.bind_eq_some_iff, Option.some.injEq] at h
    obtain ⟨worker, hworker, rfl⟩ := h
    exact hsupervised.exit hworker
  | shutdown nodeId =>
    simp only [Event.apply, Option.bind_eq_bind, Option.bind_eq_some_iff, Option.some.injEq] at h
    obtain ⟨worker, hworker, rfl⟩ := h
    exact hsupervised.shutdown hworker
  | superviseRuntime nodeId current isolated =>
    simp only [Event.apply, Option.bind_eq_bind, Option.bind_eq_some_iff] at h
    obtain ⟨worker, hworker, runtime, hruntime, _, -, action, -, hbegin⟩ := h
    exact hsupervised.begin hworker hruntime hbegin
  | superviseTask nodeId task diskFull ended room =>
    simp only [Event.apply, Option.bind_eq_bind, Option.bind_eq_some_iff] at h
    obtain ⟨worker, hworker, _, hguard, h⟩ := h
    split at h
    · rename_i runtime _ hruntime
      exact hsupervised.begin hworker hruntime h
    · rename_i _ hnone
      simp only [Option.bind_eq_some_iff, Option.some.injEq] at h
      obtain ⟨owner, howner, rfl⟩ := h
      exact hsupervised.start hworker hnone (owner?_nodeId howner (of_guard hguard).2)
    · cases h
  | shutdownRuntime nodeId current allowRelease =>
    simp only [Event.apply, Option.bind_eq_bind, Option.bind_eq_some_iff] at h
    obtain ⟨worker, hworker, runtime, hruntime, _, -, hbegin⟩ := h
    exact hsupervised.begin hworker hruntime hbegin
  | closeForFailover nodeId owner =>
    simp only [Event.apply, Option.bind_eq_bind, Option.bind_eq_some_iff] at h
    obtain ⟨worker, hworker, runtime, hruntime, _, -, hbegin⟩ := h
    exact hsupervised.begin hworker hruntime hbegin
  | selfFence nodeId =>
    simp only [Event.apply, Option.bind_eq_bind, Option.bind_eq_some_iff] at h
    obtain ⟨worker, hworker, runtime, hruntime, hbegin⟩ := h
    exact hsupervised.begin hworker hruntime hbegin
  | collect nodeId session =>
    simp only [Event.apply, Option.bind_eq_bind, Option.bind_eq_some_iff, Option.some.injEq] at h
    obtain ⟨worker, hworker, runtime, hruntime, _, hguard, rfl⟩ := h
    exact hsupervised.collect hworker hruntime (of_guard hguard).2.1 (of_guard hguard).2.2
  | connect nodeId =>
    simp only [Event.apply, Option.bind_eq_bind, Option.bind_eq_some_iff, Option.some.injEq] at h
    obtain ⟨worker, hworker, runtime, hruntime, session, hsession, _, hguard, records, hwrite,
      rfl⟩ := h
    obtain ⟨hstarted, hstopped, -⟩ := of_guard hguard
    exact hsupervised.connect hworker hruntime hsession hstarted hstopped hwrite
  | report nodeId state =>
    simp only [Event.apply, Option.bind_eq_bind, Option.bind_eq_some_iff, Option.some.injEq] at h
    obtain ⟨worker, hworker, runtime, hruntime, session, hsession, _, hguard, records, hwrite,
      rfl⟩ := h
    exact hsupervised.report hworker hruntime hsession (of_guard hguard).2.1 hwrite
  | disconnect nodeId =>
    simp only [Event.apply, Option.bind_eq_bind, Option.bind_eq_some_iff, Option.some.injEq] at h
    obtain ⟨worker, -, runtime, -, rfl⟩ := h
    exact hsupervised.filter _
  | stop nodeId =>
    simp only [Event.apply, Option.bind_eq_bind, Option.bind_eq_some_iff, Option.some.injEq] at h
    obtain ⟨worker, hworker, runtime, hruntime, action, hfinishing, rfl⟩ := h
    exact hsupervised.stop hworker hruntime hfinishing
  | fail nodeId blocked =>
    simp only [Event.apply, Option.bind_eq_bind, Option.bind_eq_some_iff, Option.some.injEq] at h
    obtain ⟨worker, hworker, runtime, hruntime, action, -, rfl⟩ := h
    exact hsupervised.withRuntime hworker hruntime rfl rfl rfl rfl
  | write nodeId fenced update =>
    simp only [Event.apply, Option.bind_eq_bind, Option.bind_eq_some_iff, Option.some.injEq] at h
    obtain ⟨worker, hworker, runtime, hruntime, _, hpermits, records, hwrite, rfl⟩ := h
    refine hsupervised.write hworker (of_guard hpermits) ?_ hwrite
    unfold Worker.runtime at hruntime
    split at hruntime
    · exact .inr hruntime
    · exact .inl hruntime
  | discard nodeId =>
    simp only [Event.apply, Option.bind_eq_bind, Option.bind_eq_some_iff, Option.some.injEq] at h
    obtain ⟨worker, hworker, runtime, hruntime, _, hguard, rfl⟩ := h
    exact hsupervised.discard hworker hruntime (of_guard hguard).1

theorem reachable_supervised (h : Reachable ClusterInitial ClusterStep cluster) :
    Supervised cluster := by
  refine h.invariant (fun _ => ClusterInitial.supervised) ?_
  intro cluster cluster' hstep hsupervised
  obtain ⟨event, hevent⟩ := hstep
  exact Event.apply_supervised hevent hsupervised

/-- Whatever the workers, the users, the scheduler and the deployments do, and wherever a
process breaks off: a task that can be claimed has no connection open, one connection at most
is ever open, and it is of the runtime of the owner that the task has. -/
theorem one_connection (h : Reachable ClusterInitial ClusterStep cluster) :
    (cluster.records.task.Claimable → cluster.connections = []) ∧
      cluster.connections.length ≤ 1 ∧
      ∀ connection ∈ cluster.connections, ownerFilter connection.owner cluster.records.task := by
  have hsupervised := reachable_supervised h
  refine ⟨fun hclaimable => ?_, hsupervised.single, fun connection hmem => ?_⟩
  · refine List.eq_nil_iff_forall_not_mem.2 fun connection hmem => ?_
    exact (hsupervised.carried connection hmem).nodeId_ne hclaimable.1
  · exact (hsupervised.carried connection hmem).filter

/-! A task is claimed and connected, stopped by its user, and started again. -/

def newCluster : Cluster where
  records := newRecords
  workers := fun _ => none
  connections := []
  prepared := []
  processes := []
  constructed := fun _ => none

theorem newCluster_initial : ClusterInitial newCluster where
  records := newRecords_initial
  sessionId := rfl
  closedReceipt := rfl
  workers := fun _ => rfl
  connections := rfl
  prepared := rfl
  constructed := fun _ => rfl

/-- What the node has read of the task once it was claimed. -/
def claimedTask (desired : DesiredState) : Task :=
  { newTask with desiredState := desired, status := .pending, nodeId := some 1, runId := some 7 }

def connectedOnce : List Event :=
  [.boot 1 100, .act (claimNew 7 1),
    .superviseTask 1 { claimedTask .running with generation := 1 } false false true,
    .collect 1 5, .connect 1, .report 1 .collecting]

def startedAgain : List Event :=
  [.act (.control .stop 1 onlineDevice),
    .superviseTask 1 { claimedTask .stopped with status := .collecting } false false true,
    .stop 1, .write 1 false (.closedReceipt 5 false), .write 1 false (.closing false),
    .act (.dropReleasedLock 7), .act (.endReleasedRun 7), .write 1 false (.detach false),
    .discard 1, .act (.control .start 2 onlineDevice)]

theorem one_connection_started_again :
    ∃ connected free, Lib.runActs Event.apply connectedOnce newCluster = some connected ∧
      connected.connections = [⟨100, ⟨7, 1, 1⟩, 5⟩] ∧
      Lib.runActs Event.apply startedAgain connected = some free ∧
      free.records.task.Claimable ∧ free.connections = [] := by
  have hconnected : ∃ connected, Lib.runActs Event.apply connectedOnce newCluster = some connected ∧
      connected.connections = [⟨100, ⟨7, 1, 1⟩, 5⟩] ∧
      ∃ free, Lib.runActs Event.apply startedAgain connected = some free ∧
        free.records.task.Claimable :=
    ⟨_, rfl, rfl, _, rfl, rfl, rfl, rfl, rfl, .inl rfl⟩
  obtain ⟨connected, hrun, hopen, free, hrest, hclaimable⟩ := hconnected
  have hreach : Reachable ClusterInitial ClusterStep free :=
    ⟨newCluster, newCluster_initial, (runActs_steps hrun).trans (runActs_steps hrest)⟩
  exact ⟨connected, free, hrun, hopen, hrest, hclaimable, (one_connection hreach).1 hclaimable⟩

end CameraLogs.Tasks
