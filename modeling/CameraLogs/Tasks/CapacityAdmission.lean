import CameraLogs.Tasks.Scheduling

/-!
# Capacities are kept

The cycle that has the lease has counted, for each node, at least the tasks it has: nobody
else gives tasks to nodes while it has the lease, and what others do takes tasks away. A
transaction that commits finds the lease as it has read it, so its cycle has the lease still.
-/

namespace CameraLogs.Tasks

open Lib
open Versioned (Seen)

variable {state state' : Scheduling} {ids : List TaskId} {tasks : Database}
  {counted : List NodeId} {taskId : TaskId} {records : Records}

/-- The count is at least what the tasks have. -/
structure Covers (ids : List TaskId) (tasks : Database) (counted : List NodeId) : Prop where
  node : ∀ nodeId, census ids tasks (Records.AssignedTo nodeId) ≤ counted.count nodeId
  all : census ids tasks Records.Assigned ≤ counted.length

/-- A task that keeps its node or loses it. -/
theorem Covers.unassign (h : Covers ids tasks counted)
    (hless : Unassigns (tasks taskId).task records.task) :
    Covers ids (Function.update tasks taskId records) counted where
  node := by
    intro nodeId
    refine (census_update_le fun hvalue => ?_).trans (h.node nodeId)
    obtain hsame | hnone := hless
    · exact hsame.symm.trans hvalue
    · cases hnone.symm.trans hvalue
  all := by
    refine (census_update_le fun hvalue => ?_).trans h.all
    obtain hsame | hnone := hless
    · exact fun hbefore => hvalue (hsame.trans hbefore)
    · exact absurd hnone hvalue

/-- A task that is given to a node, and counted. -/
theorem Covers.assign (h : Covers ids tasks counted) (hids : ids.Nodup) {nodeId : NodeId}
    (hnode : records.task.nodeId = some nodeId) :
    Covers ids (Function.update tasks taskId records) (nodeId :: counted) where
  node := by
    intro other
    have hbefore := h.node other
    by_cases hsame : other = nodeId
    · subst hsame
      have hone : census ids (Function.update tasks taskId records) (Records.AssignedTo other) ≤
          census ids tasks (Records.AssignedTo other) + 1 := census_update_le_succ hids
      rw [List.count_cons_self]
      omega
    · have hle : census ids (Function.update tasks taskId records) (Records.AssignedTo other) ≤
          census ids tasks (Records.AssignedTo other) := census_update_le fun hvalue =>
        absurd (Option.some.inj (hvalue.symm.trans hnode)) hsame
      rw [List.count_cons_of_ne (Ne.symm hsame)]
      omega
  all := by
    have hbefore := h.all
    have hone : census ids (Function.update tasks taskId records) Records.Assigned ≤
        census ids tasks Records.Assigned + 1 := census_update_le_succ hids
    rw [List.length_cons]
    omega

/-- A new task has no node. -/
theorem Covers.create (h : Covers ids tasks counted) (hnone : records.task.nodeId = none) :
    Covers (taskId :: ids) (Function.update tasks taskId records) counted := by
  have hless : Unassigns (tasks taskId).task records.task := .inr hnone
  have hcovers := h.unassign hless
  refine ⟨fun nodeId => ?_, ?_⟩
  · rw [census_cons_of_not (by simp [Records.AssignedTo, hnone])]
    exact hcovers.node nodeId
  · rw [census_cons_of_not (by simp [Records.Assigned, hnone])]
    exact hcovers.all

/-- One more task is visited. -/
theorem Covers.visit {pending : List TaskId} (hids : ids.Nodup)
    (h : Covers (visited ids (taskId :: pending)) tasks counted) :
    Covers (visited ids pending) tasks ((tasks taskId).task.nodeId.toList ++ counted) where
  node := by
    intro nodeId
    have hvisit : census (visited ids pending) tasks (Records.AssignedTo nodeId) ≤
        census (visited ids (taskId :: pending)) tasks (Records.AssignedTo nodeId) +
          if (tasks taskId).AssignedTo nodeId then 1 else 0 := census_visit hids
    have hbefore := h.node nodeId
    rw [List.count_append]
    split at hvisit
    · rename_i hassigned
      have hnode : (tasks taskId).task.nodeId = some nodeId := hassigned
      rw [hnode]
      simp only [Option.toList_some, List.count_singleton_self]
      omega
    · omega
  all := by
    have hvisit : census (visited ids pending) tasks Records.Assigned ≤
        census (visited ids (taskId :: pending)) tasks Records.Assigned +
          if (tasks taskId).Assigned then 1 else 0 := census_visit hids
    have hbefore := h.all
    rw [List.length_append]
    split at hvisit
    · rename_i hassigned
      obtain ⟨nodeId, hnode⟩ := Option.ne_none_iff_exists'.1 hassigned
      rw [hnode]
      simp only [Option.toList_some, List.length_singleton]
      omega
    · omega

/-! ## The invariant -/

/-- The count of a cycle covers what there is. -/
def Phase.Counted (phase : Phase) (ids : List TaskId) (tasks : Database) : Prop :=
  match phase with
  | .finished | .leading => True
  | .counting pending counted => Covers (visited ids pending) tasks counted
  | .planning plan | .claiming plan _ | .opened plan _ _ | .orphaned plan _ _ =>
    Covers ids tasks plan.counted
  | .committed plan call claimed =>
    Covers ids tasks (if claimed = true then plan.assign call.nodeId else plan).counted

/-- A cycle goes on only below the capacity of the cluster, a transaction only below that of
its node. -/
def Phase.Bounded : Phase → Prop
  | .planning plan => plan.active < plan.clusterCapacity
  | .claiming plan call | .committed plan call _ =>
    plan.active < plan.clusterCapacity ∧ call.occupied = plan.occupancy call.nodeId
  | .opened plan call transaction | .orphaned plan call transaction =>
    plan.active < plan.clusterCapacity ∧ call.occupied = plan.occupancy call.nodeId ∧
      call.occupied < transaction.capacity
  | _ => True

/-- What a transaction has read of the lease and of its node. -/
def Phase.Read (phase : Phase) (fence : Fence) (state : Scheduling) : Prop :=
  match phase with
  | .opened _ call transaction | .orphaned _ call transaction =>
    transaction.leader.value.fence = fence ∧ Seen transaction.leader state.leader ∧
      ∀ seen ∈ transaction.config, ∃ config ∈ state.configs call.nodeId, Seen seen config
  | _ => True

structure Admits (state : Scheduling) : Prop where
  nodup : state.ids.Nodup
  counted : (state.phase state.leader.value.fence).Counted state.ids state.tasks
  bounded : ∀ fence, (state.phase fence).Bounded
  read : ∀ fence, (state.phase fence).Read fence state

theorem SchedulingInitial.admits (h : SchedulingInitial state) : Admits state where
  nodup := h.1
  counted := by rw [h.2]; trivial
  bounded := fun fence => by rw [h.2]; trivial
  read := fun fence => by rw [h.2]; trivial

/-- Documents that only go on keep what has been read of them. -/
theorem Phase.Read.mono {phase : Phase} {fence : Fence} (h : phase.Read fence state)
    (hleader : ∀ seen, Seen seen state.leader → Seen seen state'.leader)
    (hconfigs : ∀ nodeId, ∀ config ∈ state.configs nodeId, ∃ config' ∈ state'.configs nodeId,
      ∀ seen, Seen seen config → Seen seen config') : phase.Read fence state' := by
  have hread : ∀ (call : ClaimCall) (transaction : ClaimTransaction),
      (transaction.leader.value.fence = fence ∧ Seen transaction.leader state.leader ∧
        ∀ seen ∈ transaction.config, ∃ config ∈ state.configs call.nodeId, Seen seen config) →
      transaction.leader.value.fence = fence ∧ Seen transaction.leader state'.leader ∧
        ∀ seen ∈ transaction.config, ∃ config ∈ state'.configs call.nodeId, Seen seen config := by
    intro call transaction ⟨hfence, hseen, hconfig⟩
    refine ⟨hfence, hleader _ hseen, fun seen hmem => ?_⟩
    obtain ⟨config, hthere, hseen⟩ := hconfig seen hmem
    obtain ⟨config', hthere', hlater⟩ := hconfigs call.nodeId config hthere
    exact ⟨config', hthere', hlater seen hseen⟩
  cases phase with
  | opened plan call transaction => exact hread call transaction h
  | orphaned plan call transaction => exact hread call transaction h
  | _ => trivial

/-- A cycle moves on. -/
theorem Admits.withPhase {fence : Fence} {phase : Phase} (h : Admits state)
    (hcounted : (state.phase fence).Counted state.ids state.tasks →
      phase.Counted state.ids state.tasks)
    (hbounded : phase.Bounded) (hread : phase.Read fence state) :
    Admits (state.withPhase fence phase) where
  nodup := h.nodup
  counted := by
    show ((state.withPhase fence phase).phase state.leader.value.fence).Counted state.ids state.tasks
    by_cases hsame : state.leader.value.fence = fence
    · rw [hsame, Scheduling.withPhase_phase]
      exact hcounted (hsame ▸ h.counted)
    · rw [Scheduling.withPhase_phase_ne _ _ hsame]
      exact h.counted
  bounded := by
    intro other
    by_cases hsame : other = fence
    · rw [hsame, Scheduling.withPhase_phase]
      exact hbounded
    · rw [Scheduling.withPhase_phase_ne _ _ hsame]
      exact h.bounded other
  read := by
    intro other
    by_cases hsame : other = fence
    · rw [hsame, Scheduling.withPhase_phase]
      exact hread.mono (fun _ => id) fun _ config hmem => ⟨config, hmem, fun _ => id⟩
    · rw [Scheduling.withPhase_phase_ne _ _ hsame]
      exact (h.read other).mono (fun _ => id) fun _ config hmem => ⟨config, hmem, fun _ => id⟩

/-- A cycle that ends, or has nothing counted or open yet. -/
theorem Admits.finished {fence : Fence} (h : Admits state) : Admits (state.withPhase fence .finished) :=
  h.withPhase (fun _ => trivial) trivial trivial

theorem Phase.Counted.unassign {phase : Phase} (h : phase.Counted ids tasks)
    (hless : Unassigns (tasks taskId).task records.task) :
    phase.Counted ids (Function.update tasks taskId records) := by
  cases phase with
  | finished | leading => trivial
  | counting | planning | claiming | opened | committed | orphaned => exact Covers.unassign h hless

theorem Phase.Counted.create {phase : Phase} (h : phase.Counted ids tasks)
    (hnone : records.task.nodeId = none) :
    phase.Counted (taskId :: ids) (Function.update tasks taskId records) := by
  cases phase with
  | finished | leading => trivial
  | counting pending counted =>
    by_cases hpending : taskId ∈ pending
    · have hsame : visited (taskId :: ids) pending = visited ids pending := by
        simp [visited, hpending]
      have hless : Unassigns (tasks taskId).task records.task := .inr hnone
      show Covers (visited (taskId :: ids) pending) _ counted
      rw [hsame]
      exact Covers.unassign h hless
    · have hcons : visited (taskId :: ids) pending = taskId :: visited ids pending := by
        simp [visited, hpending]
      show Covers (visited (taskId :: ids) pending) _ counted
      rw [hcons]
      exact Covers.create h hnone
  | planning | claiming | opened | committed | orphaned => exact Covers.create h hnone

/-! ## Every step -/

theorem Admits.acquire {owner : SchedulerId} {time : Nat} (h : Admits state)
    (hevent : (SchedulingEvent.acquire owner time).apply state = some state') : Admits state' := by
  simp only [SchedulingEvent.apply, Option.ite_none_right_eq_some, Option.some.injEq] at hevent
  obtain ⟨-, rfl⟩ := hevent
  have hother : ∀ fence, fence ≠ state.leader.value.fence + 1 →
      Function.update state.cycles (state.leader.value.fence + 1) ⟨owner, .leading⟩ fence =
        state.cycles fence := fun fence hne => Function.update_of_ne hne _ _
  refine ⟨h.nodup, ?_, fun fence => ?_, fun fence => ?_⟩
  · -- the cycle that has the lease now has counted nothing yet
    simp [Scheduling.phase, Phase.Counted]
  · by_cases hnew : fence = state.leader.value.fence + 1
    · subst hnew
      simp [Scheduling.phase, Phase.Bounded]
    · simp only [Scheduling.phase, hother fence hnew]
      exact h.bounded fence
  · by_cases hnew : fence = state.leader.value.fence + 1
    · subst hnew
      simp [Scheduling.phase, Phase.Read]
    · simp only [Scheduling.phase, hother fence hnew]
      exact (h.read fence).mono (fun _ => Seen.write) fun _ config hmem => ⟨config, hmem, fun _ => id⟩

/-- What a claim does to the task it commits for. -/
theorem claim_assigns {records records' : Records} {call : ClaimCall} {resources : Resources}
    (h : (Act.claim call.status call.runId call.newRun call.nodeId true resources).apply records =
      some records') :
    records.task.nodeId = none ∧
      (records'.task.nodeId = none ∨ records'.task.nodeId = some call.nodeId) := by
  simp only [Act.apply, Option.ite_none_right_eq_some] at h
  obtain ⟨hnone, -, -, -, rfl | ⟨claimed, rfl, -⟩⟩ := claimTask_eq_some h.2
  · exact ⟨hnone, .inl hnone⟩
  · exact ⟨hnone, .inr rfl⟩

/-- A transaction that commits finds the lease its own cycle's. -/
theorem ClaimTransaction.current_fence {transaction : ClaimTransaction} {fence : Fence}
    {nodeId : NodeId} (hcurrent : transaction.current state nodeId)
    (hfence : transaction.leader.value.fence = fence)
    (hseen : Seen transaction.leader state.leader) : state.leader.value.fence = fence := by
  rw [← hseen.current hcurrent.1]
  exact hfence

/-- And the configuration of its node as it has read it. -/
theorem ClaimTransaction.current_config {transaction : ClaimTransaction} {nodeId : NodeId}
    (hcurrent : transaction.current state nodeId)
    (hseen : ∀ seen ∈ transaction.config, ∃ config ∈ state.configs nodeId, Seen seen config) :
    ∀ seen ∈ transaction.config, state.configs nodeId = some seen := by
  intro seen hmem
  obtain ⟨config, hthere, hread⟩ := hseen seen hmem
  have hversion := hcurrent.2
  rw [Option.mem_def.1 hmem, Option.mem_def.1 hthere] at hversion
  have hsame : seen.version = config.version := (Option.some.inj hversion).symm
  rw [hread.current hsame]
  exact hthere

/-- Writing a document again as it is keeps what has been read of it. -/
theorem Phase.Read.bump {phase : Phase} {fence : Fence} (h : phase.Read fence state)
    (nodeId : NodeId) : phase.Read fence (state.bump nodeId) := by
  refine h.mono (fun _ => Seen.write) fun other config hmem => ?_
  by_cases hsame : other = nodeId
  · subst hsame
    refine ⟨config.write config.value, ?_, fun _ => Seen.write⟩
    simp [Scheduling.bump, Option.mem_def.1 hmem]
  · refine ⟨config, ?_, fun _ => id⟩
    simpa [Scheduling.bump, Function.update_of_ne hsame] using hmem

/-- What a commit comes to. -/
theorem Scheduling.commit_eq_some {fence : Fence} {plan : Plan} {call : ClaimCall}
    {transaction : ClaimTransaction} {resources : Resources} {awaited : Bool}
    (h : state.commit fence plan call transaction resources awaited = some state') :
    transaction.current state call.nodeId ∧ ∃ records',
      (state.tasks call.taskId).task.nodeId = none ∧
        (records'.task.nodeId = none ∨ records'.task.nodeId = some call.nodeId) ∧
        state' = ((state.bump call.nodeId).withTask call.taskId records').withPhase fence
          (if awaited = true then .committed plan call records'.task.nodeId.isSome else .finished) := by
  simp only [Scheduling.commit, Option.ite_none_right_eq_some, Option.map_eq_some_iff] at h
  obtain ⟨hcurrent, records', hclaim, rfl⟩ := h
  obtain ⟨hnone, hassigns⟩ := claim_assigns hclaim
  exact ⟨hcurrent, records', hnone, hassigns, rfl⟩

/-- The transaction of the cycle that has the lease commits. -/
theorem Admits.commit {fence : Fence} {plan : Plan} {call : ClaimCall}
    {transaction : ClaimTransaction} {resources : Resources} {awaited : Bool} (h : Admits state)
    (hcovers : Covers state.ids state.tasks plan.counted)
    (hfence : state.leader.value.fence = fence)
    (hbounded : plan.active < plan.clusterCapacity ∧ call.occupied = plan.occupancy call.nodeId)
    (hcommit : state.commit fence plan call transaction resources awaited = some state') :
    Admits state' := by
  obtain ⟨-, records', hnone, hassigns, rfl⟩ := Scheduling.commit_eq_some hcommit
  refine ⟨h.nodup, ?_, fun other => ?_, fun other => ?_⟩
  · show (Scheduling.phase _ state.leader.value.fence).Counted state.ids
      (Function.update state.tasks call.taskId records')
    rw [hfence, Scheduling.withPhase_phase]
    cases awaited with
    | false => trivial
    | true =>
      obtain hblocked | hclaimed := hassigns
      · simp only [if_true, hblocked, Option.isSome_none, Phase.Counted, Bool.false_eq_true,
          if_false]
        exact hcovers.unassign (.inr hblocked)
      · simp only [if_true, hclaimed, Option.isSome_some, Phase.Counted]
        exact hcovers.assign h.nodup hclaimed
  · by_cases hsame : other = fence
    · rw [hsame, Scheduling.withPhase_phase]
      cases awaited with
      | false => trivial
      | true => exact hbounded
    · rw [Scheduling.withPhase_phase_ne _ _ hsame]
      exact h.bounded other
  · by_cases hsame : other = fence
    · rw [hsame, Scheduling.withPhase_phase]
      cases awaited <;> trivial
    · rw [Scheduling.withPhase_phase_ne _ _ hsame]
      exact ((h.read other).bump call.nodeId).mono (fun _ => id)
        fun _ config hmem => ⟨config, hmem, fun _ => id⟩

/-- What a transaction that may commit knows. -/
theorem Admits.pending {fence : Fence} {plan : Plan} {call : ClaimCall}
    {transaction : ClaimTransaction} (h : Admits state)
    (hphase : state.phase fence = .opened plan call transaction ∨
      state.phase fence = .orphaned plan call transaction)
    (hcurrent : transaction.current state call.nodeId) :
    state.leader.value.fence = fence ∧ Covers state.ids state.tasks plan.counted ∧
      (plan.active < plan.clusterCapacity ∧ call.occupied = plan.occupancy call.nodeId ∧
        call.occupied < transaction.capacity) ∧
      ∀ seen ∈ transaction.config, state.configs call.nodeId = some seen := by
  have hbounded := h.bounded fence
  have hread := h.read fence
  have hcounted := h.counted
  obtain hphase | hphase := hphase
  · rw [hphase] at hbounded hread
    have hfence := ClaimTransaction.current_fence hcurrent hread.1 hread.2.1
    rw [hfence, hphase] at hcounted
    exact ⟨hfence, hcounted, hbounded, ClaimTransaction.current_config hcurrent hread.2.2⟩
  · rw [hphase] at hbounded hread
    have hfence := ClaimTransaction.current_fence hcurrent hread.1 hread.2.1
    rw [hfence, hphase] at hcounted
    exact ⟨hfence, hcounted, hbounded, ClaimTransaction.current_config hcurrent hread.2.2⟩

theorem SchedulingStep.admits (hstep : SchedulingStep state state') (h : Admits state) :
    Admits state' := by
  obtain ⟨event, hevent⟩ := hstep
  cases event with
  | acquire owner time => exact h.acquire hevent
  | scan fence pending =>
    simp only [SchedulingEvent.apply] at hevent
    split at hevent
    · simp only [Option.ite_none_right_eq_some, Option.some.injEq] at hevent
      obtain ⟨hpending, rfl⟩ := hevent
      refine h.withPhase (fun _ => ?_) trivial trivial
      show Covers (visited state.ids pending) state.tasks []
      rw [visited_of_subset hpending]
      exact ⟨fun _ => Nat.le_refl _, Nat.le_refl _⟩
    · cases hevent
  | count fence =>
    simp only [SchedulingEvent.apply] at hevent
    split at hevent
    · rename_i taskId pending counted hphase
      cases hevent
      refine h.withPhase (fun hcounted => ?_) trivial trivial
      rw [hphase] at hcounted
      exact Covers.visit h.nodup hcounted
    · cases hevent
  | readCapacity fence settings =>
    simp only [SchedulingEvent.apply] at hevent
    split at hevent
    · rename_i counted hphase
      cases hevent
      split
      · exact h.finished
      · rename_i hbelow
        refine h.withPhase (fun hcounted => ?_) (Nat.lt_of_not_le hbelow) trivial
        rw [hphase] at hcounted
        show Covers state.ids state.tasks counted
        have hall : visited state.ids [] = state.ids := visited_nil
        rw [← hall]
        exact hcounted
    · cases hevent
  | call fence taskId status runId newRun nodeId =>
    simp only [SchedulingEvent.apply] at hevent
    split at hevent
    · rename_i plan hphase
      simp only [Option.ite_none_right_eq_some, Option.some.injEq] at hevent
      obtain ⟨-, rfl⟩ := hevent
      have hbounded := h.bounded fence
      rw [hphase] at hbounded
      refine h.withPhase (fun hcounted => ?_) ⟨hbounded, rfl⟩ trivial
      rw [hphase] at hcounted
      exact hcounted
    · cases hevent
  | begin fence time nodeCapacity =>
    simp only [SchedulingEvent.apply] at hevent
    split at hevent
    · rename_i plan claimCall hphase
      have hbounded := h.bounded fence
      rw [hphase] at hbounded
      split at hevent
      · rename_i hholds
        split at hevent
        · cases hevent
          refine h.withPhase (fun hcounted => ?_) hbounded.1 trivial
          rw [hphase] at hcounted
          exact hcounted
        · rename_i hbelow
          cases hevent
          refine h.withPhase (fun hcounted => ?_)
            ⟨hbounded.1, hbounded.2, Nat.lt_of_not_le (not_or.1 hbelow).2⟩ ?_
          · rw [hphase] at hcounted
            exact hcounted
          · exact ⟨hholds.2.1, Versioned.seen_refl _,
              fun seen hmem => ⟨seen, hmem, Versioned.seen_refl _⟩⟩
      · cases hevent
        exact h.finished
    · cases hevent
  | reject fence =>
    simp only [SchedulingEvent.apply] at hevent
    split at hevent
    · rename_i plan claimCall transaction hphase
      cases hevent
      have hbounded := h.bounded fence
      rw [hphase] at hbounded
      refine h.withPhase (fun hcounted => ?_) hbounded.1 trivial
      rw [hphase] at hcounted
      exact hcounted
    · cases hevent
  | commit fence resources =>
    simp only [SchedulingEvent.apply] at hevent
    split at hevent
    · rename_i plan claimCall transaction hphase
      obtain ⟨hcurrent, -⟩ := Scheduling.commit_eq_some hevent
      obtain ⟨hfence, hcovers, hbounded, -⟩ := h.pending (.inl hphase) hcurrent
      exact h.commit hcovers hfence ⟨hbounded.1, hbounded.2.1⟩ hevent
    · rename_i plan claimCall transaction hphase
      obtain ⟨hcurrent, -⟩ := Scheduling.commit_eq_some hevent
      obtain ⟨hfence, hcovers, hbounded, -⟩ := h.pending (.inr hphase) hcurrent
      exact h.commit hcovers hfence ⟨hbounded.1, hbounded.2.1⟩ hevent
    · cases hevent
  | confirm fence =>
    simp only [SchedulingEvent.apply] at hevent
    split at hevent
    · rename_i plan claimCall claimed hphase
      cases hevent
      generalize hnext : (if claimed = true then plan.assign claimCall.nodeId else plan) = next
      split
      · exact h.finished
      · rename_i hbelow
        refine h.withPhase (fun hcounted => ?_) (Nat.lt_of_not_le hbelow) trivial
        rw [hphase] at hcounted
        show Covers state.ids state.tasks next.counted
        rw [← hnext]
        exact hcounted
    · cases hevent
  | abort fence =>
    simp only [SchedulingEvent.apply] at hevent
    split at hevent
    · rename_i plan claimCall transaction hphase
      cases hevent
      have hbounded := h.bounded fence
      rw [hphase] at hbounded
      refine h.withPhase (fun hcounted => ?_) ⟨hbounded.1, hbounded.2.1⟩ trivial
      rw [hphase] at hcounted
      exact hcounted
    · cases hevent
  | lose fence =>
    simp only [SchedulingEvent.apply] at hevent
    split at hevent
    · rename_i plan claimCall transaction hphase
      cases hevent
      have hbounded := h.bounded fence
      have hread := h.read fence
      rw [hphase] at hbounded hread
      refine h.withPhase (fun hcounted => ?_) hbounded hread
      rw [hphase] at hcounted
      exact hcounted
    · cases hevent
      exact h.finished
  | act taskId taskAct =>
    simp only [SchedulingEvent.apply, Option.ite_none_right_eq_some, Option.map_eq_some_iff]
      at hevent
    obtain ⟨⟨hclaim, -⟩, records', hact, rfl⟩ := hevent
    exact ⟨h.nodup, h.counted.unassign (Act.apply_unassigns hact hclaim), h.bounded,
      fun fence => (h.read fence).mono (fun _ => id) fun _ config hmem => ⟨config, hmem, fun _ => id⟩⟩
  | create taskId task operations =>
    simp only [SchedulingEvent.apply, Option.ite_none_right_eq_some, Option.some.injEq] at hevent
    obtain ⟨⟨hnew, hnone⟩, rfl⟩ := hevent
    exact ⟨List.nodup_cons.2 ⟨hnew, h.nodup⟩, h.counted.create hnone, h.bounded,
      fun fence => (h.read fence).mono (fun _ => id) fun _ config hmem => ⟨config, hmem, fun _ => id⟩⟩
  | configure nodeId config =>
    cases hevent
    refine ⟨h.nodup, h.counted, h.bounded, fun fence => (h.read fence).mono (fun _ => id) ?_⟩
    intro other saved hmem
    by_cases hsame : other = nodeId
    · subst hsame
      refine ⟨saved.write config, ?_, fun _ => Seen.write⟩
      simp [Option.mem_def.1 hmem]
    · refine ⟨saved, ?_, fun _ => id⟩
      simpa [Function.update_of_ne hsame] using hmem
  | setClusterCapacity capacity =>
    cases hevent
    exact ⟨h.nodup, h.counted, h.bounded, fun fence =>
      (h.read fence).mono (fun _ => id) fun _ config hmem => ⟨config, hmem, fun _ => id⟩⟩

theorem reachable_admits (h : Reachable SchedulingInitial SchedulingStep state) : Admits state :=
  h.invariant (fun _ => SchedulingInitial.admits) fun _ _ => SchedulingStep.admits

/-! ## Claims that commit -/

theorem not_assigned_of_unassigns {nodeId : NodeId} {changed : TaskId}
    (hless : Unassigns (tasks changed).task records.task)
    (hbefore : (tasks taskId).task.nodeId ≠ some nodeId) :
    (Function.update tasks changed records taskId).task.nodeId ≠ some nodeId := by
  by_cases hsame : taskId = changed
  · subst hsame
    rw [Function.update_self]
    obtain hkept | hnone := hless
    · rw [hkept]
      exact hbefore
    · rw [hnone]
      exact (Option.some_ne_none nodeId).symm
  · rwa [Function.update_of_ne hsame]

/-- A commit gives its node to its task and to no other. -/
theorem Scheduling.commit_assigns {fence : Fence} {plan : Plan} {call : ClaimCall}
    {transaction : ClaimTransaction} {resources : Resources} {awaited : Bool} {nodeId : NodeId}
    (hcommit : state.commit fence plan call transaction resources awaited = some state')
    (hbefore : (state.tasks taskId).task.nodeId ≠ some nodeId)
    (hafter : (state'.tasks taskId).task.nodeId = some nodeId) :
    transaction.current state call.nodeId ∧ call.taskId = taskId ∧ call.nodeId = nodeId := by
  obtain ⟨hcurrent, records', hnone, hassigns, rfl⟩ := commit_eq_some hcommit
  change (Function.update state.tasks call.taskId records' taskId).task.nodeId = some nodeId at hafter
  by_cases hsame : taskId = call.taskId
  · subst hsame
    rw [Function.update_self] at hafter
    obtain hblocked | hclaimed := hassigns
    · cases hblocked.symm.trans hafter
    · exact ⟨hcurrent, rfl, Option.some.inj (hclaimed.symm.trans hafter)⟩
  · rw [Function.update_of_ne hsame] at hafter
    exact absurd hafter hbefore

/-- Only a commit gives a node to a task. -/
theorem SchedulingEvent.apply_assigns {event : SchedulingEvent} {nodeId : NodeId}
    (hevent : event.apply state = some state')
    (hbefore : (state.tasks taskId).task.nodeId ≠ some nodeId)
    (hafter : (state'.tasks taskId).task.nodeId = some nodeId) :
    ∃ fence plan call transaction resources, event = .commit fence resources ∧
      (state.phase fence = .opened plan call transaction ∨
        state.phase fence = .orphaned plan call transaction) ∧
      transaction.current state call.nodeId ∧ call.taskId = taskId ∧ call.nodeId = nodeId := by
  cases event with
  | commit fence resources =>
    simp only [SchedulingEvent.apply] at hevent
    split at hevent
    · rename_i plan claimCall transaction hphase
      exact ⟨fence, plan, claimCall, transaction, resources, rfl, .inl hphase,
        Scheduling.commit_assigns hevent hbefore hafter⟩
    · rename_i plan claimCall transaction hphase
      exact ⟨fence, plan, claimCall, transaction, resources, rfl, .inr hphase,
        Scheduling.commit_assigns hevent hbefore hafter⟩
    · cases hevent
  | act changed taskAct =>
    simp only [SchedulingEvent.apply, Option.ite_none_right_eq_some, Option.map_eq_some_iff]
      at hevent
    obtain ⟨⟨hclaim, -⟩, records', hact, rfl⟩ := hevent
    exact absurd hafter (not_assigned_of_unassigns (Act.apply_unassigns hact hclaim) hbefore)
  | create changed task operations =>
    simp only [SchedulingEvent.apply, Option.ite_none_right_eq_some, Option.some.injEq] at hevent
    obtain ⟨⟨-, hnone⟩, rfl⟩ := hevent
    have hless : Unassigns (state.tasks changed).task (createdRecords task operations).task :=
      .inr hnone
    exact absurd hafter (not_assigned_of_unassigns hless hbefore)
  | acquire owner time =>
    simp only [SchedulingEvent.apply, Option.ite_none_right_eq_some, Option.some.injEq] at hevent
    obtain ⟨-, rfl⟩ := hevent
    exact absurd hafter hbefore
  | configure | setClusterCapacity =>
    cases hevent
    exact absurd hafter hbefore
  | scan | call =>
    simp only [SchedulingEvent.apply] at hevent
    split at hevent
    · simp only [Option.ite_none_right_eq_some, Option.some.injEq] at hevent
      obtain ⟨-, rfl⟩ := hevent
      exact absurd hafter hbefore
    · cases hevent
  | begin =>
    simp only [SchedulingEvent.apply] at hevent
    split at hevent
    · split at hevent
      · split at hevent
        · cases hevent
          exact absurd hafter hbefore
        · cases hevent
          exact absurd hafter hbefore
      · cases hevent
        exact absurd hafter hbefore
    · cases hevent
  | count | readCapacity | reject | confirm | abort =>
    simp only [SchedulingEvent.apply] at hevent
    split at hevent
    · cases hevent
      exact absurd hafter hbefore
    · cases hevent
  | lose =>
    simp only [SchedulingEvent.apply] at hevent
    split at hevent
    · cases hevent
      exact absurd hafter hbefore
    · cases hevent
      exact absurd hafter hbefore

/-- A task is given to a node only by the cycle that has the lease, while the node has fewer
tasks than the capacity its transaction has read, which is its capacity still, and all nodes
together fewer than the capacity the cycle has read. -/
theorem capacity_respected (state : Scheduling)
    (h : Reachable SchedulingInitial SchedulingStep state) :
    (∀ (event : SchedulingEvent) (state' : Scheduling) (taskId : TaskId) (nodeId : NodeId),
      event.apply state = some state' →
      (state.tasks taskId).task.nodeId ≠ some nodeId →
      (state'.tasks taskId).task.nodeId = some nodeId →
      ∃ plan call transaction resources,
        event = .commit state.leader.value.fence resources ∧
        (state.phase state.leader.value.fence = .opened plan call transaction ∨
          state.phase state.leader.value.fence = .orphaned plan call transaction) ∧
        call.taskId = taskId ∧ call.nodeId = nodeId ∧
        state.assignedTo nodeId < transaction.capacity ∧
        (∀ seen ∈ transaction.config, state.configs nodeId = some seen) ∧
        state.assigned < plan.clusterCapacity) ∧
    ∀ (fence : Fence) (resources : Resources), fence ≠ state.leader.value.fence →
      (SchedulingEvent.commit fence resources).apply state = none := by
  have hadmits := reachable_admits h
  refine ⟨?_, ?_⟩
  · intro event state' taskId nodeId hevent hbefore hafter
    obtain ⟨fence, plan, call, transaction, resources, rfl, hphase, hcurrent, rfl, rfl⟩ :=
      SchedulingEvent.apply_assigns hevent hbefore hafter
    obtain ⟨rfl, hcovers, ⟨hcluster, hoccupied, hcapacity⟩, hconfig⟩ :=
      hadmits.pending hphase hcurrent
    refine ⟨plan, call, transaction, resources, rfl, hphase, rfl, rfl, ?_, hconfig, ?_⟩
    · have hnode := hcovers.node call.nodeId
      rw [hoccupied] at hcapacity
      exact hnode.trans_lt hcapacity
    · exact hcovers.all.trans_lt hcluster
  · intro fence resources hother
    cases hevent : (SchedulingEvent.commit fence resources).apply state with
    | none => rfl
    | some state' =>
      simp only [SchedulingEvent.apply] at hevent
      split at hevent
      · rename_i plan call transaction hphase
        have hcurrent := (Scheduling.commit_eq_some hevent).1
        exact absurd (hadmits.pending (.inl hphase) hcurrent).1.symm hother
      · rename_i plan call transaction hphase
        have hcurrent := (Scheduling.commit_eq_some hevent).1
        exact absurd (hadmits.pending (.inr hphase) hcurrent).1.symm hother
      · cases hevent

/-! Two tasks and a node without a configuration: the first cycle claims one of them. -/

def unscheduled : Scheduling where
  tasks := newDatabase
  ids := [0, 1]
  leader := ⟨⟨none, 0, 0⟩, 0⟩
  configs := fun _ => none
  clusterCapacity := none
  cycles := fun _ => ⟨0, .finished⟩

theorem unscheduled_initial : SchedulingInitial unscheduled := ⟨by decide, fun _ => rfl⟩

def claimBegun : List SchedulingEvent :=
  [.acquire 3 1, .scan 1 [1, 0], .count 1, .count 1, .readCapacity 1 500,
    .call 1 0 .stopped none 7 4, .begin 1 2 none]

theorem capacity_respected_first :
    ∃ state state', Reachable SchedulingInitial SchedulingStep state ∧
      (SchedulingEvent.commit 1 onlineDevice).apply state = some state' ∧
      (state'.tasks 0).task.nodeId = some 4 ∧
      ∃ plan : Plan, state.assigned < plan.clusterCapacity := by
  have hrun : ∃ state state', Lib.runActs SchedulingEvent.apply claimBegun unscheduled = some state ∧
      (SchedulingEvent.commit 1 onlineDevice).apply state = some state' ∧
      (state.tasks 0).task.nodeId = none ∧ (state'.tasks 0).task.nodeId = some 4 :=
    ⟨_, _, rfl, rfl, rfl, rfl⟩
  obtain ⟨state, state', hrun, hcommit, hbefore, hafter⟩ := hrun
  have hreach : Reachable SchedulingInitial SchedulingStep state :=
    ⟨_, unscheduled_initial, Lib.runActs_steps hrun⟩
  obtain ⟨plan, _, _, _, -, -, -, -, -, -, hbelow⟩ := (capacity_respected state hreach).1 _ state' 0 4
    hcommit (by rw [hbefore]; exact (Option.some_ne_none 4).symm) hafter
  exact ⟨state, state', hreach, hcommit, hafter, plan, hbelow⟩

end CameraLogs.Tasks
