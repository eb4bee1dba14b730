import CameraLogs.Common.RunArchive
import Mathlib.Algebra.BigOperators.Group.Finset.Basic

/-!
# A chunked archive counts each command once

The summary of a run is tied to the records deleted for it: `Counted` says that the count
and the count of each status are those of a list of records, and the invariant that this
list is what has been deleted of the run so far. A round that gets as far as its writes
deletes exactly the rows it has selected (`removed_perm`), so the summary and the list grow
by the same records.

The ids of what was deleted and of what is left stay apart, so nothing is deleted, or
counted, a second time.
-/

namespace CameraLogs.Common

open CameraLogs.Lib

variable {κ : Type}

/-! ## A summary and the records it sums up -/

/-- The summary is that of these records; without a document there are none. -/
def Counted (archive : Option (RunArchive κ)) (records : List (Command κ)) : Prop :=
  match archive with
  | none => records = []
  | some archive => archive.commandCount = records.length ∧
      ∀ status, archive.commandStatuses status = (records.map (·.status)).count status

theorem Counted.total {archive : RunArchive κ} {records : List (Command κ)}
    (h : Counted (some archive) records) :
    archive.commandCount = ∑ status, archive.commandStatuses status := by
  have hsum : ∑ status, (records.map (·.status)).count status = records.length := by
    have := Multiset.sum_count_eq_card (s := Finset.univ)
      (m := (↑(records.map (·.status)) : Multiset CommandStatus)) (fun _ _ => Finset.mem_univ _)
    simpa using this
  rw [h.1, ← hsum]
  exact Finset.sum_congr rfl fun status _ => (h.2 status).symm

/-- The records of a run among those deleted. -/
def RecordStore.deletedOf (store : RecordStore κ) (runId : RunId) : List (Command κ) :=
  store.deleted.filter fun command => command.runId = runId

theorem Counted.append {archive : RunArchive κ} {records removed selected : List (Command κ)}
    (h : Counted (some archive) records) (hperm : removed.Perm selected) :
    archive.commandCount + selected.length = (records ++ removed).length ∧
      ∀ status, archive.commandStatuses status + (selected.map (·.status)).count status =
        ((records ++ removed).map (·.status)).count status := by
  constructor
  · rw [h.1, List.length_append, hperm.length_eq]
  · intro status
    rw [h.2 status, List.map_append, List.count_append, (hperm.map _).count_eq]

namespace RecordStore

variable {store : RecordStore κ} {runId : RunId} {endedAt : Time}

@[simp] theorem removeIfFinished_commands (finished : Bool) :
    (store.removeIfFinished finished runId endedAt).commands = store.commands := by
  cases finished <;> rfl

@[simp] theorem removeIfFinished_deleted (finished : Bool) :
    (store.removeIfFinished finished runId endedAt).deleted = store.deleted := by
  cases finished <;> rfl

@[simp] theorem removeIfFinished_archives (finished : Bool) :
    (store.removeIfFinished finished runId endedAt).archives = store.archives := by
  cases finished <;> rfl

end RecordStore

variable [LinearOrder κ] {store store' : RecordStore κ}

/-! ## What a round selects -/

namespace RecordStore

omit [LinearOrder κ] in
theorem mem_commandsOf {taskId : TaskId} {runId : RunId} {command : Command κ} :
    command ∈ store.commandsOf taskId runId ↔
      command ∈ store.commands ∧ command.OfRun taskId runId := by
  simp [commandsOf]

theorem mem_of_mem_nextRows {n : Nat} {taskId : TaskId} {runId : RunId} {row : Command κ}
    (h : row ∈ store.nextRows n taskId runId) : row ∈ store.commandsOf taskId runId := by
  have hsorted := List.mem_of_mem_take h
  rw [List.mem_insertionSort] at hsorted
  exact List.mem_of_mem_filter hsorted

theorem nodup_nextRows {n : Nat} {taskId : TaskId} {runId : RunId}
    (hids : (store.commands.map (·.id)).Nodup) : (store.nextRows n taskId runId).Nodup := by
  have hcommands : store.commands.Nodup := List.Nodup.of_map _ hids
  have hbehind := (hcommands.filter fun command => command.OfRun taskId runId).filter
    fun command => (store.cursorOf runId).all fun cursor => cursor < command.id
  refine List.Nodup.sublist (List.take_sublist _ _) ?_
  exact (List.perm_insertionSort _ _).nodup_iff.mpr hbehind

/-- What a `delete_many` by the ids of the selected rows removes are these rows. -/
theorem removed_perm {taskId : TaskId} {runId : RunId} {selected : List (Command κ)}
    (hids : (store.commands.map (·.id)).Nodup) (hnodup : selected.Nodup)
    (hof : ∀ row ∈ selected, row ∈ store.commandsOf taskId runId) :
    (store.commandsIn taskId runId (selected.map (·.id))).Perm selected := by
  have hcommands : store.commands.Nodup := List.Nodup.of_map _ hids
  refine (List.perm_ext_iff_of_nodup (hcommands.filter _) hnodup).mpr fun command => ?_
  simp only [List.mem_filter, decide_eq_true_eq, List.mem_map]
  constructor
  · intro ⟨hmem, _, row, hrow, hid⟩
    have hrowmem := (mem_commandsOf.mp (hof row hrow)).1
    have heq : row = command := List.inj_on_of_nodup_map hids hrowmem hmem hid
    rwa [← heq]
  · intro hmem
    have ⟨hin, hrun⟩ := mem_commandsOf.mp (hof command hmem)
    exact ⟨hin, hrun, command, hmem, rfl⟩

end RecordStore

/-! ## What a round can do -/

/-- A round that gets as far as its writes: the rows come from the run as it is stored, and
from the commands of its task. -/
inductive RoundStep (store : RecordStore κ) (runId : RunId) : RecordStore κ → Prop
  | wrote {run : Run} {taskId : TaskId} {endedAt timestamp : Time} {n : Nat}
      {rows selected : List (Command κ)} (hrun : store.runs runId = some run)
      (htask : run.taskId = some taskId) (hended : run.endedAt = some endedAt)
      (hnodup : selected.Nodup)
      (hof : ∀ row ∈ selected, row ∈ store.commandsOf taskId runId) :
      RoundStep store runId ((store.touchTask taskId).archiveRows n taskId runId run.startedAt
        endedAt timestamp rows selected).1

/-- A round writes nothing but the task's revision, or goes through to its writes. -/
theorem archiveRun_cases {n : Nat} {runId : RunId} {cutoff timestamp : Time}
    {fenced dryRun : Bool} (hids : (store.commands.map (·.id)).Nodup) :
    (archiveRun n store runId cutoff timestamp fenced dryRun).1 = store ∨
    (∃ taskId, (archiveRun n store runId cutoff timestamp fenced dryRun).1 =
      store.touchTask taskId) ∨
    RoundStep store runId (archiveRun n store runId cutoff timestamp fenced dryRun).1 := by
  simp only [archiveRun]
  split
  · exact .inl rfl
  · split
    · exact .inl rfl
    · rename_i run hrun
      have hstored : store.runs runId = some run := (Option.filter_eq_some_iff.mp hrun).1
      simp only [archiveChunk]
      split
      · rename_i taskId endedAt htask hended
        split
        · exact .inl rfl
        · split
          · exact .inl rfl
          · split
            · exact .inr (.inl ⟨taskId, rfl⟩)
            · split
              · exact .inr (.inl ⟨taskId, rfl⟩)
              · split
                · exact .inr (.inl ⟨taskId, rfl⟩)
                · split
                  · exact .inr (.inl ⟨taskId, rfl⟩)
                  · split
                    · exact .inr (.inl ⟨taskId, rfl⟩)
                    · refine .inr (.inr (.wrote hstored htask hended ?_ ?_))
                      · exact (RecordStore.nodup_nextRows hids).filter _
                      · intro row hrow
                        exact RecordStore.mem_of_mem_nextRows (List.mem_of_mem_filter hrow)
      · exact .inl rfl

namespace RecordStore

variable {taskId : TaskId} {runId : RunId} {startedAt : Option Time} {endedAt timestamp : Time}
  {n : Nat} {rows selected : List (Command κ)}

theorem archiveRows_commands :
    (store.archiveRows n taskId runId startedAt endedAt timestamp rows selected).1.commands =
      store.commands.filter fun command =>
        ¬ (command.OfRun taskId runId ∧ command.id ∈ selected.map (·.id)) := by
  rw [archiveRows, removeIfFinished_commands]
  rfl

theorem archiveRows_deleted :
    (store.archiveRows n taskId runId startedAt endedAt timestamp rows selected).1.deleted =
      store.deleted ++ store.commandsIn taskId runId (selected.map (·.id)) := by
  rw [archiveRows, removeIfFinished_deleted]
  rfl

theorem archiveRows_archives_of_ne {id : RunId} (hne : id ≠ runId) :
    (store.archiveRows n taskId runId startedAt endedAt timestamp rows selected).1.archives id =
      store.archives id := by
  rw [archiveRows, removeIfFinished_archives]
  simp [addToArchive, deleteBudgets, deleteCommands, ensureArchive, hne]

/-- The summary after the round: what was there, or a new one, with the rows added. -/
theorem archiveRows_archives {records : List (Command κ)}
    (hcounted : Counted (store.archives runId) records)
    (hperm : (store.commandsIn taskId runId (selected.map (·.id))).Perm selected) :
    Counted
      ((store.archiveRows n taskId runId startedAt endedAt timestamp rows selected).1.archives
        runId)
      (records ++ store.commandsIn taskId runId (selected.map (·.id))) := by
  have hbase : ∀ archive : RunArchive κ, archive = (store.archives runId).getD
      { taskId := taskId, startedAt := startedAt, endedAt := endedAt,
        startedArchiveAt := timestamp, commandCount := 0, budgetCount := 0,
        commandStatuses := fun _ => 0, commandCursor := none, state := .archiving,
        updatedAt := none, archivedAt := none } → Counted (some archive) records := by
    intro archive harchive
    cases hold : store.archives runId with
    | none =>
      rw [hold] at hcounted harchive
      subst harchive
      rw [show records = [] from hcounted]
      exact ⟨rfl, fun _ => rfl⟩
    | some old =>
      rw [hold] at hcounted harchive
      subst harchive
      exact hcounted
  have hgrown := (hbase _ rfl).append hperm
  rw [archiveRows, removeIfFinished_archives]
  simpa [addToArchive, deleteBudgets, deleteCommands, ensureArchive, Counted] using hgrown

/-- The run goes only with the last of its commands and budgets. -/
theorem archiveRows_removed
    (hthere : store.runs runId ≠ none)
    (hgone : (store.archiveRows n taskId runId startedAt endedAt timestamp rows selected).1.runs
      runId = none) :
    (store.archiveRows n taskId runId startedAt endedAt timestamp rows selected).1.commandsOf
      taskId runId = [] ∧
    (store.archiveRows n taskId runId startedAt endedAt timestamp rows selected).1.budgetsOf
      runId = [] := by
  revert hgone
  simp only [archiveRows, removeIfFinished]
  split
  · rename_i hfinished
    intro _
    simp only [Bool.and_eq_true, Bool.not_not, List.isEmpty_iff] at hfinished
    exact hfinished
  · intro hgone
    exact absurd hgone hthere

theorem archiveRows_runs_of_ne {id : RunId} (hne : id ≠ runId) :
    (store.archiveRows n taskId runId startedAt endedAt timestamp rows selected).1.runs id =
      store.runs id := by
  simp only [archiveRows, removeIfFinished]
  split
  · exact if_neg hne
  · rfl

theorem archiveRows_runs_some {id : RunId} {run : Run}
    (h : (store.archiveRows n taskId runId startedAt endedAt timestamp rows selected).1.runs id =
      some run) : store.runs id = some run := by
  revert h
  simp only [archiveRows, removeIfFinished]
  split
  · simp only [deleteRun]
    split
    · intro h
      exact (Option.filter_eq_some_iff.mp h).1
    · exact fun h => h
  · exact fun h => h

end RecordStore

/-! ## The invariant -/

structure ArchiveInv (store : RecordStore κ) : Prop where
  ids : ((store.deleted ++ store.commands).map (·.id)).Nodup
  counted : ∀ runId, Counted (store.archives runId) (store.deletedOf runId)
  owned : ∀ command ∈ store.commands, ∀ run, store.runs command.runId = some run →
    run.taskId = some command.taskId

namespace ArchiveInv

omit [LinearOrder κ] in
theorem start (h : Start store) : ArchiveInv store where
  ids := by
    rw [h.deleted]
    exact h.ids
  counted := by
    intro runId
    rw [h.archives, RecordStore.deletedOf, h.deleted]
    rfl
  owned := h.owned

omit [LinearOrder κ] in
theorem commands_ids (h : ArchiveInv store) : (store.commands.map (·.id)).Nodup := by
  have := h.ids
  rw [List.map_append] at this
  exact this.of_append_right

omit [LinearOrder κ] in
theorem touchTask (h : ArchiveInv store) (taskId : TaskId) : ArchiveInv (store.touchTask taskId) :=
  ⟨h.ids, h.counted, h.owned⟩

theorem filter_commandsIn {taskId : TaskId} {runId : RunId} {ids : List κ} :
    (store.commandsIn taskId runId ids).filter (fun command => command.runId = runId) =
      store.commandsIn taskId runId ids := by
  refine List.filter_eq_self.mpr fun command hmem => ?_
  have hof := of_decide_eq_true (List.mem_filter.mp hmem).2
  exact decide_eq_true hof.1.2

theorem filter_commandsIn_of_ne {taskId : TaskId} {runId id : RunId} {ids : List κ}
    (hne : id ≠ runId) :
    (store.commandsIn taskId runId ids).filter (fun command => command.runId = id) = [] := by
  refine List.filter_eq_nil_iff.mpr fun command hmem heq => ?_
  have hof := of_decide_eq_true (List.mem_filter.mp hmem).2
  exact hne ((of_decide_eq_true heq).symm.trans hof.1.2)

/-- The writes move the rows from the commands to the deleted records and count them. -/
theorem archiveRows {taskId : TaskId} {runId : RunId} {startedAt : Option Time}
    {endedAt timestamp : Time} {n : Nat} {rows selected : List (Command κ)}
    (h : ArchiveInv store) (hnodup : selected.Nodup)
    (hof : ∀ row ∈ selected, row ∈ store.commandsOf taskId runId) :
    ArchiveInv (store.archiveRows n taskId runId startedAt endedAt timestamp rows selected).1 := by
  have hperm := RecordStore.removed_perm h.commands_ids hnodup hof
  refine ⟨?_, ?_, ?_⟩
  · rw [RecordStore.archiveRows_deleted, RecordStore.archiveRows_commands]
    have hsplit := List.filter_append_perm (fun command : Command κ =>
      decide (command.OfRun taskId runId ∧ command.id ∈ selected.map (·.id))) store.commands
    have hall : (store.deleted ++ store.commandsIn taskId runId (selected.map (·.id)) ++
        store.commands.filter (fun command =>
          ¬ (command.OfRun taskId runId ∧ command.id ∈ selected.map (·.id)))).Perm
        (store.deleted ++ store.commands) := by
      rw [List.append_assoc]
      refine List.Perm.append_left _ ?_
      simp only [decide_not]
      exact hsplit
    exact ((hall.map _).nodup_iff).mpr h.ids
  · intro id
    rw [RecordStore.deletedOf, RecordStore.archiveRows_deleted, List.filter_append]
    by_cases hid : id = runId
    · subst hid
      rw [filter_commandsIn]
      exact RecordStore.archiveRows_archives (h.counted id) hperm
    · rw [filter_commandsIn_of_ne hid, List.append_nil, RecordStore.archiveRows_archives_of_ne hid]
      exact h.counted id
  · intro command hmem run hrun
    rw [RecordStore.archiveRows_commands] at hmem
    exact h.owned command (List.mem_of_mem_filter hmem) run
      (RecordStore.archiveRows_runs_some hrun)

theorem round {runId : RunId} (h : ArchiveInv store) (hround : RoundStep store runId store') :
    ArchiveInv store' := by
  cases hround with
  | wrote hrun htask hended hnodup hof => exact (h.touchTask _).archiveRows hnodup hof

theorem archiveRun {n : Nat} {runId : RunId} {cutoff timestamp : Time} {fenced dryRun : Bool}
    (h : ArchiveInv store) :
    ArchiveInv (Common.archiveRun n store runId cutoff timestamp fenced dryRun).1 := by
  obtain hsame | ⟨taskId, htouched⟩ | hround := archiveRun_cases h.commands_ids
  · exact hsame.symm ▸ h
  · exact htouched.symm ▸ h.touchTask taskId
  · exact h.round hround

omit [LinearOrder κ] in
/-- A status written to a command leaves the ids and the tasks of the commands alone. -/
theorem settle (h : ArchiveInv store) {id : κ} [DecidableEq κ] {status : CommandStatus} :
    ArchiveInv { store with
      commands := store.commands.map fun command =>
        if command.id = id then { command with status := status } else command } := by
  refine ⟨?_, h.counted, ?_⟩
  · have hsame : (store.commands.map fun command =>
        if command.id = id then { command with status := status } else command).map (·.id) =
        store.commands.map (·.id) := by
      rw [List.map_map]
      refine List.map_congr_left fun command _ => ?_
      simp only [Function.comp_apply]
      split <;> rfl
    have hids := h.ids
    rw [List.map_append] at hids ⊢
    rwa [hsame]
  · intro command hmem run hrun
    obtain ⟨old, hold, rfl⟩ := List.mem_map.mp hmem
    split at hrun
    · rename_i heq
      rw [if_pos heq]
      exact h.owned old hold run hrun
    · rename_i hne
      rw [if_neg hne]
      exact h.owned old hold run hrun

omit [LinearOrder κ] in
theorem insertCommand (h : ArchiveInv store) {command : Command κ}
    (hfresh : command.id ∉ (store.deleted ++ store.commands).map (·.id))
    (hrun : (store.runs command.runId).any (fun run => run.taskId = some command.taskId) = true) :
    ArchiveInv { store with commands := store.commands ++ [command] } := by
  refine ⟨?_, h.counted, ?_⟩
  · show ((store.deleted ++ (store.commands ++ [command])).map (·.id)).Nodup
    rw [← List.append_assoc, List.map_append, List.map_singleton, ← List.concat_eq_append]
    exact h.ids.concat hfresh
  · intro other hmem run hstored
    obtain hold | hnew := List.mem_append.mp hmem
    · exact h.owned other hold run hstored
    · rw [List.mem_singleton.mp hnew] at hstored ⊢
      rw [hstored] at hrun
      exact of_decide_eq_true hrun

omit [LinearOrder κ] in
theorem startRun (h : ArchiveInv store) {runId : RunId} {run : Run}
    (hnone : ∀ command ∈ store.commands, command.runId ≠ runId) :
    ArchiveInv { store with
      runs := fun id => if id = runId then some run else store.runs id } := by
  refine ⟨h.ids, h.counted, ?_⟩
  intro command hmem run' hrun'
  have hstored : store.runs command.runId = some run' :=
    (if_neg (hnone command hmem)).symm.trans hrun'
  exact h.owned command hmem run' hstored

omit [LinearOrder κ] in
theorem endRun (h : ArchiveInv store) {runId : RunId} {endedAt : Time} :
    ArchiveInv { store with
      runs := fun id =>
        if id = runId then (store.runs id).map fun run => { run with endedAt := some endedAt }
        else store.runs id } := by
  refine ⟨h.ids, h.counted, ?_⟩
  intro command hmem run hrun
  simp only at hrun
  split at hrun
  · obtain ⟨old, hold, rfl⟩ := Option.map_eq_some_iff.mp hrun
    exact h.owned command hmem old hold
  · exact h.owned command hmem run hrun

theorem step (h : ArchiveInv store) (hstep : Step store store') : ArchiveInv store' := by
  obtain ⟨act, hact⟩ := hstep
  cases act with
  | archiveRun n runId cutoff timestamp fenced dryRun =>
    cases hact
    exact h.archiveRun
  | setProofs | setTask | setLocks | setOperations | setPins | insertBudget =>
    cases hact
    exact ⟨h.ids, h.counted, h.owned⟩
  | settle id status =>
    cases hact
    exact h.settle
  | insertCommand command =>
    simp only [Act.apply, Option.bind_eq_bind, Option.bind_eq_some_iff] at hact
    obtain ⟨_, hfresh, _, hrun, heq⟩ := hact
    cases heq
    exact h.insertCommand (of_guard hfresh) (of_guard hrun)
  | startRun runId taskId startedAt =>
    simp only [Act.apply, Option.bind_eq_bind, Option.bind_eq_some_iff] at hact
    obtain ⟨_, hguard, heq⟩ := hact
    cases heq
    exact h.startRun (of_guard hguard).2
  | endRun runId endedAt =>
    cases hact
    exact h.endRun

end ArchiveInv

/-! ## The removal of a run -/

theorem removed_of_round {id runId : RunId} (h : ArchiveInv store)
    (hround : RoundStep store id store') (hthere : store.runs runId ≠ none)
    (hgone : store'.runs runId = none) :
    (∀ command ∈ store'.commands, command.runId ≠ runId) ∧ store'.budgetsOf runId = [] := by
  cases hround with
  | wrote hrun htask hended hnodup hof =>
    rename_i run taskId endedAt timestamp n rows selected
    by_cases hid : runId = id
    · subst hid
      have htouched : (store.touchTask taskId).runs runId ≠ none := hthere
      have ⟨hcommands, hbudgets⟩ := RecordStore.archiveRows_removed htouched hgone
      refine ⟨?_, hbudgets⟩
      intro command hmem heq
      have hin := hmem
      rw [RecordStore.archiveRows_commands] at hin
      -- the command would be one of the run's task, and none of these is left
      have htask' := h.owned command (List.mem_of_mem_filter hin) run (heq ▸ hrun)
      have hof : command.OfRun taskId runId :=
        ⟨Option.some.inj (htask'.symm.trans htask), heq⟩
      have := RecordStore.mem_commandsOf.mpr ⟨hmem, hof⟩
      rw [hcommands] at this
      cases this
    · rw [RecordStore.archiveRows_runs_of_ne hid] at hgone
      exact absurd hgone hthere

/-- Only a round of the run itself removes it, and what it leaves has nothing of the run. -/
theorem removed_of_step {act : Act κ} {runId : RunId} (h : ArchiveInv store)
    (hstep : act.apply store = some store') (hthere : store.runs runId ≠ none)
    (hgone : store'.runs runId = none) :
    (∀ command ∈ store'.commands, command.runId ≠ runId) ∧ store'.budgetsOf runId = [] := by
  cases act with
  | archiveRun n id cutoff timestamp fenced dryRun =>
    cases hstep
    have hcases := @archiveRun_cases _ _ store n id cutoff timestamp fenced dryRun h.commands_ids
    obtain hsame | ⟨taskId, htouched⟩ | hround := hcases
    · rw [hsame] at hgone
      exact absurd hgone hthere
    · rw [htouched] at hgone
      exact absurd hgone hthere
    · exact removed_of_round h hround hthere hgone
  | setProofs | setTask | setLocks | setOperations | setPins | insertBudget | settle =>
    cases hstep
    exact absurd hgone hthere
  | insertCommand command =>
    simp only [Act.apply, Option.bind_eq_bind, Option.bind_eq_some_iff] at hstep
    obtain ⟨_, _, _, _, heq⟩ := hstep
    cases heq
    exact absurd hgone hthere
  | startRun id taskId startedAt =>
    simp only [Act.apply, Option.bind_eq_bind, Option.bind_eq_some_iff] at hstep
    obtain ⟨_, _, heq⟩ := hstep
    cases heq
    simp only at hgone
    split at hgone
    · cases hgone
    · exact absurd hgone hthere
  | endRun id endedAt =>
    cases hstep
    simp only at hgone
    split at hgone
    · exact absurd (Option.map_eq_none_iff.mp hgone) hthere
    · exact absurd hgone hthere

/-- In every state a run of chunked archiving reaches, whatever the sizes of the chunks and
whatever happens between them, each summary's count is the sum of its counts by status and
the number of the run's records that were deleted, no record was deleted twice or is still
there, and a run goes only when nothing of it is left. -/
theorem run_archive_counts_once (h : Reachable Start Step store) :
    (∀ runId archive, store.archives runId = some archive →
      archive.commandCount = ∑ status, archive.commandStatuses status ∧
      archive.commandCount = (store.deletedOf runId).length) ∧
    (∀ runId, store.archives runId = none → store.deletedOf runId = []) ∧
    ((store.deleted ++ store.commands).map (·.id)).Nodup ∧
    ∀ (act : Act κ) (store' : RecordStore κ) (runId : RunId), act.apply store = some store' →
      store.runs runId ≠ none → store'.runs runId = none →
        (∀ command ∈ store'.commands, command.runId ≠ runId) ∧ store'.budgetsOf runId = [] := by
  have hinv : ArchiveInv store :=
    Reachable.invariant (fun _ => ArchiveInv.start) (fun _ _ hst hs => ArchiveInv.step hs hst) h
  refine ⟨?_, ?_, hinv.ids, fun act store' runId => removed_of_step hinv⟩
  · intro runId archive harchive
    have hcounted := hinv.counted runId
    rw [harchive] at hcounted
    exact ⟨hcounted.total, hcounted.1⟩
  · intro runId harchive
    have hcounted := hinv.counted runId
    rw [harchive] at hcounted
    exact hcounted

/-- An ended run with two commands and a budget. -/
def endedStore : RecordStore Nat where
  pendingProof := fun _ _ => false
  tasks := fun _ => none
  endpointLocks := fun _ _ => false
  commands := [⟨2, 1, ['r'], .failed⟩, ⟨1, 1, ['r'], .sent⟩]
  operations := []
  pinned := fun _ => false
  archives := fun _ => none
  budgets := [['r', ':', 'c']]
  runs := fun id => if id = ['r'] then some ⟨some 1, some 3, some 5⟩ else none
  deleted := []

/-- The act of one round with chunks of one. -/
def oneRow : Act Nat := .archiveRun 1 ['r'] 10 20 true false

def afterRound : RecordStore Nat := (archiveRun 1 endedStore ['r'] 10 20 true false).1

def afterLastRound : RecordStore Nat := (archiveRun 1 afterRound ['r'] 10 20 true false).1

/-- The first round counts the command sent; the second takes the other command and the
budget, and the run goes. -/
theorem run_archive_counts_once_two :
    (∀ archive, afterRound.archives ['r'] = some archive →
      archive.commandCount = ∑ status, archive.commandStatuses status ∧
      archive.commandCount = 1) ∧
    afterRound.archives ['r'] ≠ none ∧ afterLastRound.runs ['r'] = none ∧
    (∀ command ∈ afterLastRound.commands, command.runId ≠ ['r']) := by
  have hstart : Start endedStore := by
    refine ⟨fun _ => rfl, rfl, by decide, ?_⟩
    intro command hmem run hrun
    simp only [endedStore] at hmem hrun
    split at hrun
    · cases hrun
      simp only [List.mem_cons, List.not_mem_nil, or_false] at hmem
      obtain rfl | rfl := hmem <;> rfl
    · cases hrun
  have hreach : Reachable Start Step afterRound :=
    (Reachable.initial hstart).tail ⟨oneRow, rfl⟩
  have ⟨hcounts, _, _, hremoved⟩ := run_archive_counts_once hreach
  have hgone : afterLastRound.runs ['r'] = none := by decide +kernel
  refine ⟨?_, by decide +kernel, hgone, (hremoved oneRow afterLastRound ['r'] rfl ?_ hgone).1⟩
  · intro archive harchive
    have ⟨hsum, hlength⟩ := hcounts ['r'] archive harchive
    exact ⟨hsum, hlength.trans (by decide +kernel)⟩
  · decide +kernel

end CameraLogs.Common
