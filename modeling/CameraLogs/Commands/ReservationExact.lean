import CameraLogs.Commands.Reservation
import CameraLogs.Lib.Run
import Mathlib.Data.List.Nodup

/-!
# Budgets are at most once and dense

`BudgetSafe` is what every step keeps of the documents and the transactions. The counter of
a budget and the records under it move only when a transaction commits, and then the task
and the budget are as the transaction has read them (`Versioned.Seen.current`): a commit is
one more execution of the counter as it stands, whatever has happened in between. An edit
gives its commands new identifiers, so that the total of a command never changes.

`SendSafe` is about the queue: a reservation belongs to one queued command, and a write uses
it up.
-/

namespace CameraLogs.Commands

open CameraLogs.Lib
open Relation (ReflTransGen)

variable {s t : BudgetState} {db : BudgetDb} {x : ExecutionId} {r r' : Reservation}
  {tx : ReservationTx} {call : ReserveCall} {execution : Execution} {key : BudgetKey}

/-! ## Executions of one budget -/

def BudgetDb.records (db : BudgetDb) (key : BudgetKey) : List Execution :=
  db.executions.filter fun execution => execution.key = key

theorem mem_records : execution ∈ db.records key ↔ execution ∈ db.executions ∧ execution.key = key := by
  simp [BudgetDb.records]

theorem records_insert :
    (db.insert execution).records key =
      if execution.key = key then db.records key ++ [execution] else db.records key := by
  unfold BudgetDb.records BudgetDb.insert
  rw [List.filter_append]
  by_cases hk : execution.key = key
  · simp [hk]
  · simp [hk]

theorem attempts_insert :
    (db.insert execution).attempts key =
      if execution.key = key then execution.attempt else db.attempts key := by
  unfold BudgetDb.attempts BudgetDb.insert
  by_cases hk : execution.key = key
  · subst hk
    simp
  · rw [if_neg hk]
    simp [Function.update_of_ne (Ne.symm hk)]

/-- What a reservation has read when it reserves. -/
theorem reserveCallback_reserved (h : reserveCallback db call = .reserved execution) :
    ∃ command ∈ db.task.value.scheduledCommands, command.id = call.commandId ∧
      execution.id = call.executionId ∧ execution.key = (call.task.runId, call.commandId) ∧
      execution.sessionId = call.sessionId ∧
      execution.totalExecutions = command.totalExecutions ∧
      execution.attempt = db.attempts execution.key + 1 ∧
      execution.attempt ≤ execution.totalExecutions := by
  unfold reserveCallback at h
  simp only at h
  split at h
  next => cases h
  next =>
    split at h
    next => cases h
    next command hcommand =>
      split at h
      next hlt =>
        cases h
        have hmem := List.mem_of_find?_eq_some hcommand
        have hid : command.id = call.commandId := by simpa using List.find?_some hcommand
        exact ⟨command, hmem, hid, rfl, rfl, rfl, rfl, rfl, hlt⟩
      next => cases h

/-- The callback looks at the task and at the counter, and at nothing else. -/
theorem reserveCallback_congr {db' : BudgetDb} (htask : db.task = db'.task)
    (hbudget : db.budgets (call.task.runId, call.commandId) =
      db'.budgets (call.task.runId, call.commandId)) :
    reserveCallback db call = reserveCallback db' call := by
  unfold reserveCallback BudgetDb.attempts
  rw [htask, hbudget]

theorem numberCommands_ids (next : CommandId) (commands : List (String × Nat)) :
    ∀ command ∈ numberCommands next commands,
      next ≤ command.id ∧ command.id < next + commands.length := by
  induction commands generalizing next with
  | nil => exact fun command hc => nomatch hc
  | cons draft rest ih =>
    intro command hc
    rw [List.length_cons]
    rcases List.mem_cons.mp hc with rfl | hc
    · exact ⟨Nat.le_refl _, Nat.lt_add_of_pos_right (Nat.succ_pos _)⟩
    · obtain ⟨hle, hlt⟩ := ih (next + 1) command hc
      exact ⟨Nat.le_of_succ_le hle,
        Nat.lt_of_lt_of_eq hlt (Nat.succ_add_eq_add_succ next rest.length)⟩

theorem numberCommands_nodup (next : CommandId) (commands : List (String × Nat)) :
    ((numberCommands next commands).map ScheduledCommand.id).Nodup := by
  induction commands generalizing next with
  | nil => exact List.nodup_nil
  | cons draft rest ih =>
    refine List.nodup_cons.mpr ⟨?_, ih (next + 1)⟩
    intro hmem
    obtain ⟨command, hc, he⟩ := List.mem_map.mp hmem
    have hle := (numberCommands_ids (next + 1) rest command hc).1
    rw [he] at hle
    exact absurd hle (Nat.not_succ_le_self next)

/-! ## The invariant -/

structure SeenDb (seen db : BudgetDb) : Prop where
  task : Versioned.Seen seen.task db.task
  budgets : ∀ key, Versioned.Seen (seen.budgets key) (db.budgets key)

theorem seenDb_refl (db : BudgetDb) : SeenDb db db :=
  ⟨Versioned.seen_refl _, fun _ => Versioned.seen_refl _⟩

theorem SeenDb.insert {seen : BudgetDb} (h : SeenDb seen db) :
    SeenDb seen (db.insert execution) := by
  refine ⟨h.task.write, fun key => ?_⟩
  unfold BudgetDb.insert
  by_cases hk : key = execution.key
  · subst hk
    simpa using (h.budgets execution.key).write
  · simpa [Function.update_of_ne hk] using h.budgets key

/-- What the driver knows of its transaction in each phase. -/
structure PhaseOk (r : Reservation) : Prop where
  waiting : r.phase = .waiting → ∀ tx, r.tx = some tx → tx.status = .aborted
  confirmed : r.phase = .confirmed → ∃ tx, r.tx = some tx ∧ tx.status = .committed
  rejected : r.phase = .rejected → ∃ tx, r.tx = some tx ∧ tx.status = .aborted

def Reservation.committed (r : Reservation) : Prop :=
  ∃ tx, r.tx = some tx ∧ tx.status = .committed

/-- The documents: what the records say of the counters and of the configured totals. -/
structure DbSafe (db : BudgetDb) (nextCommand : CommandId) : Prop where
  ids : ∀ command ∈ db.task.value.scheduledCommands, command.id < nextCommand
  distinct : (db.task.value.scheduledCommands.map ScheduledCommand.id).Nodup
  old : ∀ execution ∈ db.executions, execution.commandId < nextCommand
  total : ∀ execution ∈ db.executions, ∀ command ∈ db.task.value.scheduledCommands,
    command.id = execution.commandId → command.totalExecutions = execution.totalExecutions
  agree : ∀ execution ∈ db.executions, ∀ other ∈ db.executions,
    execution.commandId = other.commandId → execution.totalExecutions = other.totalExecutions
  numbers : ∀ key, (db.records key).map Execution.attempt = List.range' 1 (db.attempts key)
  bound : ∀ execution ∈ db.executions, db.attempts execution.key ≤ execution.totalExecutions

structure BudgetSafe (s : BudgetState) : Prop where
  documents : DbSafe s.db s.nextCommand
  seen : ∀ x r tx, s.reservations x = some r → r.tx = some tx → SeenDb tx.snapshot s.db
  issued : ∀ x r, s.reservations x = some r → x < s.nextExecution ∧ r.call.executionId = x
  phase : ∀ x r, s.reservations x = some r → PhaseOk r
  recorded : ∀ x r, s.reservations x = some r → r.committed →
    ∃ execution ∈ s.db.executions, execution.id = x ∧ execution.sessionId = r.call.sessionId ∧
      execution.key = (r.call.task.runId, r.call.commandId)
  own : ∀ execution ∈ s.db.executions, ∃ r, s.reservations execution.id = some r ∧ r.committed

theorem budgetInitial_safe (h : BudgetInitial s) : BudgetSafe s where
  documents := {
    ids := h.commands
    distinct := h.distinct
    old := fun e he => by simp [h.executions] at he
    total := fun e he => by simp [h.executions] at he
    agree := fun e he => by simp [h.executions] at he
    numbers := fun key => by simp [BudgetDb.records, BudgetDb.attempts, h.executions, h.budgets]
    bound := fun e he => by simp [h.executions] at he }
  seen := fun x r tx hr => by simp [h.reservations] at hr
  issued := fun x r hr => by simp [h.reservations] at hr
  phase := fun x r hr => by simp [h.reservations] at hr
  recorded := fun x r hr => by simp [h.reservations] at hr
  own := fun e he => by simp [h.executions] at he

/-! ## The documents under a commit and under an edit -/

/-- One more execution, reserved on the documents as they are. -/
theorem DbSafe.insert {nextCommand : CommandId} (h : DbSafe db nextCommand)
    (hcall : reserveCallback db call = .reserved execution) :
    DbSafe (db.insert execution) nextCommand := by
  obtain ⟨command, hmem, hid, -, hkey, -, htotal, hattempt, hle⟩ := reserveCallback_reserved hcall
  have hcommand : command.id = execution.commandId := by
    have := congrArg Prod.snd hkey
    exact hid.trans this.symm
  -- the command of the new record is the one in the configuration
  have hconfig : ∀ c ∈ db.task.value.scheduledCommands, c.id = execution.commandId →
      c.totalExecutions = execution.totalExecutions := by
    intro c hc he
    have hsame : c = command :=
      List.inj_on_of_nodup_map h.distinct hc hmem (he.trans hcommand.symm)
    rw [hsame, htotal]
  have hprevious : ∀ e ∈ db.executions, e.commandId = execution.commandId →
      e.totalExecutions = execution.totalExecutions := by
    intro e he hc
    rw [htotal]
    exact (h.total e he command hmem (hcommand.trans hc.symm)).symm
  have hcases : ∀ e ∈ (db.insert execution).executions, e ∈ db.executions ∨ e = execution := by
    intro e he
    rcases List.mem_append.mp he with he | he
    · exact Or.inl he
    · exact Or.inr (List.mem_singleton.mp he)
  exact {
    ids := h.ids
    distinct := h.distinct
    old := by
      intro e he
      rcases hcases e he with he | rfl
      · exact h.old e he
      · exact hcommand ▸ h.ids command hmem
    total := by
      intro e he
      rcases hcases e he with he | rfl
      · exact h.total e he
      · exact hconfig
    agree := by
      intro e he e' he' hc
      rcases hcases e he with hold | rfl
      · rcases hcases e' he' with hold' | rfl
        · exact h.agree e hold e' hold' hc
        · exact hprevious e hold hc
      · rcases hcases e' he' with hold' | rfl
        · exact (hprevious e' hold' hc.symm).symm
        · rfl
    numbers := by
      intro key
      rw [records_insert, attempts_insert]
      split
      next hk =>
        subst hk
        rw [List.map_append, h.numbers, hattempt, List.range'_1_concat]
        simp [hattempt, Nat.add_comm]
      next => exact h.numbers key
    bound := by
      intro e he
      rw [attempts_insert]
      split
      next hk =>
        rcases hcases e he with he | rfl
        · have hc : e.commandId = execution.commandId := (congrArg Prod.snd hk).symm
          rw [hprevious e he hc]
          exact hle
        · exact hle
      next hk =>
        rcases hcases e he with he | rfl
        · exact h.bound e he
        · exact absurd rfl hk }

/-- The task's document is written, with the commands it had or with new ones. -/
theorem DbSafe.write {next next' : CommandId} {doc : CommandTask} (h : DbSafe db next)
    (hle : next ≤ next') (hids : ∀ command ∈ doc.scheduledCommands, command.id < next')
    (hdistinct : (doc.scheduledCommands.map ScheduledCommand.id).Nodup)
    (hnew : ∀ command ∈ doc.scheduledCommands,
      command ∈ db.task.value.scheduledCommands ∨ next ≤ command.id) :
    DbSafe { db with task := db.task.write doc } next' where
  ids := hids
  distinct := hdistinct
  old := fun execution he => Nat.lt_of_lt_of_le (h.old execution he) hle
  total := by
    intro execution he command hc hid
    rcases hnew command hc with hc | hc
    · exact h.total execution he command hc hid
    · exact absurd (hid ▸ h.old execution he) (Nat.not_lt_of_le hc)
  agree := h.agree
  numbers := h.numbers
  bound := h.bound

/-! ## What a step does to a reservation -/

/-- A step of the driver or of the server that commits nothing. -/
structure Moves (db : BudgetDb) (r r' : Reservation) : Prop where
  call : r'.call = r.call
  snapshot : ∀ tx', r'.tx = some tx' →
    tx'.snapshot = db ∨ ∃ tx, r.tx = some tx ∧ tx'.snapshot = tx.snapshot
  committed : r'.committed ↔ r.committed
  phase : PhaseOk r'
  confirmed : r.phase = .confirmed → r'.phase = .confirmed
  rejected : r.phase = .rejected → r'.phase = .rejected

theorem committed_status (htx : r.tx = some tx) : r.committed ↔ tx.status = .committed := by
  unfold Reservation.committed
  rw [htx]
  simp

theorem beginAct_cases (h : beginAct x s = some t) :
    ∃ r r', s.reservations x = some r ∧ t = s.setReservation x r' ∧
      (PhaseOk r → Moves s.db r r') := by
  simp only [beginAct, bind, Option.bind_eq_some_iff, pure] at h
  obtain ⟨r, hr, h⟩ := h
  split at h
  next => cases h
  next hphase =>
    have hwaiting : r.phase = .waiting := Decidable.not_not.mp hphase
    cases h
    refine ⟨r, _, hr, rfl, fun hok => ?_⟩
    exact {
      call := rfl
      snapshot := fun tx' htx => Or.inl (by cases htx; rfl)
      committed := by
        -- the transaction of an earlier attempt has been aborted
        refine ⟨fun hc => ?_, fun hc => ?_⟩
        · obtain ⟨tx, htx, hst⟩ := hc
          cases htx
          cases hst
        · obtain ⟨tx, htx, hst⟩ := hc
          rw [hok.waiting hwaiting tx htx] at hst
          cases hst
      phase := ⟨nofun, nofun, nofun⟩
      confirmed := fun he => by rw [hwaiting] at he; cases he
      rejected := fun he => by rw [hwaiting] at he; cases he }

theorem finishAct_cases (h : finishAct x s = some t) :
    ∃ r r', s.reservations x = some r ∧ t = s.setReservation x r' ∧
      (PhaseOk r → Moves s.db r r') := by
  simp only [finishAct, bind, Option.bind_eq_some_iff, pure] at h
  obtain ⟨r, hr, tx, htx, h⟩ := h
  split at h
  next => cases h
  next hguard =>
    obtain ⟨hworking, hactive⟩ : r.phase = .working ∧ tx.status = .active := by tauto
    have hmoves : ∀ phase status, status ≠ .committed → phase ≠ .waiting → phase ≠ .confirmed →
        (phase = .rejected → status = .aborted) →
        Moves s.db r { r with phase, tx := some { tx with status } } := by
      intro phase status hstatus hwait hconf hrej
      exact {
        call := rfl
        snapshot := fun tx' htx' => Or.inr ⟨tx, htx, by cases htx'; rfl⟩
        committed := by
          rw [committed_status htx, committed_status rfl, hactive]
          exact ⟨fun he => absurd he hstatus, nofun⟩
        phase := ⟨fun he => absurd he hwait, fun he => absurd he hconf,
          fun he => ⟨_, rfl, hrej he⟩⟩
        confirmed := fun he => by rw [hworking] at he; cases he
        rejected := fun he => by rw [hworking] at he; cases he }
    split at h
    next =>
      cases h
      exact ⟨r, _, hr, rfl, fun _ => hmoves _ _ nofun nofun nofun nofun⟩
    next =>
      cases h
      exact ⟨r, _, hr, rfl, fun _ => hmoves _ _ nofun nofun nofun (fun _ => rfl)⟩
    next =>
      cases h
      exact ⟨r, _, hr, rfl, fun _ => hmoves _ _ nofun nofun nofun (fun _ => rfl)⟩

/-- A transaction that is still open is aborted; its driver does not know yet. -/
theorem moves_aborted (htx : r.tx = some tx)
    (hopen : tx.status = .active ∨ tx.status = .requested) (hok : PhaseOk r) :
    Moves db r { r with tx := some { tx with status := .aborted } } := by
  have hnot : ¬ r.committed := by
    rw [committed_status htx]
    intro hc
    rcases hopen with ho | ho <;> rw [ho] at hc <;> cases hc
  exact {
    call := rfl
    snapshot := fun tx' htx' => Or.inr ⟨tx, htx, by cases htx'; rfl⟩
    committed := by
      rw [committed_status rfl]
      exact ⟨nofun, fun hc => absurd hc hnot⟩
    phase := ⟨fun _ tx' htx' => by cases htx'; rfl,
      fun he => absurd (hok.confirmed he) hnot, fun _ => ⟨_, rfl, rfl⟩⟩
    confirmed := id
    rejected := id }

theorem abortAct_cases (h : abortAct x s = some t) :
    ∃ r r', s.reservations x = some r ∧ t = s.setReservation x r' ∧
      (PhaseOk r → Moves s.db r r') := by
  simp only [abortAct, bind, Option.bind_eq_some_iff, pure] at h
  obtain ⟨r, hr, tx, htx, h⟩ := h
  split at h
  next hopen =>
    cases h
    exact ⟨r, _, hr, rfl, moves_aborted htx hopen⟩
  next => cases h

/-- The driver or its caller goes on; the transaction is as it was. -/
theorem moves_phase {phase : ReservationPhase}
    (hbefore : r.phase ≠ .confirmed ∧ r.phase ≠ .rejected)
    (hwaiting : phase = .waiting → ∀ tx, r.tx = some tx → tx.status = .aborted)
    (hconfirmed : phase = .confirmed → r.committed) (hrejected : phase ≠ .rejected) :
    Moves db r { r with phase } where
  call := rfl
  snapshot := fun tx' htx' => Or.inr ⟨tx', htx', rfl⟩
  committed := Iff.rfl
  phase := ⟨hwaiting, hconfirmed, fun he => absurd he hrejected⟩
  confirmed := fun he => absurd he hbefore.1
  rejected := fun he => absurd he hbefore.2

theorem learnAct_cases (h : learnAct x s = some t) :
    ∃ r r', s.reservations x = some r ∧ t = s.setReservation x r' ∧
      (PhaseOk r → Moves s.db r r') := by
  simp only [learnAct, bind, Option.bind_eq_some_iff, pure] at h
  obtain ⟨r, hr, tx, htx, h⟩ := h
  split at h
  next => cases h
  next hguard =>
    have hbefore : r.phase ≠ .confirmed ∧ r.phase ≠ .rejected := by
      cases hp : r.phase <;> simp_all
    split at h
    next hst =>
      cases h
      exact ⟨r, _, hr, rfl, fun _ =>
        moves_phase hbefore nofun (fun _ => ⟨tx, htx, hst⟩) nofun⟩
    next hst =>
      cases h
      refine ⟨r, _, hr, rfl, fun _ => moves_phase hbefore (fun _ tx' htx' => ?_) nofun nofun⟩
      rw [htx, Option.some.injEq] at htx'
      exact htx' ▸ hst
    next => cases h
    next => cases h

theorem giveUpAct_cases (h : giveUpAct x s = some t) :
    ∃ r r', s.reservations x = some r ∧ t = s.setReservation x r' ∧
      (PhaseOk r → Moves s.db r r') := by
  simp only [giveUpAct, bind, Option.bind_eq_some_iff, pure] at h
  obtain ⟨r, hr, h⟩ := h
  split at h
  next hguard =>
    cases h
    have hbefore : r.phase ≠ .confirmed ∧ r.phase ≠ .rejected := by
      rcases hguard with hp | hp | hp <;> simp [hp]
    exact ⟨r, _, hr, rfl, fun _ => moves_phase hbefore nofun nofun nofun⟩
  next => cases h

/-- A commit that takes effect reserves on the documents as they are. -/
theorem commitAct_cases (h : commitAct x s = some t) (hseen : ∀ r tx,
    s.reservations x = some r → r.tx = some tx → SeenDb tx.snapshot s.db) :
    ∃ r, s.reservations x = some r ∧
      ((∃ r', t = s.setReservation x r' ∧ (PhaseOk r → Moves s.db r r')) ∨
        ∃ tx execution, r.tx = some tx ∧ tx.status = .requested ∧
          reserveCallback s.db r.call = .reserved execution ∧
          t = { s.setReservation x { r with tx := some { tx with status := .committed } } with
            db := s.db.insert execution }) := by
  simp only [commitAct, bind, Option.bind_eq_some_iff, pure] at h
  obtain ⟨r, hr, tx, htx, h⟩ := h
  refine ⟨r, hr, ?_⟩
  split at h
  next => cases h
  next hst =>
    have hrequested : tx.status = .requested := Decidable.not_not.mp hst
    split at h
    next execution hcall =>
      split at h
      next hsame =>
        cases h
        refine Or.inr ⟨tx, execution, htx, hrequested, ?_, rfl⟩
        have hs := hseen r tx hr htx
        obtain ⟨_, _, _, _, hkey, _⟩ := reserveCallback_reserved hcall
        simp only [ReservationTx.unwritten, hkey, Bool.decide_and, Bool.and_eq_true,
          decide_eq_true_eq] at hsame
        rw [← hcall]
        exact (reserveCallback_congr (hs.task.current hsame.1)
          ((hs.budgets _).current hsame.2)).symm
      next =>
        cases h
        exact Or.inl ⟨_, rfl, moves_aborted htx (Or.inr hrequested)⟩
    next => cases h
    next => cases h

/-! ## The documents along a run -/

theorem setReservation_cases {y : ExecutionId} {q : Reservation}
    (h : (s.setReservation x r').reservations y = some q) :
    y = x ∧ q = r' ∨ y ≠ x ∧ s.reservations y = some q := by
  by_cases hy : y = x
  · subst hy
    simp only [BudgetState.setReservation, Function.update_self, Option.some.injEq] at h
    exact Or.inl ⟨rfl, h.symm⟩
  · simp only [BudgetState.setReservation, Function.update_of_ne hy] at h
    exact Or.inr ⟨hy, h⟩

theorem BudgetSafe.moves (h : BudgetSafe s) (hr : s.reservations x = some r)
    (hm : Moves s.db r r') : BudgetSafe (s.setReservation x r') where
  documents := h.documents
  seen := by
    intro y q tx' hq htx
    rcases setReservation_cases hq with ⟨rfl, rfl⟩ | ⟨-, hq⟩
    · rcases hm.snapshot tx' htx with hs | ⟨tx, htx', hs⟩
      · exact hs ▸ seenDb_refl _
      · exact hs ▸ h.seen y r tx hr htx'
    · exact h.seen y q tx' hq htx
  issued := by
    intro y q hq
    rcases setReservation_cases hq with ⟨rfl, rfl⟩ | ⟨-, hq⟩
    · exact hm.call ▸ h.issued y r hr
    · exact h.issued y q hq
  phase := by
    intro y q hq
    rcases setReservation_cases hq with ⟨rfl, rfl⟩ | ⟨-, hq⟩
    · exact hm.phase
    · exact h.phase y q hq
  recorded := by
    intro y q hq hc
    rcases setReservation_cases hq with ⟨rfl, rfl⟩ | ⟨-, hq⟩
    · exact hm.call ▸ h.recorded y r hr (hm.committed.mp hc)
    · exact h.recorded y q hq hc
  own := by
    intro e he
    obtain ⟨q, hq, hc⟩ := h.own e he
    by_cases hy : e.id = x
    · rw [hy, hr, Option.some.injEq] at hq
      refine ⟨r', ?_, hm.committed.mpr (hq ▸ hc)⟩
      simp [BudgetState.setReservation, hy]
    · refine ⟨q, ?_, hc⟩
      simpa [BudgetState.setReservation, Function.update_of_ne hy] using hq

theorem BudgetSafe.commit (h : BudgetSafe s) (hr : s.reservations x = some r)
    (htx : r.tx = some tx) (hst : tx.status = .requested)
    (hcall : reserveCallback s.db r.call = .reserved execution) :
    BudgetSafe { s.setReservation x { r with tx := some { tx with status := .committed } } with
      db := s.db.insert execution } := by
  obtain ⟨command, -, -, hid, hkey, hsession, -⟩ := reserveCallback_reserved hcall
  have hx : execution.id = x := hid.trans (h.issued x r hr).2
  have hok := h.phase x r hr
  have hnot : ¬ r.committed := by
    rw [committed_status htx, hst]
    nofun
  have hlast : execution ∈ (s.db.insert execution).executions :=
    List.mem_append_right _ (List.mem_singleton_self _)
  exact {
    documents := h.documents.insert hcall
    seen := by
      intro y q tx' hq htx'
      rcases setReservation_cases hq with ⟨rfl, rfl⟩ | ⟨-, hq⟩
      · cases htx'
        exact (h.seen y r tx hr htx).insert
      · exact (h.seen y q tx' hq htx').insert
    issued := by
      intro y q hq
      rcases setReservation_cases hq with ⟨rfl, rfl⟩ | ⟨-, hq⟩
      · exact h.issued y r hr
      · exact h.issued y q hq
    phase := by
      intro y q hq
      rcases setReservation_cases hq with ⟨rfl, rfl⟩ | ⟨-, hq⟩
      · refine ⟨fun hp => ?_, fun _ => ⟨_, rfl, rfl⟩, fun hp => ?_⟩
        · have ha := hok.waiting hp tx htx
          rw [hst] at ha
          cases ha
        · obtain ⟨tx', htx', ha⟩ := hok.rejected hp
          rw [htx, Option.some.injEq] at htx'
          rw [← htx', hst] at ha
          cases ha
      · exact h.phase y q hq
    recorded := by
      intro y q hq hc
      rcases setReservation_cases hq with ⟨rfl, rfl⟩ | ⟨-, hq⟩
      · exact ⟨execution, hlast, hx, hsession, hkey⟩
      · obtain ⟨e, he, hrest⟩ := h.recorded y q hq hc
        exact ⟨e, List.mem_append_left _ he, hrest⟩
    own := by
      intro e he
      rcases List.mem_append.mp he with he | he
      · obtain ⟨q, hq, hc⟩ := h.own e he
        have hne : e.id ≠ x := by
          intro heq
          rw [heq, hr, Option.some.injEq] at hq
          exact hnot (hq ▸ hc)
        exact ⟨q, by simpa [BudgetState.setReservation, Function.update_of_ne hne] using hq, hc⟩
      · have he' : e = execution := List.mem_singleton.mp he
        exact ⟨_, by rw [he', hx]; exact Function.update_self .., ⟨_, rfl, rfl⟩⟩ }

theorem SeenDb.task_write {seen : BudgetDb} {doc : CommandTask} (h : SeenDb seen db) :
    SeenDb seen { db with task := db.task.write doc } :=
  ⟨h.task.write, h.budgets⟩

/-- The task's document is written by another component. -/
theorem BudgetSafe.write {doc : CommandTask} {next : CommandId} (h : BudgetSafe s)
    (hdoc : DbSafe { s.db with task := s.db.task.write doc } next) :
    BudgetSafe { s with
      db := { s.db with task := s.db.task.write doc }
      nextCommand := next } where
  documents := hdoc
  seen := fun x r tx hr htx => (h.seen x r tx hr htx).task_write
  issued := h.issued
  phase := h.phase
  recorded := h.recorded
  own := h.own

/-- A reservation begins. -/
theorem BudgetSafe.issue (h : BudgetSafe s) (hcall : call.executionId = s.nextExecution) :
    BudgetSafe { s.setReservation s.nextExecution ⟨call, .waiting, none⟩ with
      nextExecution := s.nextExecution + 1 } where
  documents := h.documents
  seen := by
    intro y q tx' hq htx
    rcases setReservation_cases hq with ⟨rfl, rfl⟩ | ⟨-, hq⟩
    · cases htx
    · exact h.seen y q tx' hq htx
  issued := by
    intro y q hq
    rcases setReservation_cases hq with ⟨rfl, rfl⟩ | ⟨-, hq⟩
    · exact ⟨Nat.lt_succ_self _, hcall⟩
    · exact ⟨Nat.lt_succ_of_lt (h.issued y q hq).1, (h.issued y q hq).2⟩
  phase := by
    intro y q hq
    rcases setReservation_cases hq with ⟨rfl, rfl⟩ | ⟨-, hq⟩
    · refine ⟨fun _ tx htx => ?_, fun hphase => ?_, fun hphase => ?_⟩
      · cases htx
      · cases hphase
      · cases hphase
    · exact h.phase y q hq
  recorded := by
    intro y q hq hc
    rcases setReservation_cases hq with ⟨rfl, rfl⟩ | ⟨-, hq⟩
    · obtain ⟨tx, htx, -⟩ := hc
      cases htx
    · exact h.recorded y q hq hc
  own := by
    intro e he
    obtain ⟨q, hq, hc⟩ := h.own e he
    have hne : e.id ≠ s.nextExecution := Nat.ne_of_lt (h.issued _ q hq).1
    exact ⟨q, by simpa [BudgetState.setReservation, Function.update_of_ne hne] using hq, hc⟩

/-! ## The queue -/

/-- The execution a queued command is being reserved or has been authorized under. -/
def SendStage.under : SendStage → Option ExecutionId
  | .reserving x | .authorized x => some x
  | _ => none

/-- The reservation is for this queued command, in its session and run. -/
structure Serves (r : Reservation) (item : SendItem) : Prop where
  command : r.call.commandId = item.commandId
  session : r.call.sessionId = item.sessionId
  task : r.call.task.id = item.taskId
  run : r.call.task.runId = item.runId

theorem dispatchAct_cases {i : ItemId} {flags : SenderFlags} (h : dispatchAct i flags s = some t) :
    ∃ item stage, s.items i = some item ∧ item.stage = .queued ∧ stage.under = none ∧
      t = s.setStage i item stage := by
  simp only [dispatchAct, bind, Option.bind_eq_some_iff, pure] at h
  obtain ⟨item, hi, h⟩ := h
  split at h
  next => cases h
  next hst =>
    cases h
    refine ⟨item, _, hi, Decidable.not_not.mp hst, ?_, rfl⟩
    split <;> rfl

theorem reserveAct_cases {i : ItemId} {guard : ReserveGuard} (h : reserveAct i guard s = some t) :
    ∃ item, s.items i = some item ∧ item.stage = .ready ∧
      (t = s.setStage i item .finished ∨
        ∃ call, call.executionId = s.nextExecution ∧ Serves ⟨call, .waiting, none⟩ item ∧
          t = { (s.setStage i item (.reserving s.nextExecution)).setReservation s.nextExecution
            ⟨call, .waiting, none⟩ with nextExecution := s.nextExecution + 1 }) := by
  simp only [reserveAct, bind, Option.bind_eq_some_iff, pure] at h
  obtain ⟨item, hi, h⟩ := h
  split at h
  next => cases h
  next hst =>
    refine ⟨item, hi, Decidable.not_not.mp hst, ?_⟩
    split at h
    next hguard =>
      cases h
      simp only [ReserveGuard.accepts, Bool.and_eq_true, decide_eq_true_eq] at hguard
      obtain ⟨⟨⟨-, htask⟩, hrun⟩, -⟩ := hguard
      exact Or.inr ⟨_, rfl, ⟨rfl, rfl, htask.symm, hrun.symm⟩, rfl⟩
    next =>
      cases h
      exact Or.inl rfl

theorem answerAct_cases {i : ItemId} (h : answerAct i s = some t) :
    ∃ item y r stage, s.items i = some item ∧ item.stage = .reserving y ∧
      s.reservations y = some r ∧
      (stage = .authorized y ∧ r.phase = .confirmed ∨ stage = .finished) ∧
      t = s.setStage i item stage := by
  simp only [answerAct, bind, Option.bind_eq_some_iff, pure] at h
  obtain ⟨item, hi, h⟩ := h
  split at h
  next y hst =>
    obtain ⟨r, hr, h⟩ := Option.bind_eq_some_iff.mp h
    split at h
    next hph =>
      cases h
      exact ⟨item, y, r, _, hi, hst, hr, Or.inl ⟨rfl, hph⟩, rfl⟩
    next =>
      cases h
      exact ⟨item, y, r, _, hi, hst, hr, Or.inr rfl, rfl⟩
    next =>
      cases h
      exact ⟨item, y, r, _, hi, hst, hr, Or.inr rfl, rfl⟩
    next => cases h
  next => cases h

theorem deviceWriteAct_cases {i : ItemId} {flags : SenderFlags}
    (h : deviceWriteAct i flags s = some t) :
    ∃ item y, s.items i = some item ∧ item.stage = .authorized y ∧
      (t = s.setStage i item .finished ∨
        t = { s.setStage i item .finished with writes := s.writes ++ [(i, y)] }) := by
  simp only [deviceWriteAct, bind, Option.bind_eq_some_iff, pure] at h
  obtain ⟨item, hi, h⟩ := h
  split at h
  next y hst =>
    refine ⟨item, y, hi, hst, ?_⟩
    split at h
    next =>
      cases h
      exact Or.inr rfl
    next =>
      cases h
      exact Or.inl rfl
  next => cases h

/-! ## One step -/

/-- What a step does to the documents and the reservations. -/
inductive Change (s t : BudgetState) : Prop
  /-- Another component has written the task. -/
  | written (doc : CommandTask) (hbudgets : t.db = { s.db with task := s.db.task.write doc })
      (hres : t.reservations = s.reservations)
  | issued (call : ReserveCall) (hdb : t.db = s.db)
      (hres : t.reservations = Function.update s.reservations s.nextExecution
        (some ⟨call, .waiting, none⟩))
  | moved (x : ExecutionId) (r r' : Reservation) (hr : s.reservations x = some r)
      (hm : Moves s.db r r') (hdb : t.db = s.db)
      (hres : t.reservations = Function.update s.reservations x (some r'))
  | committed (x : ExecutionId) (r : Reservation) (tx : ReservationTx) (execution : Execution)
      (hr : s.reservations x = some r) (htx : r.tx = some tx) (hst : tx.status = .requested)
      (hcall : reserveCallback s.db r.call = .reserved execution)
      (hdb : t.db = s.db.insert execution)
      (hres : t.reservations = Function.update s.reservations x
        (some { r with tx := some { tx with status := .committed } }))
  /-- Only the queue. -/
  | queue (hdb : t.db = s.db) (hres : t.reservations = s.reservations)

/-- The invariant is not about the queue. -/
theorem BudgetSafe.queue (h : BudgetSafe s) (hdb : t.db = s.db)
    (hres : t.reservations = s.reservations) (hcommand : t.nextCommand = s.nextCommand)
    (hexecution : t.nextExecution = s.nextExecution) : BudgetSafe t where
  documents := by rw [hdb, hcommand]; exact h.documents
  seen := by rw [hdb, hres]; exact h.seen
  issued := by rw [hres, hexecution]; exact h.issued
  phase := by rw [hres]; exact h.phase
  recorded := by rw [hdb, hres]; exact h.recorded
  own := by rw [hdb, hres]; exact h.own

theorem BudgetSafe.moved (h : BudgetSafe s)
    (hcase : ∃ r r', s.reservations x = some r ∧ t = s.setReservation x r' ∧
      (PhaseOk r → Moves s.db r r')) : BudgetSafe t ∧ Change s t := by
  obtain ⟨r, r', hr, rfl, hm⟩ := hcase
  have hmoves := hm (h.phase x r hr)
  exact ⟨h.moves hr hmoves, .moved x r r' hr hmoves rfl rfl⟩

theorem BudgetStep.safe (hst : BudgetStep s t) (h : BudgetSafe s) : BudgetSafe t ∧ Change s t := by
  obtain ⟨act, ha⟩ := hst
  have hqueue : ∀ {i item stage}, t = s.setStage i item stage → BudgetSafe t ∧ Change s t := by
    intro i item stage ht
    subst ht
    exact ⟨h.queue rfl rfl rfl rfl, .queue rfl rfl⟩
  cases act with
  | task doc =>
    cases ha
    refine ⟨h.write (h.documents.write (Nat.le_refl _) h.documents.ids h.documents.distinct ?_),
      .written _ rfl rfl⟩
    exact fun command hc => Or.inl hc
  | edit commands =>
    cases ha
    have hids := numberCommands_ids s.nextCommand commands
    refine ⟨h.write (h.documents.write (Nat.le_add_right _ _) (fun c hc => (hids c hc).2)
      (numberCommands_nodup _ _) (fun c hc => Or.inr (hids c hc).1)), .written _ rfl rfl⟩
  | enqueue taskId runId sessionId commandId =>
    cases ha
    exact ⟨h.queue rfl rfl rfl rfl, .queue rfl rfl⟩
  | dispatch i flags =>
    obtain ⟨item, stage, -, -, -, ht⟩ := dispatchAct_cases ha
    exact hqueue ht
  | reserve i guard =>
    obtain ⟨item, -, -, ht | ⟨call, hcall, -, ht⟩⟩ := reserveAct_cases ha
    · exact hqueue ht
    · subst ht
      have hs := h.queue (t := s.setStage i item (.reserving s.nextExecution)) rfl rfl rfl rfl
      exact ⟨hs.issue hcall, .issued call rfl rfl⟩
  | begin_ x => exact h.moved (beginAct_cases ha)
  | finish x => exact h.moved (finishAct_cases ha)
  | abort x => exact h.moved (abortAct_cases ha)
  | learn x => exact h.moved (learnAct_cases ha)
  | giveUp x => exact h.moved (giveUpAct_cases ha)
  | commit x =>
    obtain ⟨r, hr, ⟨r', ht, hm⟩ | ⟨tx, execution, htx, hst, hcall, ht⟩⟩ :=
      commitAct_cases ha (fun r tx => h.seen x r tx)
    · exact h.moved ⟨r, r', hr, ht, hm⟩
    · subst ht
      exact ⟨h.commit hr htx hst hcall, .committed x r tx execution hr htx hst hcall rfl rfl⟩
  | answer i =>
    obtain ⟨item, y, r, stage, -, -, -, -, ht⟩ := answerAct_cases ha
    exact hqueue ht
  | write i flags =>
    obtain ⟨item, y, -, -, ht | ht⟩ := deviceWriteAct_cases ha
    · exact hqueue ht
    · subst ht
      exact ⟨h.queue rfl rfl rfl rfl, .queue rfl rfl⟩

theorem budget_safe (h : Reachable BudgetInitial BudgetStep s) : BudgetSafe s :=
  h.invariant (fun _ h₀ => budgetInitial_safe h₀) (fun _ _ hst hs => (hst.safe hs).1)

/-- A reservation stays, with its call; a confirmed or rejected one stays so. -/
theorem Change.kept (h : Change s t) (hsafe : BudgetSafe s) (hr : s.reservations x = some r) :
    ∃ r', t.reservations x = some r' ∧ r'.call = r.call ∧
      (r.phase = .confirmed → r'.phase = .confirmed) ∧
      (r.phase = .rejected → r'.phase = .rejected) := by
  have hsame : t.reservations = s.reservations → ∃ r', t.reservations x = some r' ∧
      r'.call = r.call ∧ (r.phase = .confirmed → r'.phase = .confirmed) ∧
      (r.phase = .rejected → r'.phase = .rejected) := by
    intro hres
    exact ⟨r, hres ▸ hr, rfl, id, id⟩
  -- a step on another reservation leaves this one
  have hother : ∀ {y q}, x ≠ y → t.reservations = Function.update s.reservations y q →
      t.reservations x = some r := by
    intro y q hne hres
    rw [hres, Function.update_of_ne hne]
    exact hr
  cases h with
  | written doc _ hres => exact hsame hres
  | queue _ hres => exact hsame hres
  | issued call _ hres =>
    have hne := Nat.ne_of_lt (hsafe.issued x r hr).1
    exact ⟨r, hother hne hres, rfl, id, id⟩
  | moved y q q' hq hm _ hres =>
    by_cases hy : x = y
    · subst hy
      rw [hr, Option.some.injEq] at hq
      subst hq
      exact ⟨q', by rw [hres, Function.update_self], hm.call, hm.confirmed, hm.rejected⟩
    · exact ⟨r, hother hy hres, rfl, id, id⟩
  | committed y q tx execution hq _ _ _ _ hres =>
    by_cases hy : x = y
    · subst hy
      rw [hr, Option.some.injEq] at hq
      subst hq
      exact ⟨{ r with tx := some { tx with status := .committed } },
        by rw [hres, Function.update_self], rfl, id, id⟩
    · exact ⟨r, hother hy hres, rfl, id, id⟩

/-! ## The queue along a run -/

/-- `x` is reserved for the queued command, and confirmed. -/
structure ConfirmedFor (s : BudgetState) (item : SendItem) (x : ExecutionId) : Prop where
  confirmed : ∃ r, s.reservations x = some r ∧ Serves r item ∧ r.phase = .confirmed

structure SendSafe (s : BudgetState) : Prop where
  fresh : ∀ i item, s.items i = some item → i < s.nextItem
  owned : ∀ i item x, s.items i = some item → item.stage.under = some x →
    ∃ r, s.reservations x = some r ∧ Serves r item
  authorized : ∀ i item x, s.items i = some item → item.stage = .authorized x →
    ConfirmedFor s item x
  apart : ∀ i j item item' x, s.items i = some item → s.items j = some item' →
    item.stage.under = some x → item'.stage.under = some x → i = j
  written : ∀ i x, (i, x) ∈ s.writes →
    ∃ item, s.items i = some item ∧ item.stage = .finished ∧ ConfirmedFor s item x
  used : ∀ i x, (i, x) ∈ s.writes → ∀ j item, s.items j = some item → item.stage.under ≠ some x
  once : (s.writes.map Prod.snd).Nodup

theorem budgetInitial_send (h : BudgetInitial s) : SendSafe s where
  fresh := fun i item hi => by simp [h.items] at hi
  owned := fun i item x hi => by simp [h.items] at hi
  authorized := fun i item x hi => by simp [h.items] at hi
  apart := fun i j item item' x hi => by simp [h.items] at hi
  written := fun i x hw => by simp [h.writes] at hw
  used := fun i x hw => by simp [h.writes] at hw
  once := by simp [h.writes]

theorem Serves.congr {item : SendItem} (h : Serves r item) (hcall : r'.call = r.call) :
    Serves r' item :=
  ⟨hcall ▸ h.command, hcall ▸ h.session, hcall ▸ h.task, hcall ▸ h.run⟩

theorem ConfirmedFor.kept {item : SendItem} (h : ConfirmedFor s item x) (hc : Change s t)
    (hsafe : BudgetSafe s) : ConfirmedFor t item x := by
  obtain ⟨r, hr, hs, hph⟩ := h.confirmed
  obtain ⟨r', hr', hcall, hkeep, -⟩ := hc.kept hsafe hr
  exact ⟨r', hr', hs.congr hcall, hkeep hph⟩

/-- A step that leaves the queue alone. -/
theorem SendSafe.change (h : SendSafe s) (hc : Change s t) (hsafe : BudgetSafe s)
    (hitems : t.items = s.items) (hnext : t.nextItem = s.nextItem) (hwrites : t.writes = s.writes) :
    SendSafe t where
  fresh := by rw [hitems, hnext]; exact h.fresh
  owned := by
    intro i item x hi hu
    obtain ⟨r, hr, hs⟩ := h.owned i item x (hitems ▸ hi) hu
    obtain ⟨r', hr', hcall, -⟩ := hc.kept hsafe hr
    exact ⟨r', hr', hs.congr hcall⟩
  authorized := fun i item x hi hst => (h.authorized i item x (hitems ▸ hi) hst).kept hc hsafe
  apart := by rw [hitems]; exact h.apart
  written := by
    intro i x hw
    obtain ⟨item, hi, hst, hconf⟩ := h.written i x (hwrites ▸ hw)
    exact ⟨item, hitems ▸ hi, hst, hconf.kept hc hsafe⟩
  used := by rw [hwrites, hitems]; exact h.used
  once := by rw [hwrites]; exact h.once

theorem setStage_cases {i j : ItemId} {item item' : SendItem} {stage : SendStage}
    (h : (s.setStage i item stage).items j = some item') :
    j = i ∧ item' = { item with stage } ∨ j ≠ i ∧ s.items j = some item' := by
  by_cases hj : j = i
  · subst hj
    simp only [BudgetState.setStage, Function.update_self, Option.some.injEq] at h
    exact Or.inl ⟨rfl, h.symm⟩
  · simp only [BudgetState.setStage, Function.update_of_ne hj] at h
    exact Or.inr ⟨hj, h⟩

/-- A queued command comes to a stage whose reservation is for it and for no other. -/
theorem SendSafe.setStage {i : ItemId} {item : SendItem} {stage : SendStage} (h : SendSafe s)
    (hi : s.items i = some item) (hopen : item.stage ≠ .finished)
    (howned : ∀ x, stage.under = some x → ∃ r, s.reservations x = some r ∧ Serves r item)
    (hapart : ∀ x, stage.under = some x → ∀ j item', s.items j = some item' →
      item'.stage.under = some x → j = i)
    (hused : ∀ x, stage.under = some x → ∀ j, (j, x) ∉ s.writes)
    (hauth : ∀ x, stage = .authorized x → ConfirmedFor s item x) :
    SendSafe (s.setStage i item stage) where
  fresh := by
    intro j item' hj
    rcases setStage_cases hj with ⟨rfl, rfl⟩ | ⟨-, hj⟩
    · exact h.fresh j item hi
    · exact h.fresh j item' hj
  owned := by
    intro j item' x hj hu
    rcases setStage_cases hj with ⟨rfl, rfl⟩ | ⟨-, hj⟩
    · obtain ⟨r, hr, hs⟩ := howned x hu
      exact ⟨r, hr, hs.command, hs.session, hs.task, hs.run⟩
    · exact h.owned j item' x hj hu
  authorized := by
    intro j item' x hj hst
    rcases setStage_cases hj with ⟨rfl, rfl⟩ | ⟨-, hj⟩
    · obtain ⟨r, hr, hs, hph⟩ := (hauth x hst).confirmed
      exact ⟨r, hr, ⟨hs.command, hs.session, hs.task, hs.run⟩, hph⟩
    · exact ⟨(h.authorized j item' x hj hst).confirmed⟩
  apart := by
    intro j k item₁ item₂ x hj hk hu₁ hu₂
    rcases setStage_cases hj with ⟨hji, rfl⟩ | ⟨-, hj'⟩
    · rcases setStage_cases hk with ⟨hki, rfl⟩ | ⟨-, hk'⟩
      · exact hji.trans hki.symm
      · exact hji.trans (hapart x hu₁ k item₂ hk' hu₂).symm
    · rcases setStage_cases hk with ⟨hki, rfl⟩ | ⟨-, hk'⟩
      · exact (hapart x hu₂ j item₁ hj' hu₁).trans hki.symm
      · exact h.apart j k item₁ item₂ x hj' hk' hu₁ hu₂
  written := by
    intro j x hw
    obtain ⟨item', hj, hst, hconf⟩ := h.written j x hw
    -- what has been written is finished, and this one is not
    have hne : j ≠ i := by
      intro he
      rw [he, hi, Option.some.injEq] at hj
      exact hopen (hj ▸ hst)
    exact ⟨item', by simpa [BudgetState.setStage, Function.update_of_ne hne] using hj, hst,
      ⟨hconf.confirmed⟩⟩
  used := by
    intro j x hw k item' hk hu
    rcases setStage_cases hk with ⟨rfl, rfl⟩ | ⟨-, hk⟩
    · exact hused x hu j hw
    · exact h.used j x hw k item' hk hu
  once := h.once

/-- It goes on under the reservation it had, or under none. -/
theorem SendSafe.goOn {i : ItemId} {item : SendItem} {stage : SendStage} (h : SendSafe s)
    (hi : s.items i = some item) (hopen : item.stage ≠ .finished)
    (hunder : stage.under = none ∨ stage.under = item.stage.under)
    (hauth : ∀ x, stage = .authorized x → ConfirmedFor s item x) :
    SendSafe (s.setStage i item stage) := by
  have hbefore : ∀ x, stage.under = some x → item.stage.under = some x := by
    intro x hx
    rcases hunder with hu | hu
    · rw [hu] at hx
      cases hx
    · exact hu ▸ hx
  refine h.setStage hi hopen ?_ ?_ ?_ hauth
  · exact fun x hx => h.owned i item x hi (hbefore x hx)
  · exact fun x hx j item' hj hu => h.apart j i item' item x hj hi hu (hbefore x hx)
  · exact fun x hx j hw => h.used j x hw i item hi (hbefore x hx)

/-- The write of an authorized command uses its reservation up. -/
theorem SendSafe.write {i : ItemId} {item : SendItem} (h : SendSafe s)
    (hi : s.items i = some item) (hst : item.stage = .authorized x) :
    SendSafe { s.setStage i item .finished with writes := s.writes ++ [(i, x)] } := by
  have hopen : item.stage ≠ .finished := by simp [hst]
  have hunder : item.stage.under = some x := by simp [hst, SendStage.under]
  have hf : SendSafe (s.setStage i item .finished) := h.goOn hi hopen (Or.inl rfl) nofun
  have hconf := h.authorized i item x hi hst
  exact {
    fresh := hf.fresh
    owned := hf.owned
    authorized := fun j item' y hj hs => ⟨(hf.authorized j item' y hj hs).confirmed⟩
    apart := hf.apart
    written := by
      intro j y hw
      rcases List.mem_append.mp hw with hw | hw
      · obtain ⟨item', hj, hs, hc⟩ := hf.written j y hw
        exact ⟨item', hj, hs, ⟨hc.confirmed⟩⟩
      · obtain ⟨rfl, rfl⟩ := Prod.mk.inj (List.mem_singleton.mp hw)
        obtain ⟨r, hr, hs, hph⟩ := hconf.confirmed
        exact ⟨{ item with stage := .finished }, Function.update_self .., rfl,
          ⟨r, hr, ⟨hs.command, hs.session, hs.task, hs.run⟩, hph⟩⟩
    used := by
      intro j y hw k item' hk hu
      rcases List.mem_append.mp hw with hw | hw
      · exact hf.used j y hw k item' hk hu
      · obtain ⟨rfl, rfl⟩ := Prod.mk.inj (List.mem_singleton.mp hw)
        rcases setStage_cases hk with ⟨rfl, rfl⟩ | ⟨hne, hk⟩
        · cases hu
        · exact hne (h.apart k j item' item y hk hi hu hunder)
    once := by
      show ((s.writes ++ [(i, x)]).map Prod.snd).Nodup
      rw [List.map_append]
      refine List.Nodup.append h.once (List.nodup_singleton _) ?_
      intro y hy hx
      rw [List.map_singleton, List.mem_singleton] at hx
      obtain ⟨⟨j, y'⟩, hw, rfl⟩ := List.mem_map.mp hy
      have hsame : y' = x := hx
      exact h.used j y' hw i item hi (hsame ▸ hunder) }

theorem BudgetStep.send (hst : BudgetStep s t) (hsafe : BudgetSafe s) (h : SendSafe s) :
    SendSafe t := by
  have hchange := (hst.safe hsafe).2
  obtain ⟨act, ha⟩ := hst
  have hmoved : ∀ {x}, (∃ r r', s.reservations x = some r ∧ t = s.setReservation x r' ∧
      (PhaseOk r → Moves s.db r r')) → SendSafe t := by
    intro x hcase
    obtain ⟨r, r', -, rfl, -⟩ := hcase
    exact h.change hchange hsafe rfl rfl rfl
  cases act with
  | task doc =>
    cases ha
    exact h.change hchange hsafe rfl rfl rfl
  | edit commands =>
    cases ha
    exact h.change hchange hsafe rfl rfl rfl
  | enqueue taskId runId sessionId commandId =>
    cases ha
    have hcases : ∀ {j item}, Function.update s.items s.nextItem
        (some ⟨taskId, runId, sessionId, commandId, .queued⟩) j = some item →
        s.items j = some item ∨ j = s.nextItem ∧ item.stage = .queued := by
      intro j item hj
      by_cases he : j = s.nextItem
      · subst he
        rw [Function.update_self, Option.some.injEq] at hj
        exact Or.inr ⟨rfl, hj ▸ rfl⟩
      · rw [Function.update_of_ne he] at hj
        exact Or.inl hj
    -- a new item is under no reservation
    have hunder : ∀ {j item x}, Function.update s.items s.nextItem
        (some ⟨taskId, runId, sessionId, commandId, .queued⟩) j = some item →
        item.stage.under = some x → s.items j = some item := by
      intro j item x hj hu
      rcases hcases hj with hj | ⟨-, hq⟩
      · exact hj
      · rw [hq] at hu
        cases hu
    exact {
      fresh := by
        intro j item hj
        rcases hcases hj with hj | ⟨he, -⟩
        · exact Nat.lt_succ_of_lt (h.fresh j item hj)
        · exact he ▸ Nat.lt_succ_self _
      owned := fun j item x hj hu => h.owned j item x (hunder hj hu) hu
      authorized := fun j item x hj hs =>
        ⟨(h.authorized j item x (hunder hj (by rw [hs]; rfl)) hs).confirmed⟩
      apart := fun j k item item' x hj hk hu hu' =>
        h.apart j k item item' x (hunder hj hu) (hunder hk hu') hu hu'
      written := by
        intro j x hw
        obtain ⟨item, hj, hs, hc⟩ := h.written j x hw
        have hne : j ≠ s.nextItem := Nat.ne_of_lt (h.fresh j item hj)
        exact ⟨item, (Function.update_of_ne hne ..).trans hj, hs, ⟨hc.confirmed⟩⟩
      used := fun j x hw k item hk hu => h.used j x hw k item (hunder hk hu) hu
      once := h.once }
  | dispatch i flags =>
    obtain ⟨item, stage, hi, hq, hu, rfl⟩ := dispatchAct_cases ha
    refine h.goOn hi (by simp [hq]) (Or.inl hu) ?_
    intro x hx
    rw [hx] at hu
    cases hu
  | reserve i guard =>
    obtain ⟨item, hi, hready, rfl | ⟨call, hcall, hserves, rfl⟩⟩ := reserveAct_cases ha
    · exact h.goOn hi (by simp [hready]) (Or.inl rfl) nofun
    · -- the execution is new: no other item and no write is under it
      have hissue : Change s { s.setReservation s.nextExecution ⟨call, .waiting, none⟩ with
          nextExecution := s.nextExecution + 1 } := .issued call rfl rfl
      have hs := h.change hissue hsafe rfl rfl rfl
      have hnew : ∀ r, s.reservations s.nextExecution ≠ some r := by
        intro r hr
        exact Nat.lt_irrefl _ (hsafe.issued _ r hr).1
      refine hs.setStage hi (by simp [hready]) ?_ ?_ ?_ nofun
      · intro x hx
        cases hx
        exact ⟨_, Function.update_self .., hserves⟩
      · intro x hx j item' hj hu
        cases hx
        obtain ⟨r, hr, -⟩ := h.owned j item' _ hj hu
        exact absurd hr (hnew r)
      · intro x hx j hw
        cases hx
        obtain ⟨item', -, -, hc⟩ := h.written j _ hw
        obtain ⟨r, hr, -⟩ := hc.confirmed
        exact hnew r hr
  | begin_ x => exact hmoved (beginAct_cases ha)
  | finish x => exact hmoved (finishAct_cases ha)
  | abort x => exact hmoved (abortAct_cases ha)
  | learn x => exact hmoved (learnAct_cases ha)
  | giveUp x => exact hmoved (giveUpAct_cases ha)
  | commit x =>
    obtain ⟨r, hr, ⟨r', ht, hm⟩ | ⟨tx, execution, -, -, -, rfl⟩⟩ :=
      commitAct_cases ha (fun r tx => hsafe.seen x r tx)
    · exact hmoved ⟨r, r', hr, ht, hm⟩
    · exact h.change hchange hsafe rfl rfl rfl
  | answer i =>
    obtain ⟨item, y, r, stage, hi, hst, hr, hcase, rfl⟩ := answerAct_cases ha
    have hunder : item.stage.under = some y := by simp [hst, SendStage.under]
    rcases hcase with ⟨rfl, hph⟩ | rfl
    · refine h.goOn hi (by simp [hst]) (Or.inr hunder.symm) ?_
      intro x hx
      cases hx
      obtain ⟨r', hr', hs⟩ := h.owned i item y hi hunder
      rw [hr, Option.some.injEq] at hr'
      exact ⟨r, hr, hr' ▸ hs, hph⟩
    · exact h.goOn hi (by simp [hst]) (Or.inl rfl) nofun
  | write i flags =>
    obtain ⟨item, y, hi, hst, rfl | rfl⟩ := deviceWriteAct_cases ha
    · exact h.goOn hi (by simp [hst]) (Or.inl rfl) nofun
    · exact h.write hi hst

theorem send_safe (h : Reachable BudgetInitial BudgetStep s) : SendSafe s :=
  h.invariant_of (fun _ hr => budget_safe hr) (fun _ h₀ => budgetInitial_send h₀)
    (fun _ _ hsafe hst hs => hst.send hsafe hs)

/-! ## The result -/

def Rejected (s : BudgetState) (x : ExecutionId) : Prop :=
  ∃ r, s.reservations x = some r ∧ r.phase = .rejected

theorem BudgetSafe.rejected_unrecorded (h : BudgetSafe s) (hr : Rejected s x) :
    ∀ execution ∈ s.db.executions, execution.id ≠ x := by
  intro execution he hx
  obtain ⟨r, hr, hph⟩ := hr
  obtain ⟨q, hq, hc⟩ := h.own execution he
  rw [hx, hr, Option.some.injEq] at hq
  obtain ⟨tx, htx, hst⟩ := (h.phase x r hr).rejected hph
  rw [← hq, committed_status htx, hst] at hc
  cases hc

theorem rejected_run (hs : BudgetSafe s) (hr : Rejected s x) (hrun : ReflTransGen BudgetStep s t) :
    BudgetSafe t ∧ Rejected t x := by
  refine sticky (I := fun s => BudgetSafe s ∧ Rejected s x) ?_ hrun ⟨hs, hr⟩
  intro s t hst h
  obtain ⟨hsafe, hchange⟩ := hst.safe h.1
  obtain ⟨r, hr, hph⟩ := h.2
  obtain ⟨r', hr', -, -, hkeep⟩ := hchange.kept h.1 hr
  exact ⟨hsafe, r', hr', hkeep hph⟩

/-- A step writes budgets and records only as the commit of a reservation. -/
theorem Change.documents (h : Change s t) (hsafe : BudgetSafe s) :
    (t.db.budgets = s.db.budgets ∧ t.db.executions = s.db.executions) ∨
      ∃ r execution, s.reservations execution.id = some r ∧ r.phase ≠ .rejected ∧
        t.db = s.db.insert execution := by
  cases h with
  | written doc hdb _ => exact Or.inl (by rw [hdb]; exact ⟨rfl, rfl⟩)
  | issued call hdb _ => exact Or.inl (by rw [hdb]; exact ⟨rfl, rfl⟩)
  | moved x r r' _ _ hdb _ => exact Or.inl (by rw [hdb]; exact ⟨rfl, rfl⟩)
  | queue hdb _ => exact Or.inl (by rw [hdb]; exact ⟨rfl, rfl⟩)
  | committed x r tx execution hr htx hst hcall hdb _ =>
    obtain ⟨-, -, -, hid, -⟩ := reserveCallback_reserved hcall
    have hx : execution.id = x := hid.trans (hsafe.issued x r hr).2
    refine Or.inr ⟨r, execution, hx ▸ hr, fun hph => ?_, hdb⟩
    obtain ⟨tx', htx', ha⟩ := (hsafe.phase x r hr).rejected hph
    rw [htx, Option.some.injEq] at htx'
    rw [← htx', hst] at ha
    cases ha

/-- A configured command is never over its total: its records carry the same total. -/
theorem DbSafe.configured {next : CommandId} (h : DbSafe db next) {command : ScheduledCommand}
    (hc : command ∈ db.task.value.scheduledCommands) (hid : command.id = key.2) :
    db.attempts key ≤ command.totalExecutions := by
  cases hrec : db.records key with
  | nil =>
    have hlen := congrArg List.length (h.numbers key)
    rw [hrec, List.length_range'] at hlen
    exact hlen ▸ Nat.zero_le _
  | cons execution rest =>
    obtain ⟨he, hk⟩ := mem_records.mp (hrec ▸ List.mem_cons_self (a := execution))
    have htotal := h.total execution he command hc (hid.trans (congrArg Prod.snd hk).symm)
    rw [htotal, ← hk]
    exact h.bound execution he

theorem ConfirmedFor.recorded {item : SendItem} (h : ConfirmedFor s item x) (hs : BudgetSafe s) :
    ∃ execution ∈ s.db.executions, execution.id = x ∧
      execution.key = (item.runId, item.commandId) ∧ execution.sessionId = item.sessionId := by
  obtain ⟨r, hr, hserves, hph⟩ := h.confirmed
  obtain ⟨execution, he, hid, hsession, hkey⟩ := hs.recorded x r hr ((hs.phase x r hr).confirmed hph)
  refine ⟨execution, he, hid, ?_, hsession.trans hserves.session⟩
  rw [hkey, hserves.run, hserves.command]

/-- In every run: the records of a run's command are as many as its counter says, numbered
from one without a gap, and within the total; a budget or a record changes only by the commit
of a reservation that has not been rejected, and a rejected one never leaves a record; and a
write to the device is made under a reservation that is confirmed and recorded for that very
command and that no other write uses. -/
theorem scheduled_budget (s : BudgetState) (h : Reachable BudgetInitial BudgetStep s) :
    (∀ key, (s.db.records key).length = s.db.attempts key ∧
      (s.db.records key).map Execution.attempt = List.range' 1 (s.db.attempts key) ∧
      (∀ execution ∈ s.db.records key, s.db.attempts key ≤ execution.totalExecutions) ∧
      (∀ command ∈ s.db.task.value.scheduledCommands, command.id = key.2 →
        s.db.attempts key ≤ command.totalExecutions)) ∧
    (∀ t, BudgetStep s t →
      (t.db.budgets = s.db.budgets ∧ t.db.executions = s.db.executions) ∨
        ∃ r execution, s.reservations execution.id = some r ∧ r.phase ≠ .rejected ∧
          t.db = s.db.insert execution) ∧
    (∀ x, Rejected s x → ∀ t, ReflTransGen BudgetStep s t →
      Rejected t x ∧ ∀ execution ∈ t.db.executions, execution.id ≠ x) ∧
    (∀ i flags t, deviceWriteAct i flags s = some t → t.writes ≠ s.writes →
      ∃ item x, s.items i = some item ∧ ConfirmedFor s item x ∧ t.writes = s.writes ++ [(i, x)] ∧
        (∃ execution ∈ s.db.executions, execution.id = x ∧
          execution.key = (item.runId, item.commandId) ∧
          execution.sessionId = item.sessionId) ∧
        ∀ j, (j, x) ∉ s.writes) ∧
    (s.writes.map Prod.snd).Nodup := by
  have hs := budget_safe h
  have hsend := send_safe h
  refine ⟨?_, ?_, ?_, ?_, hsend.once⟩
  · intro key
    have hnumbers := hs.documents.numbers key
    have hlen := congrArg List.length hnumbers
    rw [List.length_map, List.length_range'] at hlen
    refine ⟨hlen, hnumbers, ?_, fun command hc hid => hs.documents.configured hc hid⟩
    intro execution he
    obtain ⟨he, hk⟩ := mem_records.mp he
    exact hk ▸ hs.documents.bound execution he
  · intro t hst
    exact (hst.safe hs).2.documents hs
  · intro x hr t hrun
    obtain ⟨ht, hrt⟩ := rejected_run hs hr hrun
    exact ⟨hrt, ht.rejected_unrecorded hrt⟩
  · intro i flags t hw hne
    obtain ⟨item, x, hi, hst, rfl | rfl⟩ := deviceWriteAct_cases hw
    · exact absurd rfl hne
    · have hconf := hsend.authorized i item x hi hst
      refine ⟨item, x, hi, hconf, rfl, hconf.recorded hs, ?_⟩
      intro j hj
      exact hsend.used j x hj i item hi (by simp [hst, SendStage.under])

def budgetRun : List BudgetAct → BudgetState → Option BudgetState
  | [], s => some s
  | act :: acts, s => act.apply s >>= budgetRun acts

theorem budgetRun_steps {acts : List BudgetAct} (h : budgetRun acts s = some t) :
    ReflTransGen BudgetStep s t := by
  induction acts generalizing s with
  | nil =>
    cases h
    exact ReflTransGen.refl
  | cons act acts ih =>
    obtain ⟨s₁, h₁, h₂⟩ := Option.bind_eq_some_iff.mp h
    exact ReflTransGen.head ⟨act, h₁⟩ (ih h₂)

def collectingTask : CommandTask :=
  { id := 1, runId := some 7, nodeId := some 1, generation := 1, sessionId := some 5,
    status := .collecting, desiredState := .running, resourceDeleted := false,
    scheduledCommands := [⟨0, "ls", 1⟩], commandClaimVersion := 0 }

def budgetStart : BudgetState :=
  { db := { task := ⟨collectingTask, 0⟩, budgets := fun _ => ⟨none, 0⟩, executions := [] },
    nextCommand := 1, nextExecution := 0, nextItem := 0, reservations := fun _ => none,
    items := fun _ => none, writes := [] }

theorem budgetStart_initial : BudgetInitial budgetStart where
  commands := by decide
  distinct := by decide
  budgets := fun _ => rfl
  executions := rfl
  reservations := fun _ => rfl
  items := fun _ => rfl
  writes := rfl

/-- Two reservations at once for a command with a total of one: the second conflicts with the
first, is run again and is rejected, and one write is made. -/
theorem scheduled_budget_contended : ∃ s, Reachable BudgetInitial BudgetStep s ∧
    Rejected s 1 ∧ s.writes = [(0, 0)] ∧ s.db.attempts (7, 0) = 1 ∧
    (s.db.records (7, 0)).length = 1 ∧ ∀ execution ∈ s.db.executions, execution.id ≠ 1 := by
  have hrun : ∃ s, budgetRun [.enqueue 1 7 5 0, .enqueue 1 7 5 0,
      .dispatch 0 ⟨false, true, false, true, false, false, false⟩,
      .dispatch 1 ⟨false, true, false, true, false, false, false⟩,
      .reserve 0 ⟨false, false, some 5, ⟨1, 7, some 1, 1, [⟨0, "ls", 1⟩]⟩⟩,
      .reserve 1 ⟨false, false, some 5, ⟨1, 7, some 1, 1, [⟨0, "ls", 1⟩]⟩⟩,
      .begin_ 0, .begin_ 1, .finish 0, .finish 1, .commit 0, .commit 1, .learn 0, .learn 1,
      .begin_ 1, .finish 1, .answer 0, .answer 1,
      .write 0 ⟨false, true, false, true, false, false, false⟩] budgetStart = some s ∧
      Rejected s 1 ∧ s.writes = [(0, 0)] ∧ s.db.attempts (7, 0) = 1 :=
    ⟨_, rfl, ⟨_, rfl, rfl⟩, rfl, rfl⟩
  obtain ⟨s, hs, hrej, hw, ha⟩ := hrun
  have hreach : Reachable BudgetInitial BudgetStep s := ⟨_, budgetStart_initial, budgetRun_steps hs⟩
  obtain ⟨hkeys, -, hrejected, -⟩ := scheduled_budget s hreach
  exact ⟨s, hreach, hrej, hw, ha, (hkeys (7, 0)).1.trans ha,
    (hrejected 1 hrej s ReflTransGen.refl).2⟩

end CameraLogs.Commands
