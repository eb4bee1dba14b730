import CameraLogs.Coredumps.ExportQuota

/-!
# Is the quota recovered?

Counter and claims are written in one transaction, so they agree whatever dies when
(`LedgerOk`). A job whose worker is gone keeps its claim until the maintenance finds it
inactive, and a job that is recorded as running counts as active for ever. It is the
start of a worker that records such a job as failed, but only if the job's lease has run
out by then; a worker that starts earlier leaves the job as it is, and nothing comes back to
it before the next start.

`Timely` are the steps under which this does not happen, and under which an execution
renews its lease in time.
-/

namespace CameraLogs.Coredumps

open CameraLogs.Lib
open Relation (ReflTransGen)

variable {s t p : ExportState} {id : JobId} {job : ExportDocument} {stage : ExportStage}
  {e : StepEnd} {ledger ledger' : ExportLedger} {amount quota : Nat}

/-! ## The ledger -/

/-- The counter is what the claims add up to, and there is one claim a job. -/
structure LedgerOk (ledger : ExportLedger) : Prop where
  used : ledger.used = ledger.reservedBytes
  nodup : (ledger.claims.map ExportClaim.id).Nodup

theorem LedgerOk.reserve (h : LedgerOk ledger) (hreserve : ledger.reserve quota id amount = some ledger') :
    LedgerOk ledger' := by
  unfold ExportLedger.reserve at hreserve
  split at hreserve
  · cases hreserve
  split at hreserve
  · split at hreserve
    · cases hreserve
      exact h
    · cases hreserve
  next hnone =>
    split at hreserve
    · cases hreserve
      refine ⟨?_, Dict.nodup_upsert h.nodup⟩
      have hnew : id ∉ ledger.claims.map ExportClaim.id := Dict.lookup_none.1 hnone
      show ledger.used + amount = tally _ (Dict.upsert ExportClaim.id ⟨id, amount, .reserved⟩ _)
      rw [tally_upsert_new hnew, h.used]
      rfl
    · cases hreserve

/-- A release always finds what it has to give back, and leaves the other claims alone. -/
theorem LedgerOk.release (h : LedgerOk ledger) (id : JobId) :
    ∃ ledger', ledger.release id = some ledger' ∧ LedgerOk ledger' ∧
      (∀ claim, ledger'.find id = some claim → claim.state = .released) ∧
      (∀ other, other ≠ id → ledger'.find other = ledger.find other) ∧
      ledger'.claims.map ExportClaim.id = ledger.claims.map ExportClaim.id := by
  unfold ExportLedger.release
  cases hfind : ledger.find id with
  | none =>
    refine ⟨ledger, rfl, h, ?_, fun _ _ => rfl, rfl⟩
    intro claim hclaim
    rw [hfind] at hclaim
    cases hclaim
  | some claim =>
    obtain ⟨hmem, hid⟩ := Dict.lookup_some hfind
    by_cases hreserved : claim.state = .reserved
    · have hbytes : claim.bytes ≤ ledger.used := by
        rw [h.used]
        have hle : claim.counted ≤ tally ExportClaim.counted ledger.claims := le_tally hfind
        rwa [ExportClaim.counted, if_pos hreserved] at hle
      have hlookup : Dict.lookup ExportClaim.id
          ({ claim with state := .released } : ExportClaim).id ledger.claims = some claim := by
        rw [← hid] at hfind
        exact hfind
      let written : ExportLedger :=
        { used := ledger.used - claim.bytes
          claims := Dict.upsert ExportClaim.id { claim with state := .released } ledger.claims }
      refine ⟨written, ?_, ⟨?_, Dict.nodup_upsert h.nodup⟩, ?_, ?_, ?_⟩
      · show (if claim.state = .reserved then _ else _) = _
        rw [if_pos hreserved, if_pos hbytes]
      · have hmove : tally ExportClaim.counted written.claims + claim.counted =
            tally ExportClaim.counted ledger.claims + 0 := tally_upsert hlookup
        rw [ExportClaim.counted, if_pos hreserved] at hmove
        have hused : ledger.used = tally ExportClaim.counted ledger.claims := h.used
        show ledger.used - claim.bytes = tally ExportClaim.counted written.claims
        omega
      · intro other hother
        unfold ExportLedger.find at hother
        rw [Dict.lookup_upsert, if_pos hid] at hother
        cases hother
        rfl
      · intro other hne
        unfold ExportLedger.find
        rw [Dict.lookup_upsert, if_neg (fun he => hne (he.symm.trans hid))]
      · exact Dict.map_upsert_of_mem (List.mem_map.2 ⟨claim, hmem, rfl⟩)
    · refine ⟨ledger, if_neg hreserved, h, ?_, fun _ _ => rfl, rfl⟩
      intro other hother
      rw [hfind] at hother
      cases hother
      cases hstate : claim.state with
      | reserved => exact absurd hstate hreserved
      | released => rfl

/-- How a transaction of the job `id` moves the ledger. -/
def LedgerMove (id : JobId) (ledger ledger' : ExportLedger) : Prop :=
  ledger' = ledger ∨ (∃ quota amount, ledger.reserve quota id amount = some ledger') ∨
    ledger.release id = some ledger'

theorem LedgerMove.ok (h : LedgerMove id ledger ledger') (hok : LedgerOk ledger) :
    LedgerOk ledger' := by
  obtain rfl | ⟨quota, amount, hreserve⟩ | hrelease := h
  · exact hok
  · exact hok.reserve hreserve
  · obtain ⟨released, hsome, hreleased, -⟩ := hok.release id
    rw [hrelease] at hsome
    cases hsome
    exact hreleased

/-- The only new claim there may be is the job's own. -/
theorem LedgerMove.claims {other : JobId} (h : LedgerMove id ledger ledger')
    (hok : LedgerOk ledger) (hmem : other ∈ ledger'.claims.map ExportClaim.id) :
    other = id ∨ other ∈ ledger.claims.map ExportClaim.id := by
  obtain rfl | ⟨quota, amount, hreserve⟩ | hrelease := h
  · exact .inr hmem
  · unfold ExportLedger.reserve at hreserve
    split at hreserve
    · cases hreserve
    split at hreserve
    · split at hreserve
      · cases hreserve
        exact .inr hmem
      · cases hreserve
    · split at hreserve
      · cases hreserve
        exact Dict.mem_map_upsert.1 hmem
      · cases hreserve
  · obtain ⟨released, hsome, -, -, -, hkeys⟩ := hok.release id
    rw [hrelease] at hsome
    cases hsome
    rw [hkeys] at hmem
    exact .inr hmem

/-! ## What an execution touches -/

/-- A document of a job after a step: still of the same worker, and not queued or running
if it was not. -/
def SameJob (before after : ExportDocument) : Prop :=
  after.workerInstanceId = before.workerInstanceId ∧
    (after.status = before.status ∨ (after.status ≠ .queued ∧ after.status ≠ .running))

/-- What an execution of the job `id` leaves alone, and how it moves the rest. -/
structure Works (s p : ExportState) (id : JobId) : Prop where
  quota : p.quota = s.quota
  created : p.created = s.created
  now : p.now = s.now
  worker : p.worker = s.worker
  started : p.started = s.started
  cleaning : p.cleaning = s.cleaning
  ledger : LedgerMove id s.ledger p.ledger
  documents : ∀ other, other ≠ id → p.documents other = s.documents other
  scratch : ∀ other, other ≠ id → p.scratch other = s.scratch other
  output : ∀ other, other ≠ id → p.output other = s.output other
  executions : ∀ other, other ≠ id → p.executions other = s.executions other
  document : ∀ after, p.documents id = some after →
    ∃ before, s.documents id = some before ∧ SameJob before after

theorem works_refl (s : ExportState) (id : JobId) : Works s s id :=
  ⟨rfl, rfl, rfl, rfl, rfl, rfl, .inl rfl, fun _ _ => rfl, fun _ _ => rfl, fun _ _ => rfl,
    fun _ _ => rfl, fun after h => ⟨after, h, rfl, .inl rfl⟩⟩

theorem Works.goTo (h : Works s p id) (job : ExportDocument) (next : Option ExportStage) :
    Works s (p.goTo id job next) id := by
  have hexecutions : ∀ other, other ≠ id →
      (p.goTo id job next).executions other = s.executions other := by
    intro other hne
    show Function.update p.executions id _ other = _
    rw [Function.update_of_ne hne]
    exact h.executions other hne
  exact { h with executions := hexecutions }

theorem works_setDocument {before after : ExportDocument} (hbefore : s.documents id = some before)
    (hsame : SameJob before after) : Works s (s.setDocument id after) id :=
  { works_refl s id with
    documents := fun other hne => Function.update_of_ne hne _ _
    document := fun after' hafter => by
      have he : after = after' := by
        simpa [ExportState.setDocument] using hafter
      exact ⟨before, hbefore, he ▸ hsame⟩ }

theorem works_withLedger (h : LedgerMove id s.ledger ledger) : Works s (s.withLedger ledger) id :=
  { works_refl s id with ledger := h }

theorem works_setScratch (there : Bool) : Works s (s.setScratch id there) id :=
  { works_refl s id with scratch := fun _ hne => Function.update_of_ne hne _ _ }

theorem works_setOutput (there : Bool) : Works s (s.setOutput id there) id :=
  { works_refl s id with output := fun _ hne => Function.update_of_ne hne _ _ }

theorem works_tryStep (h : Works s p id) : Works s (s.tryStep id job stage p e) id := by
  cases e with
  | done => exact h.goTo job _
  | raises cancelled => exact (works_refl s id).goTo job _
  | unheard cancelled => exact h.goTo job _

theorem works_tryRaise (cancelled : Bool) : Works s (s.tryRaise id job cancelled e) id := by
  cases e with
  | done => exact (works_refl s id).goTo job _
  | raises cancelled' => exact (works_refl s id).goTo job _
  | unheard cancelled' => exact (works_refl s id).goTo job _

theorem works_plainStep {next : Option ExportStage} (h : Works s p id) :
    Works s (s.plainStep id job next p e) id := by
  cases e with
  | done => exact h.goTo job _
  | raises cancelled => exact (works_refl s id).goTo job _
  | unheard cancelled => exact h.goTo job _

theorem ownDocument_some {document : ExportDocument} (h : s.ownDocument id = some document) :
    s.documents id = some document ∧ document.workerInstanceId = s.worker := by
  obtain ⟨hfind, hown⟩ := Option.filter_eq_some_iff.1 h
  exact ⟨hfind, of_decide_eq_true hown⟩

theorem goesOn_works (h : s.goesOn id = some p) : Works s p id := by
  unfold ExportState.goesOn at h
  split at h
  next document hown =>
    split at h
    · cases h
      exact works_setDocument (ownDocument_some hown).1 ⟨rfl, .inl rfl⟩
    · cases h
  next => cases h

theorem beginExecution_works (h : s.beginExecution id = some p) : Works s p id := by
  unfold ExportState.beginExecution at h
  split at h
  next document hown =>
    split at h
    · cases h
      exact works_setDocument (ownDocument_some hown).1 ⟨rfl, .inl rfl⟩
    · cases h
  next => cases h

theorem finishExecution_works : Works s (s.finishExecution id) id := by
  unfold ExportState.finishExecution
  split
  next document hown =>
    split
    · exact works_setDocument (ownDocument_some hown).1 ⟨rfl, .inl rfl⟩
    · exact works_refl s id
  next => exact works_refl s id

theorem renewExecutionLease_works : Works s (s.renewExecutionLease id) id := by
  unfold ExportState.renewExecutionLease
  split
  next document hown =>
    split
    · exact works_setDocument (ownDocument_some hown).1 ⟨rfl, .inl rfl⟩
    · exact works_refl s id
  next => exact works_refl s id

theorem complete_executions (update : ExportResult) :
    (s.complete id update).1.executions = s.executions := by
  unfold ExportState.complete
  split
  · rfl
  split
  · split <;> rfl
  · rfl

theorem complete_works (update : ExportResult) : Works s (s.complete id update).1 id := by
  unfold ExportState.complete
  split
  · exact works_refl s id
  next document hfind =>
    split
    · split
      · refine works_setDocument hfind ⟨rfl, .inr ?_⟩
        cases update <;> simp [ExportResult.status]
      · exact works_refl s id
    · exact works_refl s id

theorem works_checkStep : Works s (s.checkStep id job stage e) id := by
  unfold ExportState.checkStep
  split
  next p hgoes => exact works_tryStep (goesOn_works hgoes)
  next => exact works_tryRaise true

theorem works_releaseStep {next : Option ExportStage} : Works s (s.releaseStep id job next e) id := by
  unfold ExportState.releaseStep
  split
  next ledger hrelease =>
    exact works_plainStep (works_withLedger (.inr (.inr hrelease)))
  next => exact (works_refl s id).goTo job none

theorem advance_works : Works s (s.advance id job e stage) id := by
  cases stage with
  | beginning =>
    simp only [ExportState.advance]
    split
    next p hbegin => exact works_plainStep (beginExecution_works hbegin)
    next => exact works_plainStep (works_refl s id)
  | refused =>
    simp only [ExportState.advance]
    split
    · exact works_plainStep (works_refl s id)
    · exact works_plainStep (works_refl s id)
  | releasingRefused => exact works_releaseStep
  | reserving =>
    rw [ExportState.advance]
    generalize hreserve : s.ledger.reserve s.quota id job.amount = reserved
    cases reserved with
    | some ledger => exact works_tryStep (works_withLedger (.inr (.inl ⟨_, _, hreserve⟩)))
    | none => exact works_tryRaise false
  | makingScratch => exact works_tryStep (works_setScratch true)
  | checkingFreeze left =>
    cases left with
    | zero => exact works_tryStep (works_refl s id)
    | succ left => exact works_checkStep
  | freezing left => exact works_tryStep (works_refl s id)
  | checkingFetch left =>
    cases left with
    | zero => exact works_tryStep (works_refl s id)
    | succ left => exact works_checkStep
  | fetching left => exact works_tryStep (works_refl s id)
  | checkingOutput => exact works_checkStep
  | makingOutput => exact works_tryStep (works_setOutput true)
  | writingResult => exact works_tryStep (works_refl s id)
  | checkingResult => exact works_checkStep
  | digesting => exact works_tryStep (works_refl s id)
  | removingScratch update => exact works_plainStep (works_setScratch false)
  | removingOutput update => exact works_plainStep (works_setOutput false)
  | releasing update => exact works_releaseStep
  | finishing update => exact works_plainStep finishExecution_works
  | completing update =>
    cases e with
    | done => exact (complete_works update).goTo job _
    | raises cancelled =>
      cases cancelled with
      | false => exact works_refl s id
      | true => exact (works_refl s id).goTo job none
    | unheard cancelled =>
      cases cancelled with
      | false => exact complete_works update
      | true => exact (complete_works update).goTo job none
  | withdrawing => exact works_plainStep (works_setOutput false)
  | releasingWithdrawn => exact works_releaseStep

/-! ## Executions that write -/

/-- A job is executing: its worker has declared that it writes, and not that it has
finished. -/
def Executes (s : ExportState) (id : JobId) : Prop :=
  ∃ execution, s.executions id = some execution ∧ execution.stage.writes = true

/-- The document of a job that is executing: of the worker that runs, with the execution
declared and its lease still running. -/
def Writing (s : ExportState) (id : JobId) : Prop :=
  ∃ document, s.documents id = some document ∧ document.workerInstanceId = s.worker ∧
    document.executionState = some .writing ∧
    ∃ leaseUntil ∈ document.executionLeaseUntil, s.now < leaseUntil

theorem Writing.of_same (h : Writing s id) (hdocument : p.documents id = s.documents id)
    (hworker : p.worker = s.worker) (hnow : p.now = s.now) : Writing p id := by
  obtain ⟨document, hfind, hown, hwriting, leaseUntil, hlease, hruns⟩ := h
  exact ⟨document, hdocument.trans hfind, hown.trans hworker.symm, hwriting, leaseUntil, hlease,
    hnow.symm ▸ hruns⟩

theorem Executes.goTo {next : Option ExportStage} (h : Executes (p.goTo id job next) id) :
    ∃ stage, next = some stage ∧ stage.writes = true := by
  obtain ⟨execution, hexecution, hwrites⟩ := h
  simp only [ExportState.goTo, ExportState.setExecution, Function.update_self,
    Option.map_eq_some_iff] at hexecution
  obtain ⟨stage, hnext, rfl⟩ := hexecution
  exact ⟨stage, hnext, hwrites⟩

theorem Writing.goTo {next : Option ExportStage} (h : Writing p id) :
    Writing (p.goTo id job next) id := h.of_same rfl rfl rfl

/-- A step of the `try` block goes on writing. -/
theorem writing_tryStep (h : Writing s id) (hp : Writing p id) :
    Writing (s.tryStep id job stage p e) id := by
  cases e with
  | done => exact hp.goTo
  | raises cancelled => exact h.goTo
  | unheard cancelled => exact hp.goTo

theorem writing_tryRaise (cancelled : Bool) (h : Writing s id) :
    Writing (s.tryRaise id job cancelled e) id := by
  cases e with
  | done => exact h.goTo
  | raises cancelled' => exact h.goTo
  | unheard cancelled' => exact h.goTo

theorem goesOn_writing (hgoes : s.goesOn id = some p) (h : Writing s id) : Writing p id := by
  obtain ⟨document, hfind, hown, hwriting, leaseUntil, hlease, hruns⟩ := h
  have howned : s.ownDocument id = some document :=
    Option.filter_eq_some_iff.2 ⟨hfind, decide_eq_true hown⟩
  simp only [ExportState.goesOn, howned] at hgoes
  split at hgoes
  · cases hgoes
    exact ⟨_, Function.update_self .., hown, hwriting, leaseUntil, hlease, hruns⟩
  · cases hgoes

theorem renewExecutionLease_writing (h : Writing s id) : Writing (s.renewExecutionLease id) id := by
  obtain ⟨document, hfind, hown, hwriting, leaseUntil, hlease, hruns⟩ := h
  have howned : s.ownDocument id = some document :=
    Option.filter_eq_some_iff.2 ⟨hfind, decide_eq_true hown⟩
  simp only [ExportState.renewExecutionLease, howned, hwriting, if_true]
  refine ⟨_, Function.update_self .., hown, rfl, _, rfl, ?_⟩
  show s.now < s.now + executionLeaseSeconds
  unfold executionLeaseSeconds
  omega

theorem writing_checkStep (h : Writing s id) : Writing (s.checkStep id job stage e) id := by
  unfold ExportState.checkStep
  split
  next p hgoes => exact writing_tryStep h (goesOn_writing hgoes h)
  next => exact writing_tryRaise true h

/-- What goes on from a step outside the `try` block. -/
theorem executes_plainStep {next : Option ExportStage}
    (h : Executes (s.plainStep id job next p e) id) :
    e = .done ∧ ∃ stage, next = some stage ∧ stage.writes = true := by
  cases e with
  | done => exact ⟨rfl, h.goTo⟩
  | raises cancelled =>
    obtain ⟨stage, hnone, -⟩ := Executes.goTo h
    cases hnone
  | unheard cancelled =>
    obtain ⟨stage, hnone, -⟩ := Executes.goTo h
    cases hnone

/-- A step outside it goes on writing where what it performs does. -/
theorem writing_plainStep {next : Option ExportStage}
    (h : Executes (s.plainStep id job next p e) id) (hp : Writing p id) :
    Writing (s.plainStep id job next p e) id := by
  obtain ⟨rfl, -⟩ := executes_plainStep h
  exact hp.goTo

theorem writing_releaseStep {next : Option ExportStage}
    (h : Executes (s.releaseStep id job next e) id) (hs : Writing s id) :
    Writing (s.releaseStep id job next e) id := by
  unfold ExportState.releaseStep at h ⊢
  split at h
  · exact writing_plainStep h (hs.of_same rfl rfl rfl)
  · obtain ⟨stage, hnone, -⟩ := Executes.goTo h
    cases hnone

theorem not_executes_releaseStep {next : Option ExportStage}
    (hnext : ∀ stage, next = some stage → stage.writes = false) :
    ¬Executes (s.releaseStep id job next e) id := by
  intro h
  unfold ExportState.releaseStep at h
  split at h
  · obtain ⟨-, stage, hstage, hwrites⟩ := executes_plainStep h
    rw [hnext stage hstage] at hwrites
    cases hwrites
  · obtain ⟨stage, hnone, -⟩ := Executes.goTo h
    cases hnone

theorem beginExecution_writing (h : s.beginExecution id = some p) :
    Writing p id ∧ ∃ document, s.documents id = some document ∧ document.status = .running := by
  unfold ExportState.beginExecution at h
  split at h
  next document hown =>
    split at h
    next hrunning =>
      cases h
      obtain ⟨hfind, hworker⟩ := ownDocument_some hown
      refine ⟨⟨_, Function.update_self .., hworker, rfl, _, rfl, ?_⟩, document, hfind, hrunning⟩
      show s.now < s.now + executionLeaseSeconds
      unfold executionLeaseSeconds
      omega
    next => cases h
  next => cases h

/-- An execution that writes after a step has written before or has just begun, and its
document says so. -/
theorem advance_writing (hat : s.executions id = some ⟨job, stage⟩)
    (hs : stage.writes = true → Writing s id)
    (hexecutes : Executes (s.advance id job e stage) id) :
    Writing (s.advance id job e stage) id ∧ (stage.writes = true ∨
      ∃ document, s.documents id = some document ∧ document.status = .running) := by
  cases stage with
  | beginning =>
    simp only [ExportState.advance] at hexecutes ⊢
    split at hexecutes
    next p hbegin =>
      obtain ⟨hwriting, hrunning⟩ := beginExecution_writing hbegin
      exact ⟨writing_plainStep hexecutes hwriting, .inr hrunning⟩
    next =>
      obtain ⟨-, stage, hstage, hwrites⟩ := executes_plainStep hexecutes
      cases hstage
      cases hwrites
  | refused =>
    simp only [ExportState.advance] at hexecutes
    split at hexecutes
    all_goals
      obtain ⟨-, stage, hstage, hwrites⟩ := executes_plainStep hexecutes
      cases hstage
      try cases hwrites
  | releasingRefused =>
    exact absurd hexecutes (not_executes_releaseStep fun stage hstage => by cases hstage)
  | reserving =>
    refine ⟨?_, .inl rfl⟩
    rw [ExportState.advance]
    generalize s.ledger.reserve s.quota id job.amount = reserved
    cases reserved with
    | some ledger => exact writing_tryStep (hs rfl) ((hs rfl).of_same rfl rfl rfl)
    | none => exact writing_tryRaise false (hs rfl)
  | makingScratch => exact ⟨writing_tryStep (hs rfl) ((hs rfl).of_same rfl rfl rfl), .inl rfl⟩
  | checkingFreeze left =>
    cases left with
    | zero => exact ⟨writing_tryStep (hs rfl) (hs rfl), .inl rfl⟩
    | succ left => exact ⟨writing_checkStep (hs rfl), .inl rfl⟩
  | freezing left => exact ⟨writing_tryStep (hs rfl) (hs rfl), .inl rfl⟩
  | checkingFetch left =>
    cases left with
    | zero => exact ⟨writing_tryStep (hs rfl) (hs rfl), .inl rfl⟩
    | succ left => exact ⟨writing_checkStep (hs rfl), .inl rfl⟩
  | fetching left => exact ⟨writing_tryStep (hs rfl) (hs rfl), .inl rfl⟩
  | checkingOutput => exact ⟨writing_checkStep (hs rfl), .inl rfl⟩
  | makingOutput => exact ⟨writing_tryStep (hs rfl) ((hs rfl).of_same rfl rfl rfl), .inl rfl⟩
  | writingResult => exact ⟨writing_tryStep (hs rfl) (hs rfl), .inl rfl⟩
  | checkingResult => exact ⟨writing_checkStep (hs rfl), .inl rfl⟩
  | digesting => exact ⟨writing_tryStep (hs rfl) (hs rfl), .inl rfl⟩
  | removingScratch update =>
    exact ⟨writing_plainStep hexecutes ((hs rfl).of_same rfl rfl rfl), .inl rfl⟩
  | removingOutput update =>
    exact ⟨writing_plainStep hexecutes ((hs rfl).of_same rfl rfl rfl), .inl rfl⟩
  | releasing update => exact ⟨writing_releaseStep hexecutes (hs rfl), .inl rfl⟩
  | finishing update =>
    obtain ⟨-, stage, hstage, hwrites⟩ := executes_plainStep hexecutes
    cases hstage
    cases hwrites
  | completing update =>
    -- a completion that is not answered stays where it is, and writes nothing
    have hstays : ∀ p : ExportState, p.executions = s.executions → ¬Executes p id := by
      intro p hsame hexecutes'
      obtain ⟨execution, hexecution, hwrites⟩ := hexecutes'
      rw [hsame, hat] at hexecution
      cases hexecution
      cases hwrites
    cases e with
    | done =>
      obtain ⟨stage, hstage, hwrites⟩ := Executes.goTo hexecutes
      split at hstage
      · cases hstage
        cases hwrites
      · cases hstage
    | raises cancelled =>
      cases cancelled with
      | false => exact absurd hexecutes (hstays s rfl)
      | true =>
        obtain ⟨stage, hnone, -⟩ := Executes.goTo hexecutes
        cases hnone
    | unheard cancelled =>
      cases cancelled with
      | false => exact absurd hexecutes (hstays _ (complete_executions update))
      | true =>
        obtain ⟨stage, hnone, -⟩ := Executes.goTo hexecutes
        cases hnone
  | withdrawing =>
    obtain ⟨-, stage, hstage, hwrites⟩ := executes_plainStep hexecutes
    cases hstage
    cases hwrites
  | releasingWithdrawn =>
    exact absurd hexecutes (not_executes_releaseStep fun stage hstage => by cases hstage)

/-! ## The run -/

/-- A worker starts only when the lease of every job that is recorded as running has run
out; an execution renews its lease before it runs out, and its document does not expire. -/
def Timely (s : ExportState) : ExportAct → Prop
  | .start _ => ∀ id document, s.documents id = some document → document.status = .running →
    ∃ leaseUntil ∈ document.leaseUntil, leaseUntil < s.now
  | .tick seconds => ∀ id, Executes s id → ∃ document, s.documents id = some document ∧
    ∃ leaseUntil ∈ document.executionLeaseUntil, s.now + seconds < leaseUntil
  | .expire id => ¬Executes s id
  | _ => True

def TimelyStep (s t : ExportState) : Prop :=
  ∃ act : ExportAct, Timely s act ∧ act.apply s = some t

abbrev TimelyExports : ExportState → Prop := Reachable ExportQuotaStart TimelyStep

/-- No execution of the job will ever write again. -/
structure Settled (s : ExportState) (id : JobId) : Prop where
  created : id ∈ s.created
  quiet : ¬Executes s id
  ended : ∀ document, s.documents id = some document →
    document.status ≠ .queued ∧ document.status ≠ .running

structure ExportInv (s : ExportState) : Prop where
  ledger : LedgerOk s.ledger
  writing : ∀ id, Executes s id → Writing s id
  stopped : s.worker = none → (∀ id, s.executions id = none) ∧ s.cleaning = none
  running : ∀ worker, s.worker = some worker → ∀ id document, s.documents id = some document →
    document.status = .running → document.workerInstanceId = some worker
  queued : ∀ id document, s.documents id = some document → document.status = .queued →
    document.workerInstanceId = none
  documents : ∀ id document, s.documents id = some document → id ∈ s.created
  executions : ∀ id execution, s.executions id = some execution → id ∈ s.created
  claims : ∀ id ∈ s.ledger.claims.map ExportClaim.id, id ∈ s.created
  cleaning : ∀ id stage, s.cleaning = some (id, stage) → Settled s id

theorem Executes.created (h : ExportInv s) (hexecutes : Executes s id) : id ∈ s.created := by
  obtain ⟨execution, hexecution, -⟩ := hexecutes
  exact h.executions id execution hexecution

/-- A step of a job that keeps its document the job's own keeps everything. -/
theorem ExportInv.works (h : ExportInv s) (hworks : Works s p id) (hid : id ∈ s.created)
    (hworker : s.worker = none → p.executions id = none)
    (hexecutes : Executes p id → Writing p id ∧ (Executes s id ∨
      ∃ document, s.documents id = some document ∧ document.status = .running)) :
    ExportInv p where
  ledger := hworks.ledger.ok h.ledger
  writing := by
    intro other hother
    by_cases hne : other = id
    · subst hne
      exact (hexecutes hother).1
    · have hbefore : Executes s other := by
        unfold Executes at hother
        rwa [hworks.executions other hne] at hother
      exact (h.writing other hbefore).of_same (hworks.documents other hne) hworks.worker hworks.now
  stopped := by
    intro hnone
    rw [hworks.worker] at hnone
    obtain ⟨hexecutions, hcleaning⟩ := h.stopped hnone
    refine ⟨fun other => ?_, hworks.cleaning.trans hcleaning⟩
    by_cases hne : other = id
    · rw [hne]
      exact hworker hnone
    · rw [hworks.executions other hne]
      exact hexecutions other
  running := by
    intro worker hsome other document hdocument hrunning
    rw [hworks.worker] at hsome
    by_cases hne : other = id
    · subst hne
      obtain ⟨before, hbefore, hown, hstatus | hstatus⟩ := hworks.document document hdocument
      · rw [hown]
        exact h.running worker hsome other before hbefore (hstatus.symm.trans hrunning)
      · exact absurd hrunning hstatus.2
    · rw [hworks.documents other hne] at hdocument
      exact h.running worker hsome other document hdocument hrunning
  queued := by
    intro other document hdocument hqueued
    by_cases hne : other = id
    · subst hne
      obtain ⟨before, hbefore, hown, hstatus | hstatus⟩ := hworks.document document hdocument
      · rw [hown]
        exact h.queued other before hbefore (hstatus.symm.trans hqueued)
      · exact absurd hqueued hstatus.1
    · rw [hworks.documents other hne] at hdocument
      exact h.queued other document hdocument hqueued
  documents := by
    intro other document hdocument
    rw [hworks.created]
    by_cases hne : other = id
    · rw [hne]
      exact hid
    · rw [hworks.documents other hne] at hdocument
      exact h.documents other document hdocument
  executions := by
    intro other execution hexecution
    rw [hworks.created]
    by_cases hne : other = id
    · rw [hne]
      exact hid
    · rw [hworks.executions other hne] at hexecution
      exact h.executions other execution hexecution
  claims := by
    intro other hmem
    rw [hworks.created]
    obtain rfl | hmem := hworks.ledger.claims h.ledger hmem
    · exact hid
    · exact h.claims other hmem
  cleaning := by
    intro other stage hcleaning
    rw [hworks.cleaning] at hcleaning
    obtain ⟨hcreated, hquiet, hended⟩ := h.cleaning other stage hcleaning
    by_cases hne : other = id
    · subst hne
      refine ⟨hworks.created ▸ hcreated, fun hother => ?_, fun document hdocument => ?_⟩
      · obtain ⟨-, hbefore | ⟨document, hdocument, hrunning⟩⟩ := hexecutes hother
        · exact hquiet hbefore
        · exact (hended document hdocument).2 hrunning
      · obtain ⟨before, hbefore, -, hstatus | hstatus⟩ := hworks.document document hdocument
        · rw [hstatus]
          exact hended before hbefore
        · exact hstatus
    · refine ⟨hworks.created ▸ hcreated, fun hother => ?_, fun document hdocument => ?_⟩
      · unfold Executes at hother
        rw [hworks.executions other hne] at hother
        exact hquiet hother
      · rw [hworks.documents other hne] at hdocument
        exact hended document hdocument

theorem Settled.of_same (h : Settled s id) (hcreated : p.created = s.created)
    (hdocuments : p.documents = s.documents) (hexecutions : p.executions = s.executions) :
    Settled p id := by
  refine ⟨hcreated ▸ h.created, fun hexecutes => ?_, fun document hdocument => ?_⟩
  · unfold Executes at hexecutes
    rw [hexecutions] at hexecutes
    exact h.quiet hexecutes
  · rw [hdocuments] at hdocument
    exact h.ended document hdocument

/-- What the maintenance and the clock change. -/
theorem ExportInv.cleans (h : ExportInv s)
    (hledger : p.ledger = s.ledger ∨ ∃ id ∈ s.created, s.ledger.release id = some p.ledger)
    (hcreated : p.created = s.created)
    (hdocuments : p.documents = s.documents) (hexecutions : p.executions = s.executions)
    (hworker : p.worker = s.worker) (hwriting : ∀ id, Executes s id → Writing p id)
    (hstopped : s.worker = none → p.cleaning = none)
    (hcleaning : ∀ id stage, p.cleaning = some (id, stage) → Settled s id) : ExportInv p where
  ledger := by
    obtain hsame | ⟨id, -, hrelease⟩ := hledger
    · rw [hsame]
      exact h.ledger
    · exact LedgerMove.ok (.inr (.inr hrelease)) h.ledger
  writing := by
    intro other hother
    unfold Executes at hother
    rw [hexecutions] at hother
    exact hwriting other hother
  stopped := by
    intro hnone
    rw [hworker] at hnone
    rw [hexecutions]
    exact ⟨(h.stopped hnone).1, hstopped hnone⟩
  running := by rw [hworker, hdocuments]; exact h.running
  queued := by rw [hdocuments]; exact h.queued
  documents := by rw [hdocuments, hcreated]; exact h.documents
  executions := by rw [hexecutions, hcreated]; exact h.executions
  claims := by
    intro other hmem
    rw [hcreated]
    obtain hsame | ⟨id, hid, hrelease⟩ := hledger
    · rw [hsame] at hmem
      exact h.claims other hmem
    · obtain rfl | hmem := LedgerMove.claims (.inr (.inr hrelease)) h.ledger hmem
      · exact hid
      · exact h.claims other hmem
  cleaning := fun other stage hother =>
    (hcleaning other stage hother).of_same hcreated hdocuments hexecutions

/-- A claim whose job is not active is of a job that never writes again. -/
theorem settled_of_inactive (h : ExportInv s) (hcreated : id ∈ s.created)
    (hinactive : s.active id = false) : Settled s id := by
  have hended : ∀ document, s.documents id = some document →
      document.status ≠ .queued ∧ document.status ≠ .running := by
    intro document hdocument
    rw [ExportState.active, hdocument, Option.any_some] at hinactive
    simp only [Bool.or_eq_false_iff, decide_eq_false_iff_not] at hinactive
    exact ⟨hinactive.1.1.2, hinactive.1.2⟩
  refine ⟨hcreated, fun hexecutes => ?_, hended⟩
  obtain ⟨document, hdocument, -, hwriting, leaseUntil, hlease, hruns⟩ := h.writing id hexecutes
  rw [ExportState.active, hdocument, Option.any_some] at hinactive
  have hleased : (document.executionLeaseUntil.any fun leaseUntil =>
      decide (s.now < leaseUntil)) = true :=
    Option.any_eq_true _ _ |>.2 ⟨leaseUntil, hlease, decide_eq_true hruns⟩
  rw [hleased, hwriting] at hinactive
  simp at hinactive

theorem ExportInv.create {expiresAt estimatedBytes sources : Nat} (h : ExportInv s)
    (hstep : (ExportAct.create id expiresAt estimatedBytes sources).apply s = some t) :
    ExportInv t := by
  obtain ⟨_, hguard, he⟩ := Option.bind_eq_some_iff.1 hstep
  have hnew : id ∉ s.created := of_guard hguard
  cases he
  -- whatever is known of a job is known of one that was created before
  have hold : ∀ other, other ∈ s.created → Function.update s.documents id
      (some ⟨.queued, none, none, none, none, expiresAt, estimatedBytes, sources⟩) other =
      s.documents other := by
    intro other hother
    refine Function.update_of_ne (fun he => hnew ?_) _ _
    rwa [← he]
  have hcases : ∀ other document, Function.update s.documents id
      (some ⟨.queued, none, none, none, none, expiresAt, estimatedBytes, sources⟩) other =
      some document → (other = id ∧ document.status = .queued ∧
        document.workerInstanceId = none) ∨ s.documents other = some document := by
    intro other document hdocument
    by_cases hne : other = id
    · subst hne
      rw [Function.update_self] at hdocument
      cases hdocument
      exact .inl ⟨rfl, rfl, rfl⟩
    · rw [Function.update_of_ne hne] at hdocument
      exact .inr hdocument
  refine ⟨h.ledger, ?_, h.stopped, ?_, ?_, ?_, ?_, ?_, ?_⟩
  · intro other hother
    exact (h.writing other hother).of_same (hold other (Executes.created h hother)) rfl rfl
  · intro worker hworker other document hdocument hrunning
    obtain ⟨-, hqueued, -⟩ | hbefore := hcases other document hdocument
    · rw [hqueued] at hrunning
      cases hrunning
    · exact h.running worker hworker other document hbefore hrunning
  · intro other document hdocument hqueued
    obtain ⟨-, -, hnone⟩ | hbefore := hcases other document hdocument
    · exact hnone
    · exact h.queued other document hbefore hqueued
  · intro other document hdocument
    obtain ⟨rfl, -⟩ | hbefore := hcases other document hdocument
    · exact List.mem_cons_self
    · exact List.mem_cons_of_mem _ (h.documents other document hbefore)
  · intro other execution hexecution
    exact List.mem_cons_of_mem _ (h.executions other execution hexecution)
  · intro other hmem
    exact List.mem_cons_of_mem _ (h.claims other hmem)
  · intro other stage hcleaning
    obtain ⟨hcreated, hquiet, hended⟩ := h.cleaning other stage hcleaning
    refine ⟨List.mem_cons_of_mem _ hcreated, hquiet, fun document hdocument => ?_⟩
    exact hended document ((hold other hcreated).symm.trans hdocument)

theorem ExportInv.claim (h : ExportInv s) (hstep : (ExportAct.claim id).apply s = some t) :
    ExportInv t := by
  obtain ⟨worker, hworker, hstep⟩ := Option.bind_eq_some_iff.1 hstep
  obtain ⟨document, hdocument, hstep⟩ := Option.bind_eq_some_iff.1 hstep
  obtain ⟨_, hguard, he⟩ := Option.bind_eq_some_iff.1 hstep
  have hqueued : document.status = .queued := of_guard hguard
  cases he
  have hcreated : id ∈ s.created := h.documents id document hdocument
  let job : ExportDocument := { document with
    status := .running, workerInstanceId := some worker
    leaseUntil := some (s.now + jobLeaseSeconds) }
  let p : ExportState := (s.setDocument id job).goTo id job (some .beginning)
  show ExportInv p
  have hdocuments : ∀ other, other ≠ id → p.documents other = s.documents other :=
    fun other hne => Function.update_of_ne hne _ _
  have hjob : p.documents id = some job := Function.update_self ..
  have hexecutions : ∀ other, other ≠ id → p.executions other = s.executions other :=
    fun other hne => Function.update_of_ne hne _ _
  have hquiet : ¬Executes p id := by
    intro hexecutes
    obtain ⟨stage, hstage, hwrites⟩ := Executes.goTo hexecutes
    cases hstage
    cases hwrites
  have hother : ∀ other, Executes p other → other ≠ id ∧ Executes s other := by
    intro other hexecutes
    have hne : other ≠ id := fun he => hquiet (he ▸ hexecutes)
    unfold Executes at hexecutes
    rw [hexecutions other hne] at hexecutes
    exact ⟨hne, hexecutes⟩
  refine ⟨h.ledger, ?_, ?_, ?_, ?_, ?_, ?_, h.claims, ?_⟩
  · intro other hexecutes
    obtain ⟨hne, hbefore⟩ := hother other hexecutes
    exact (h.writing other hbefore).of_same (hdocuments other hne) rfl rfl
  · intro hnone
    exact absurd (hworker.symm.trans hnone) (Option.some_ne_none _)
  · intro other hsome i document' hdocument' hrunning
    by_cases hne : i = id
    · rw [hne, hjob] at hdocument'
      cases hdocument'
      exact hworker.symm.trans hsome
    · rw [hdocuments i hne] at hdocument'
      exact h.running other hsome i document' hdocument' hrunning
  · intro i document' hdocument' hqueued'
    by_cases hne : i = id
    · rw [hne, hjob] at hdocument'
      cases hdocument'
      cases hqueued'
    · rw [hdocuments i hne] at hdocument'
      exact h.queued i document' hdocument' hqueued'
  · intro i document' hdocument'
    by_cases hne : i = id
    · rw [hne]
      exact hcreated
    · rw [hdocuments i hne] at hdocument'
      exact h.documents i document' hdocument'
  · intro i execution hexecution
    by_cases hne : i = id
    · rw [hne]
      exact hcreated
    · rw [hexecutions i hne] at hexecution
      exact h.executions i execution hexecution
  · intro i stage hcleaning
    obtain ⟨hmem, hquiet', hended⟩ := h.cleaning i stage hcleaning
    have hne : i ≠ id := by
      rintro rfl
      exact (hended document hdocument).1 hqueued
    refine ⟨hmem, fun hexecutes => hquiet' (hother i hexecutes).2, fun document' hdocument' => ?_⟩
    rw [hdocuments i hne] at hdocument'
    exact hended document' hdocument'

/-- What the start of a worker does to a document: only its status may change, to failed. -/
theorem failLeftOver_same (s : ExportState) (document : ExportDocument) :
    s.failLeftOver document = document ∨ s.failLeftOver document = { document with status := .failed } := by
  unfold ExportState.failLeftOver
  split
  · exact .inr rfl
  · exact .inl rfl

/-- When no running job's lease runs, no job is left running. -/
theorem failLeftOver_not_running {worker : InstanceId} {document : ExportDocument}
    (htimely : Timely s (.start worker)) (hdocument : s.documents id = some document) :
    (s.failLeftOver document).status ≠ .running := by
  unfold ExportState.failLeftOver
  split
  next => simp
  next hleft =>
    intro hrunning
    obtain ⟨leaseUntil, hlease, hexpired⟩ := htimely id document hdocument hrunning
    exact hleft ⟨hrunning, (Option.any_eq_true _ _).2 ⟨leaseUntil, hlease, decide_eq_true hexpired⟩⟩

theorem ExportInv.start {worker : InstanceId} (h : ExportInv s)
    (htimely : Timely s (.start worker))
    (hstep : (ExportAct.start worker).apply s = some t) : ExportInv t := by
  obtain ⟨_, hguard, he⟩ := Option.bind_eq_some_iff.1 hstep
  have hnone : s.worker = none := (of_guard hguard).1
  cases he
  obtain ⟨hidle, hcleaning⟩ := h.stopped hnone
  have hquiet : ∀ id execution, s.executions id = some execution → False := by
    intro id execution hexecution
    rw [hidle id] at hexecution
    cases hexecution
  refine ⟨h.ledger, ?_, ?_, ?_, ?_, ?_, h.executions, h.claims, ?_⟩
  · intro id ⟨execution, hexecution, _⟩
    exact (hquiet id execution hexecution).elim
  · intro hsome
    cases hsome
  · intro _ _ id document hmap hrunning
    obtain ⟨before, hbefore, rfl⟩ := Option.map_eq_some_iff.1 hmap
    exact absurd hrunning (failLeftOver_not_running htimely hbefore)
  · intro id document hmap hqueued
    obtain ⟨before, hbefore, rfl⟩ := Option.map_eq_some_iff.1 hmap
    obtain hsame | hfailed := failLeftOver_same s before
    · rw [hsame] at hqueued ⊢
      exact h.queued id before hbefore hqueued
    · rw [hfailed] at hqueued
      cases hqueued
  · intro id document hmap
    obtain ⟨before, hbefore, -⟩ := Option.map_eq_some_iff.1 hmap
    exact h.documents id before hbefore
  · intro id stage hstage
    have hcleans : s.cleaning = some (id, stage) := hstage
    rw [hcleaning] at hcleans
    cases hcleans

theorem ExportInv.step {act : ExportAct} (h : ExportInv s) (htimely : Timely s act)
    (hstep : act.apply s = some t) : ExportInv t := by
  cases act with
  | create id expiresAt estimatedBytes sources => exact h.create hstep
  | cancel id =>
    obtain ⟨document, hdocument, hstep⟩ := Option.bind_eq_some_iff.1 hstep
    obtain ⟨_, -, he⟩ := Option.bind_eq_some_iff.1 hstep
    cases he
    refine h.works (works_setDocument hdocument ⟨rfl, .inr (by simp)⟩)
      (h.documents id document hdocument) (fun hnone => (h.stopped hnone).1 id) fun hexecutes => ?_
    obtain ⟨document', hdocument', hown, hwriting, hlease⟩ := h.writing id hexecutes
    rw [hdocument] at hdocument'
    cases hdocument'
    exact ⟨⟨_, Function.update_self .., hown, hwriting, hlease⟩, .inl hexecutes⟩
  | expire id =>
    obtain ⟨document, hdocument, hstep⟩ := Option.bind_eq_some_iff.1 hstep
    obtain ⟨_, -, he⟩ := Option.bind_eq_some_iff.1 hstep
    cases he
    refine h.works { works_refl s id with
        documents := fun other hne => Function.update_of_ne hne _ _
        document := fun after hafter => by simp at hafter }
      (h.documents id document hdocument) (fun hnone => (h.stopped hnone).1 id) fun hexecutes => ?_
    exact absurd hexecutes htimely
  | start worker => exact h.start htimely hstep
  | crash =>
    cases hstep
    refine ⟨h.ledger, ?_, fun _ => ⟨fun _ => rfl, rfl⟩, ?_, h.queued, h.documents, ?_, h.claims, ?_⟩
    · intro id ⟨execution, hexecution, _⟩
      cases hexecution
    · intro worker hsome
      cases hsome
    · intro id execution hexecution
      cases hexecution
    · intro id stage hcleaning
      cases hcleaning
  | claim id => exact h.claim hstep
  | advance id e =>
    obtain ⟨execution, hexecution, he⟩ := Option.bind_eq_some_iff.1 hstep
    cases he
    refine h.works advance_works (h.executions id execution hexecution) (fun hnone => ?_) ?_
    · rw [(h.stopped hnone).1 id] at hexecution
      cases hexecution
    · intro hexecutes
      obtain ⟨hwriting, hbefore | hrunning⟩ := advance_writing hexecution
        (fun hwrites => h.writing id ⟨execution, hexecution, hwrites⟩) hexecutes
      · exact ⟨hwriting, .inl ⟨execution, hexecution, hbefore⟩⟩
      · exact ⟨hwriting, .inr hrunning⟩
  | renew id =>
    obtain ⟨execution, hexecution, hstep⟩ := Option.bind_eq_some_iff.1 hstep
    obtain ⟨_, hguard, he⟩ := Option.bind_eq_some_iff.1 hstep
    have hexecutes : Executes s id := ⟨execution, hexecution, (of_guard hguard).1⟩
    cases he
    refine h.works renewExecutionLease_works (h.executions id execution hexecution)
      (fun hnone => ?_) fun _ => ⟨?_, .inl hexecutes⟩
    · rw [(h.stopped hnone).1 id] at hexecution
      cases hexecution
    · exact renewExecutionLease_writing (h.writing id hexecutes)
  | clean id =>
    obtain ⟨_, hguard, he⟩ := Option.bind_eq_some_iff.1 hstep
    obtain ⟨hworker, -, hmem, hinactive⟩ := of_guard hguard
    cases he
    refine h.cleans (.inl rfl) rfl rfl rfl rfl
      (fun other hother => (h.writing other hother).of_same rfl rfl rfl) (fun hnone => ?_) ?_
    · rw [hnone] at hworker
      cases hworker
    · intro other stage hcleaning
      cases hcleaning
      exact settled_of_inactive h (h.claims id hmem) hinactive
  | cleanNext =>
    obtain ⟨⟨id, stage⟩, hcleaning, hstep⟩ := Option.bind_eq_some_iff.1 hstep
    have hsettled : Settled s id := h.cleaning id stage hcleaning
    have hworker : s.worker = none → False := by
      intro hnone
      rw [(h.stopped hnone).2] at hcleaning
      cases hcleaning
    have hwriting : ∀ other, Executes s other → ∀ p : ExportState, p.documents = s.documents →
        p.worker = s.worker → p.now = s.now → Writing p other := by
      intro other hother p hdocuments hworker hnow
      exact (h.writing other hother).of_same (congrFun hdocuments other) hworker hnow
    cases stage with
    | removingScratch =>
      cases hstep
      exact h.cleans (.inl rfl) rfl rfl rfl rfl
        (fun other hother => hwriting other hother _ rfl rfl rfl)
        (fun hnone => (hworker hnone).elim) fun other stage hother => by cases hother; exact hsettled
    | removingOutput =>
      cases hstep
      exact h.cleans (.inl rfl) rfl rfl rfl rfl
        (fun other hother => hwriting other hother _ rfl rfl rfl)
        (fun hnone => (hworker hnone).elim) fun other stage hother => by cases hother; exact hsettled
    | releasing =>
      obtain ⟨ledger, hrelease, he⟩ := Option.map_eq_some_iff.1 hstep
      cases he
      exact h.cleans (.inr ⟨id, hsettled.created, hrelease⟩) rfl rfl rfl rfl
        (fun other hother => hwriting other hother _ rfl rfl rfl)
        (fun hnone => (hworker hnone).elim) fun other stage hother => by cases hother
  | cleanFails =>
    cases hstep
    exact h.cleans (.inl rfl) rfl rfl rfl rfl
      (fun other hother => (h.writing other hother).of_same rfl rfl rfl) (fun _ => rfl)
      fun other stage hother => by cases hother
  | tick seconds =>
    cases hstep
    refine h.cleans (.inl rfl) rfl rfl rfl rfl ?_
      (fun hnone => (h.stopped hnone).2) h.cleaning
    intro other hother
    obtain ⟨document, hdocument, leaseUntil, hlease, hruns⟩ := htimely other hother
    obtain ⟨document', hdocument', hown, hwriting, -⟩ := h.writing other hother
    rw [hdocument] at hdocument'
    cases hdocument'
    exact ⟨document, hdocument, hown, hwriting, leaseUntil, hlease, hruns⟩

end CameraLogs.Coredumps
