import CameraLogs.Coredumps.ExportRecovery

/-!
# No directory without a claim

A directory is made only after the quota is taken, and the quota is given back only after
both directories are gone, by the execution and by the maintenance alike. What a job has on
the disk is therefore always covered by a claim that is still reserved
(`DirectoryInv.claimed`), so whoever goes through the reserved claims finds all of it.
-/

namespace CameraLogs.Coredumps

open CameraLogs.Lib

variable {s t p : ExportState} {id other : JobId} {job : ExportDocument} {stage : ExportStage}
  {e : StepEnd} {ledger ledger' : ExportLedger} {amount quota : Nat}

/-- The claim of the job is reserved. -/
def ExportLedger.Holds (ledger : ExportLedger) (id : JobId) : Prop :=
  ∃ claim, ledger.find id = some claim ∧ claim.state = .reserved

theorem holds_reserve (h : ledger.reserve quota id amount = some ledger') : ledger'.Holds id := by
  unfold ExportLedger.reserve at h
  split at h
  · cases h
  split at h
  next claim hclaim =>
    split at h
    next hreserved =>
      cases h
      exact ⟨claim, hclaim, hreserved⟩
    next => cases h
  next =>
    split at h
    · cases h
      refine ⟨⟨id, amount, .reserved⟩, ?_, rfl⟩
      unfold ExportLedger.find
      rw [Dict.lookup_upsert, if_pos rfl]
    · cases h

theorem find_reserve (h : ledger.reserve quota id amount = some ledger') (hne : other ≠ id) :
    ledger'.find other = ledger.find other := by
  unfold ExportLedger.reserve at h
  split at h
  · cases h
  split at h
  · split at h
    · cases h
      rfl
    · cases h
  · split at h
    · cases h
      unfold ExportLedger.find
      rw [Dict.lookup_upsert, if_neg (fun he => hne he.symm)]
    · cases h

/-- A transaction of one job leaves the claims of the others. -/
theorem LedgerMove.find (h : LedgerMove id ledger ledger') (hok : LedgerOk ledger)
    (hne : other ≠ id) : ledger'.find other = ledger.find other := by
  obtain rfl | ⟨quota, amount, hreserve⟩ | hrelease := h
  · rfl
  · exact find_reserve hreserve hne
  · obtain ⟨released, hsome, -, -, hothers, -⟩ := hok.release id
    rw [hrelease] at hsome
    cases hsome
    exact hothers other hne

/-! ## Where an execution stands -/

def NoDirectory (s : ExportState) (id : JobId) : Prop := s.scratch id = false ∧ s.output id = false

/-- What a job has on the disk is covered by its claim. -/
def Covered (s : ExportState) (id : JobId) : Prop :=
  s.scratch id = true ∨ s.output id = true → s.ledger.Holds id

theorem NoDirectory.covered (h : NoDirectory s id) : Covered s id := by
  rintro (hscratch | houtput)
  · rw [h.1] at hscratch
    cases hscratch
  · rw [h.2] at houtput
    cases houtput

/-- What an execution relies on before its next step. -/
def StageOk (s : ExportState) (id : JobId) : ExportStage → Prop
  | .beginning | .refused | .releasingRefused | .releasing _ | .releasingWithdrawn =>
    NoDirectory s id
  | .makingScratch | .checkingFreeze _ | .freezing _ | .checkingFetch _ | .fetching _
  | .checkingOutput | .makingOutput => s.ledger.Holds id
  | .removingOutput _ | .finishing _ | .completing _ | .withdrawing => s.scratch id = false
  | .reserving | .writingResult | .checkingResult | .digesting | .removingScratch _ => True

/-- The same for the maintenance. -/
def CleanOk (s : ExportState) (id : JobId) : CleanStage → Prop
  | .removingScratch => True
  | .removingOutput => s.scratch id = false
  | .releasing => NoDirectory s id

/-- The job has the same claim and the same directories in two states. -/
structure SameDisk (s p : ExportState) (id : JobId) : Prop where
  claim : p.ledger.find id = s.ledger.find id
  scratch : p.scratch id = s.scratch id
  output : p.output id = s.output id

theorem SameDisk.covered (h : SameDisk s p id) (hs : Covered s id) : Covered p id := by
  intro hthere
  rw [h.scratch, h.output] at hthere
  unfold ExportLedger.Holds
  rw [h.claim]
  exact hs hthere

theorem SameDisk.noDirectory (h : SameDisk s p id) (hs : NoDirectory s id) : NoDirectory p id :=
  ⟨h.scratch.trans hs.1, h.output.trans hs.2⟩

theorem SameDisk.stageOk (h : SameDisk s p id) (hs : StageOk s id stage) : StageOk p id stage := by
  cases stage
  all_goals
    simp only [StageOk, ExportLedger.Holds, h.claim, h.scratch] at hs ⊢
    try exact hs
  all_goals exact h.noDirectory hs

theorem SameDisk.cleanOk {stage : CleanStage} (h : SameDisk s p id) (hs : CleanOk s id stage) :
    CleanOk p id stage := by
  cases stage with
  | removingScratch => trivial
  | removingOutput => exact h.scratch.trans hs
  | releasing => exact h.noDirectory hs

/-- The job's own part of the invariant. -/
structure OwnOk (s : ExportState) (id : JobId) : Prop where
  covered : Covered s id
  stage : ∀ execution, s.executions id = some execution → StageOk s id execution.stage

theorem ownOk_goTo {next : Option ExportStage} (hcovered : Covered p id)
    (hnext : ∀ stage, next = some stage → StageOk p id stage) : OwnOk (p.goTo id job next) id := by
  refine ⟨hcovered, fun execution hexecution => ?_⟩
  simp only [ExportState.goTo, ExportState.setExecution, Function.update_self,
    Option.map_eq_some_iff] at hexecution
  obtain ⟨stage, hstage, rfl⟩ := hexecution
  exact SameDisk.stageOk (s := p) ⟨rfl, rfl, rfl⟩ (hnext stage hstage)

/-- Whatever becomes of a step of the `try` block, an abandoned one relies on nothing. -/
theorem ownOk_tryStep (hs : Covered s id) (hp : Covered p id) (hstage : StageOk p id stage) :
    OwnOk (s.tryStep id job stage p e) id := by
  cases e with
  | done => exact ownOk_goTo hp fun _ h => by cases h; exact hstage
  | raises cancelled => exact ownOk_goTo hs fun _ h => by cases h; trivial
  | unheard cancelled => exact ownOk_goTo hp fun _ h => by cases h; trivial

theorem ownOk_tryRaise (cancelled : Bool) (hs : Covered s id) :
    OwnOk (s.tryRaise id job cancelled e) id := by
  cases e with
  | done => exact ownOk_goTo hs fun _ h => by cases h; trivial
  | raises cancelled' => exact ownOk_goTo hs fun _ h => by cases h; trivial
  | unheard cancelled' => exact ownOk_goTo hs fun _ h => by cases h; trivial

theorem ownOk_plainStep {next : Option ExportStage} (hs : Covered s id) (hp : Covered p id)
    (hnext : ∀ stage, next = some stage → StageOk p id stage) :
    OwnOk (s.plainStep id job next p e) id := by
  cases e with
  | done => exact ownOk_goTo hp hnext
  | raises cancelled => exact ownOk_goTo hs fun _ h => by cases h
  | unheard cancelled => exact ownOk_goTo hp fun _ h => by cases h

/-- A step that touches neither the claim nor the directories. -/
theorem goesOn_disk (h : s.goesOn id = some p) : SameDisk s p id := by
  unfold ExportState.goesOn at h
  split at h
  · split at h
    · cases h
      exact ⟨rfl, rfl, rfl⟩
    · cases h
  · cases h

theorem beginExecution_disk (h : s.beginExecution id = some p) : SameDisk s p id := by
  unfold ExportState.beginExecution at h
  split at h
  · split at h
    · cases h
      exact ⟨rfl, rfl, rfl⟩
    · cases h
  · cases h

theorem finishExecution_disk : SameDisk s (s.finishExecution id) id := by
  unfold ExportState.finishExecution
  split
  · split <;> exact ⟨rfl, rfl, rfl⟩
  · exact ⟨rfl, rfl, rfl⟩

theorem renewExecutionLease_disk : SameDisk s (s.renewExecutionLease id) id ∧
    (s.renewExecutionLease id).executions = s.executions := by
  unfold ExportState.renewExecutionLease
  split
  · split <;> exact ⟨⟨rfl, rfl, rfl⟩, rfl⟩
  · exact ⟨⟨rfl, rfl, rfl⟩, rfl⟩

theorem complete_disk (update : ExportResult) : SameDisk s (s.complete id update).1 id := by
  unfold ExportState.complete
  split
  · exact ⟨rfl, rfl, rfl⟩
  split
  · split <;> exact ⟨rfl, rfl, rfl⟩
  · exact ⟨rfl, rfl, rfl⟩

theorem ownOk_checkStep (hs : Covered s id) (hstage : StageOk s id stage) :
    OwnOk (s.checkStep id job stage e) id := by
  unfold ExportState.checkStep
  split
  next p hgoes =>
    have hsame : SameDisk s p id := goesOn_disk hgoes
    exact ownOk_tryStep hs (hsame.covered hs) (hsame.stageOk hstage)
  next => exact ownOk_tryRaise true hs

/-- A claim is released once nothing is left on the disk. -/
theorem ownOk_releaseStep {next : Option ExportStage} (hs : NoDirectory s id)
    (hnext : ∀ p stage, next = some stage → NoDirectory p id → StageOk p id stage) :
    OwnOk (s.releaseStep id job next e) id := by
  unfold ExportState.releaseStep
  split
  next ledger hrelease =>
    have hp : NoDirectory (s.withLedger ledger) id := hs
    exact ownOk_plainStep hs.covered hp.covered fun stage hstage => hnext _ stage hstage hp
  next => exact ownOk_goTo hs.covered fun _ h => by cases h

theorem noDirectory_setOutput (h : s.scratch id = false) : NoDirectory (s.setOutput id false) id :=
  ⟨h, Function.update_self ..⟩

theorem covered_of_holds (h : s.ledger.Holds id) : Covered s id := fun _ => h

/-- One step of an execution, from a stage that has what it relies on. -/
theorem advance_ownOk (hs : Covered s id) (hstage : StageOk s id stage)
    (hat : s.executions id = some ⟨job, stage⟩) : OwnOk (s.advance id job e stage) id := by
  cases stage with
  | beginning =>
    simp only [ExportState.advance]
    split
    next p hbegin =>
      exact ownOk_plainStep hs ((beginExecution_disk hbegin).covered hs) fun _ h => by
        cases h; trivial
    next => exact ownOk_plainStep hs hs fun _ h => by cases h; exact hstage
  | refused =>
    simp only [ExportState.advance]
    split
    · exact ownOk_plainStep hs hs fun _ h => by cases h; exact hstage
    · exact ownOk_plainStep hs hs fun _ h => by cases h
  | releasingRefused => exact ownOk_releaseStep hstage fun _ _ h => by cases h
  | reserving =>
    rw [ExportState.advance]
    generalize hreserve : s.ledger.reserve s.quota id job.amount = reserved
    cases reserved with
    | some ledger =>
      have hholds : (s.withLedger ledger).ledger.Holds id := holds_reserve hreserve
      exact ownOk_tryStep hs (covered_of_holds hholds) hholds
    | none => exact ownOk_tryRaise false hs
  | makingScratch => exact ownOk_tryStep hs (covered_of_holds hstage) hstage
  | checkingFreeze left =>
    cases left with
    | zero => exact ownOk_tryStep hs hs hstage
    | succ left => exact ownOk_checkStep hs hstage
  | freezing left => exact ownOk_tryStep hs hs hstage
  | checkingFetch left =>
    cases left with
    | zero => exact ownOk_tryStep hs hs hstage
    | succ left => exact ownOk_checkStep hs hstage
  | fetching left => exact ownOk_tryStep hs hs hstage
  | checkingOutput => exact ownOk_checkStep hs hstage
  | makingOutput => exact ownOk_tryStep hs (covered_of_holds hstage) trivial
  | writingResult => exact ownOk_tryStep hs hs trivial
  | checkingResult => exact ownOk_checkStep hs trivial
  | digesting => exact ownOk_tryStep hs hs trivial
  | removingScratch update =>
    have hgone : (s.setScratch id false).scratch id = false := Function.update_self ..
    refine ownOk_plainStep hs (fun hthere => ?_) fun stage hnext => ?_
    · rw [hgone] at hthere
      exact hs (.inr (hthere.resolve_left Bool.false_ne_true))
    · cases hnext
      unfold ExportState.afterScratch
      split
      · exact hgone
      · exact hgone
  | removingOutput update =>
    have hp : NoDirectory (s.setOutput id false) id := noDirectory_setOutput hstage
    exact ownOk_plainStep hs hp.covered fun _ h => by cases h; exact hp
  | releasing update => exact ownOk_releaseStep hstage fun _ _ h hp => by cases h; exact hp.1
  | finishing update =>
    exact ownOk_plainStep hs (finishExecution_disk.covered hs) fun _ h => by
      cases h
      exact finishExecution_disk.scratch.trans hstage
  | completing update =>
    have hsame : SameDisk s (s.complete id update).1 id := complete_disk update
    have hstays : ∀ p : ExportState, SameDisk s p id → p.executions = s.executions → OwnOk p id := by
      intro p hp hexecutions
      refine ⟨hp.covered hs, fun execution hexecution => ?_⟩
      rw [hexecutions, hat] at hexecution
      cases hexecution
      exact hp.scratch.trans hstage
    cases e with
    | done =>
      refine ownOk_goTo (hsame.covered hs) fun stage hnext => ?_
      split at hnext
      · cases hnext
        exact hsame.scratch.trans hstage
      · cases hnext
    | raises cancelled =>
      cases cancelled with
      | false => exact hstays s ⟨rfl, rfl, rfl⟩ rfl
      | true => exact ownOk_goTo hs fun _ h => by cases h
    | unheard cancelled =>
      cases cancelled with
      | false => exact hstays _ hsame (complete_executions update)
      | true => exact ownOk_goTo (hsame.covered hs) fun _ h => by cases h
  | withdrawing =>
    have hp : NoDirectory (s.setOutput id false) id := noDirectory_setOutput hstage
    exact ownOk_plainStep hs hp.covered fun _ h => by cases h; exact hp
  | releasingWithdrawn => exact ownOk_releaseStep hstage fun _ _ h => by cases h

/-! ## The run -/

structure DirectoryInv (s : ExportState) : Prop where
  own : ∀ id, OwnOk s id
  waiting : ∀ id document, s.documents id = some document → document.status = .queued →
    NoDirectory s id
  cleaning : ∀ id stage, s.cleaning = some (id, stage) → CleanOk s id stage

theorem DirectoryInv.covered (h : DirectoryInv s) (id : JobId) : Covered s id := (h.own id).covered

theorem Works.sameDisk (h : Works s p id) (hok : LedgerOk s.ledger) (hne : other ≠ id) :
    SameDisk s p other :=
  ⟨h.ledger.find hok hne, h.scratch other hne, h.output other hne⟩

theorem SameDisk.ownOk (h : SameDisk s p id) (hexecutions : p.executions id = s.executions id)
    (hs : OwnOk s id) : OwnOk p id := by
  refine ⟨h.covered hs.covered, fun execution hexecution => ?_⟩
  rw [hexecutions] at hexecution
  exact h.stageOk (hs.stage execution hexecution)

/-- A step on one job: what is known of the others stays. -/
theorem DirectoryInv.move (h : DirectoryInv s) (hsame : ∀ other, other ≠ id → SameDisk s p other)
    (hdocuments : ∀ other, other ≠ id → p.documents other = s.documents other)
    (hexecutions : ∀ other, other ≠ id → p.executions other = s.executions other)
    (hown : OwnOk p id)
    (hwaiting : ∀ document, p.documents id = some document → document.status = .queued →
      NoDirectory p id)
    (hcleaning : ∀ other stage, p.cleaning = some (other, stage) → CleanOk p other stage) :
    DirectoryInv p where
  own := by
    intro other
    by_cases hne : other = id
    · rw [hne]
      exact hown
    · exact (hsame other hne).ownOk (hexecutions other hne) (h.own other)
  waiting := by
    intro other document hdocument hqueued
    by_cases hne : other = id
    · subst hne
      exact hwaiting document hdocument hqueued
    · rw [hdocuments other hne] at hdocument
      exact (hsame other hne).noDirectory (h.waiting other document hdocument hqueued)
  cleaning := hcleaning

/-- A step of one job: the maintenance keeps what it is at. -/
theorem DirectoryInv.works (h : DirectoryInv s) (hok : LedgerOk s.ledger) (hworks : Works s p id)
    (hown : OwnOk p id)
    (hwaiting : ∀ document, p.documents id = some document → document.status = .queued →
      NoDirectory p id)
    (hcleaning : ∀ stage, s.cleaning = some (id, stage) → CleanOk p id stage) :
    DirectoryInv p := by
  refine h.move (fun other hne => hworks.sameDisk hok hne) hworks.documents hworks.executions hown
    hwaiting fun other stage hstage => ?_
  rw [hworks.cleaning] at hstage
  by_cases hne : other = id
  · subst hne
    exact hcleaning stage hstage
  · exact (hworks.sameDisk hok hne).cleanOk (h.cleaning other stage hstage)

/-- A step that leaves the disk alone. -/
theorem DirectoryInv.sameDisk (h : DirectoryInv s) (hsame : ∀ id, SameDisk s p id)
    (hexecutions : ∀ id execution, p.executions id = some execution →
      s.executions id = some execution)
    (hwaiting : ∀ id document, p.documents id = some document → document.status = .queued →
      NoDirectory s id)
    (hcleaning : ∀ id stage, p.cleaning = some (id, stage) → CleanOk s id stage) :
    DirectoryInv p where
  own := by
    intro id
    refine ⟨(hsame id).covered (h.covered id), fun execution hexecution => ?_⟩
    exact (hsame id).stageOk ((h.own id).stage execution (hexecutions id execution hexecution))
  waiting := fun id document hdocument hqueued =>
    (hsame id).noDirectory (hwaiting id document hdocument hqueued)
  cleaning := fun id stage hstage => (hsame id).cleanOk (hcleaning id stage hstage)

/-- The job has no more on the disk than before. -/
def NoMore (s p : ExportState) (id : JobId) : Prop :=
  (p.scratch id = true → s.scratch id = true) ∧ (p.output id = true → s.output id = true)

theorem noMore_refl (s : ExportState) (id : JobId) : NoMore s s id := ⟨fun h => h, fun h => h⟩

theorem SameDisk.noMore (h : SameDisk s p id) : NoMore s p id :=
  ⟨fun hp => h.scratch.symm.trans hp, fun hp => h.output.symm.trans hp⟩

theorem NoMore.scratch (h : NoMore s p id) (hs : s.scratch id = false) : p.scratch id = false := by
  cases hscratch : p.scratch id with
  | false => rfl
  | true => exact (h.1 hscratch).symm.trans hs

theorem NoMore.noDirectory (h : NoMore s p id) (hs : NoDirectory s id) : NoDirectory p id := by
  refine ⟨h.scratch hs.1, ?_⟩
  cases houtput : p.output id with
  | false => rfl
  | true => exact (h.2 houtput).symm.trans hs.2

theorem NoMore.cleanOk {stage : CleanStage} (h : NoMore s p id) (hs : CleanOk s id stage) :
    CleanOk p id stage := by
  cases stage with
  | removingScratch => trivial
  | removingOutput => exact h.scratch hs
  | releasing => exact h.noDirectory hs

/-- An execution that does not write relies on what it does not find, and on no claim. -/
theorem NoMore.stageOk (h : NoMore s p id) (hquiet : stage.writes = false)
    (hs : StageOk s id stage) : StageOk p id stage := by
  cases stage with
  | beginning => exact h.noDirectory hs
  | refused => exact h.noDirectory hs
  | releasingRefused => exact h.noDirectory hs
  | completing update => exact h.scratch hs
  | withdrawing => exact h.scratch hs
  | releasingWithdrawn => exact h.noDirectory hs
  | _ => cases hquiet

theorem noMore_plainStep {next : Option ExportStage} (h : NoMore s p id) :
    NoMore s (s.plainStep id job next p e) id := by
  cases e with
  | done => exact h
  | raises cancelled => exact noMore_refl s id
  | unheard cancelled => exact h

theorem noMore_releaseStep {next : Option ExportStage} :
    NoMore s (s.releaseStep id job next e) id := by
  unfold ExportState.releaseStep
  split
  · exact noMore_plainStep (noMore_refl s id)
  · exact noMore_refl s id

/-- An execution that does not write makes no directory. -/
theorem advance_noMore (hquiet : stage.writes = false) : NoMore s (s.advance id job e stage) id := by
  cases stage with
  | beginning =>
    simp only [ExportState.advance]
    split
    next p hbegin => exact noMore_plainStep (beginExecution_disk hbegin).noMore
    next => exact noMore_plainStep (noMore_refl s id)
  | refused =>
    simp only [ExportState.advance]
    split <;> exact noMore_plainStep (noMore_refl s id)
  | releasingRefused => exact noMore_releaseStep
  | completing update =>
    have hcompleted : NoMore s (s.complete id update).1 id := (complete_disk update).noMore
    cases e with
    | done => exact hcompleted
    | raises cancelled => cases cancelled <;> exact noMore_refl s id
    | unheard cancelled => cases cancelled <;> exact hcompleted
  | withdrawing =>
    refine noMore_plainStep ⟨fun hthere => hthere, fun hthere => ?_⟩
    have hgone : (s.setOutput id false).output id = false := Function.update_self ..
    rw [hgone] at hthere
    cases hthere
  | releasingWithdrawn => exact noMore_releaseStep
  | _ => cases hquiet

/-- An execution never meets a document that is still queued. -/
theorem ExportInv.not_queued {execution : ExportExecution} {document : ExportDocument}
    (h : ExportInv s) (hexecution : s.executions id = some execution)
    (hwrites : execution.stage.writes = true) (hdocument : s.documents id = some document) :
    document.status ≠ .queued := by
  intro hqueued
  obtain ⟨document', hdocument', hown, -⟩ := h.writing id ⟨execution, hexecution, hwrites⟩
  rw [hdocument] at hdocument'
  cases hdocument'
  rw [h.queued id document hdocument hqueued] at hown
  rw [(h.stopped hown.symm).1 id] at hexecution
  cases hexecution

theorem DirectoryInv.advance {execution : ExportExecution} (h : DirectoryInv s) (hinv : ExportInv s)
    (hexecution : s.executions id = some execution) :
    DirectoryInv (s.advance id execution.job e execution.stage) := by
  have hworks : Works s (s.advance id execution.job e execution.stage) id := advance_works
  refine h.works hinv.ledger hworks
    (advance_ownOk (h.covered id) ((h.own id).stage execution hexecution) hexecution)
    (fun after hafter hqueued => ?_) fun stage hcleaning => ?_
  · obtain ⟨before, hbefore, -, hstatus | hstatus⟩ := hworks.document after hafter
    · have hwaits : before.status = .queued := hstatus.symm.trans hqueued
      cases hwrites : execution.stage.writes with
      | true => exact absurd hwaits (hinv.not_queued hexecution hwrites hbefore)
      | false => exact (advance_noMore hwrites).noDirectory (h.waiting id before hbefore hwaits)
    · exact absurd hqueued hstatus.1
  · -- what is being cleaned has no execution that writes
    cases hwrites : execution.stage.writes with
    | true => exact absurd ⟨execution, hexecution, hwrites⟩ (hinv.cleaning id stage hcleaning).quiet
    | false => exact (advance_noMore hwrites).cleanOk (h.cleaning id stage hcleaning)

theorem DirectoryInv.cleanNext {stage : CleanStage} (h : DirectoryInv s) (hinv : ExportInv s)
    (hcleaning : s.cleaning = some (id, stage)) (hstep : s.cleanNext id stage = some t) :
    DirectoryInv t := by
  have hsettled : Settled s id := hinv.cleaning id stage hcleaning
  have hclean : CleanOk s id stage := h.cleaning id stage hcleaning
  -- the executions that are left of a settled job rely on no directory and no claim
  have hrelies : ∀ p : ExportState, p.executions = s.executions → NoMore s p id → Covered p id →
      OwnOk p id := by
    intro p hexecutions hmore hcovered
    refine ⟨hcovered, fun execution hexecution => ?_⟩
    rw [hexecutions] at hexecution
    have hstage : StageOk s id execution.stage := (h.own id).stage execution hexecution
    cases hwrites : execution.stage.writes with
    | false => exact hmore.stageOk hwrites hstage
    | true => exact absurd ⟨execution, hexecution, hwrites⟩ hsettled.quiet
  have hwaiting : ∀ p : ExportState, p.documents = s.documents → ∀ document,
      p.documents id = some document → document.status = .queued → NoDirectory p id := by
    intro p hdocuments document hdocument hqueued
    rw [hdocuments] at hdocument
    exact absurd hqueued (hsettled.ended document hdocument).1
  cases stage with
  | removingScratch =>
    cases hstep
    have hgone : Function.update s.scratch id false id = false := Function.update_self ..
    refine h.move (fun other hne => ⟨rfl, Function.update_of_ne hne _ _, rfl⟩) (fun _ _ => rfl)
      (fun _ _ => rfl) (hrelies _ rfl ⟨fun hthere => ?_, fun hthere => hthere⟩ fun hthere => ?_)
      (hwaiting _ rfl) fun other stage hother => ?_
    · cases hgone.symm.trans hthere
    · refine h.covered id (.inr (hthere.resolve_left fun hscratch => ?_))
      cases hgone.symm.trans hscratch
    · cases hother
      exact hgone
  | removingOutput =>
    cases hstep
    have hgone : NoDirectory (s.setOutput id false) id := noDirectory_setOutput hclean
    refine h.move (fun other hne => ⟨rfl, rfl, Function.update_of_ne hne _ _⟩) (fun _ _ => rfl)
      (fun _ _ => rfl) (hrelies _ rfl ⟨fun hthere => hthere, fun hthere => ?_⟩ hgone.covered)
      (hwaiting _ rfl) fun other stage hother => ?_
    · cases hgone.2.symm.trans hthere
    · cases hother
      exact hgone
  | releasing =>
    obtain ⟨ledger, hrelease, he⟩ := Option.map_eq_some_iff.1 hstep
    cases he
    have hmove : LedgerMove id s.ledger ledger := .inr (.inr hrelease)
    exact h.move (fun other hne => ⟨hmove.find hinv.ledger hne, rfl, rfl⟩) (fun _ _ => rfl)
      (fun _ _ => rfl) (hrelies _ rfl (noMore_refl s id) (NoDirectory.covered hclean))
      (hwaiting _ rfl) fun other stage hother => by cases hother

theorem DirectoryInv.step {act : ExportAct} (h : DirectoryInv s) (hinv : ExportInv s)
    (hstep : act.apply s = some t) : DirectoryInv t := by
  cases act with
  | create id expiresAt estimatedBytes sources =>
    obtain ⟨_, hguard, he⟩ := Option.bind_eq_some_iff.1 hstep
    have hnew : id ∉ s.created := of_guard hguard
    cases he
    refine h.sameDisk (fun _ => ⟨rfl, rfl, rfl⟩) (fun _ _ hexecution => hexecution) ?_ h.cleaning
    intro other document hdocument hqueued
    by_cases hne : other = id
    · -- a job that was never created has no claim
      subst hne
      have hnone : ¬s.ledger.Holds other := by
        intro ⟨claim, hclaim, _⟩
        obtain ⟨hmem, hid⟩ := Dict.lookup_some hclaim
        exact hnew (hinv.claims other (List.mem_map.2 ⟨claim, hmem, hid⟩))
      refine ⟨?_, ?_⟩
      · cases hscratch : s.scratch other with
        | false => rfl
        | true => exact absurd (h.covered other (.inl hscratch)) hnone
      · cases houtput : s.output other with
        | false => rfl
        | true => exact absurd (h.covered other (.inr houtput)) hnone
    · have hbefore : Function.update s.documents id _ other = some document := hdocument
      rw [Function.update_of_ne hne] at hbefore
      exact h.waiting other document hbefore hqueued
  | cancel id =>
    obtain ⟨document, hdocument, hstep⟩ := Option.bind_eq_some_iff.1 hstep
    obtain ⟨_, -, he⟩ := Option.bind_eq_some_iff.1 hstep
    cases he
    refine h.works hinv.ledger (works_setDocument hdocument ⟨rfl, .inr (by simp)⟩)
      (SameDisk.ownOk (s := s) ⟨rfl, rfl, rfl⟩ rfl (h.own id)) (fun after hafter hqueued => ?_)
      (fun stage hcleaning => h.cleaning id stage hcleaning)
    have hcancelled : Function.update s.documents id _ id = some after := hafter
    rw [Function.update_self] at hcancelled
    cases hcancelled
    cases hqueued
  | expire id =>
    obtain ⟨document, hdocument, hstep⟩ := Option.bind_eq_some_iff.1 hstep
    obtain ⟨_, -, he⟩ := Option.bind_eq_some_iff.1 hstep
    cases he
    refine h.sameDisk (fun _ => ⟨rfl, rfl, rfl⟩) (fun _ _ hexecution => hexecution) ?_ h.cleaning
    intro other document' hdocument' hqueued
    have hafter : Function.update s.documents id none other = some document' := hdocument'
    by_cases hne : other = id
    · rw [hne, Function.update_self] at hafter
      cases hafter
    · rw [Function.update_of_ne hne] at hafter
      exact h.waiting other document' hafter hqueued
  | start worker =>
    obtain ⟨_, -, he⟩ := Option.bind_eq_some_iff.1 hstep
    cases he
    refine h.sameDisk (fun _ => ⟨rfl, rfl, rfl⟩) (fun _ _ hexecution => hexecution) ?_ h.cleaning
    intro other document hdocument hqueued
    obtain ⟨before, hbefore, rfl⟩ := Option.map_eq_some_iff.1 hdocument
    refine h.waiting other before hbefore ?_
    unfold ExportState.failLeftOver at hqueued
    split at hqueued
    · cases hqueued
    · exact hqueued
  | crash =>
    cases hstep
    exact h.sameDisk (fun _ => ⟨rfl, rfl, rfl⟩) (fun _ _ hexecution => by cases hexecution)
      h.waiting fun _ _ hcleaning => by cases hcleaning
  | claim id =>
    obtain ⟨worker, hworker, hstep⟩ := Option.bind_eq_some_iff.1 hstep
    obtain ⟨document, hdocument, hstep⟩ := Option.bind_eq_some_iff.1 hstep
    obtain ⟨_, hguard, he⟩ := Option.bind_eq_some_iff.1 hstep
    have hnone : NoDirectory s id := h.waiting id document hdocument (of_guard hguard)
    cases he
    refine h.move (fun _ _ => ⟨rfl, rfl, rfl⟩) (fun other hne => Function.update_of_ne hne _ _)
      (fun other hne => Function.update_of_ne hne _ _)
      (ownOk_goTo (h.covered id) fun _ hnext => by cases hnext; exact hnone) (fun _ _ _ => hnone)
      fun other stage hcleaning => ?_
    exact SameDisk.cleanOk (s := s) ⟨rfl, rfl, rfl⟩ (h.cleaning other stage hcleaning)
  | advance id e =>
    obtain ⟨execution, hexecution, he⟩ := Option.bind_eq_some_iff.1 hstep
    cases he
    exact h.advance hinv hexecution
  | renew id =>
    obtain ⟨execution, hexecution, hstep⟩ := Option.bind_eq_some_iff.1 hstep
    obtain ⟨_, -, he⟩ := Option.bind_eq_some_iff.1 hstep
    cases he
    obtain ⟨hsame, hexecutions⟩ := @renewExecutionLease_disk s id
    refine h.works hinv.ledger renewExecutionLease_works
      (hsame.ownOk (congrFun hexecutions id) (h.own id)) (fun after hafter hqueued => ?_)
      (fun stage hcleaning => hsame.cleanOk (h.cleaning id stage hcleaning))
    obtain ⟨before, hbefore, -, hstatus | hstatus⟩ := renewExecutionLease_works.document after hafter
    · exact hsame.noDirectory (h.waiting id before hbefore (hstatus.symm.trans hqueued))
    · exact absurd hqueued hstatus.1
  | clean id =>
    obtain ⟨_, -, he⟩ := Option.bind_eq_some_iff.1 hstep
    cases he
    exact h.sameDisk (fun _ => ⟨rfl, rfl, rfl⟩) (fun _ _ hexecution => hexecution) h.waiting
      fun _ _ hcleaning => by cases hcleaning; trivial
  | cleanNext =>
    obtain ⟨⟨id, stage⟩, hcleaning, hstep⟩ := Option.bind_eq_some_iff.1 hstep
    exact h.cleanNext hinv hcleaning hstep
  | cleanFails =>
    cases hstep
    exact h.sameDisk (fun _ => ⟨rfl, rfl, rfl⟩) (fun _ _ hexecution => hexecution) h.waiting
      fun _ _ hcleaning => by cases hcleaning
  | tick seconds =>
    cases hstep
    exact h.sameDisk (fun _ => ⟨rfl, rfl, rfl⟩) (fun _ _ hexecution => hexecution) h.waiting
      h.cleaning

end CameraLogs.Coredumps
