import CameraLogs.Logs.ExportOutput
import CameraLogs.Logs.JobLifecycle

/-!
# Readers, the writer and the cleaner of an export

The document keeps readers and cleaners apart: a claim is made when every lease has expired,
and no lease is granted or renewed before the claim is given back. The kernel lock keeps the
writer and the cleaners apart. A claim of cleaning does not wait for a writer, and a cleaner
whose claim has been taken back in the meantime does not notice it: so what holds of the
deletion of a file is that no writer is at work, and, while the claim is current, that no
lease runs.
-/

namespace CameraLogs.Logs

open CameraLogs.Lib
open Relation (ReflTransGen)

variable {ρ : Type} {s t : ExportState ρ} {store store' : ExportStore ρ} {update : ExportUpdate ρ}
  {clock : Nat} {c : CleanerId} {cleaner : ExportCleaner} {w : WriterId} {writer : ExportWriter}

/-! ## The document -/

structure ExportStoreSafe (clock : Nat) (store : ExportStore ρ) : Prop where
  cleaning : store.output.cleanupState = some .cleaning →
    store.document.status.active = false ∧ ∀ r ∈ store.output.readers, r.expiresAt ≤ clock
  cleaned : store.output.cleanupState = some .cleaned →
    store.document.status.active = false ∧
      ∃ token, store.cleanedBy = some token ∧ store.output.cleanupToken = some token

/-- A cleaner's claim carries a reading of the clock. -/
def ExportUpdateOk (clock : Nat) : ExportUpdate ρ → Prop
  | .claimCleanup _ stamp _ => stamp ≤ clock
  | _ => True

theorem ExportUpdateOk.mono {clock' : Nat} (h : ExportUpdateOk clock update)
    (hle : clock ≤ clock') : ExportUpdateOk clock' update := by
  cases update with
  | claimCleanup => exact Nat.le_trans h hle
  | _ => trivial

theorem uncleaned_iff : store.uncleaned = true ↔
    store.output.cleanupState ≠ some .cleaning ∧ store.output.cleanupState ≠ some .cleaned := by
  simp only [ExportStore.uncleaned, decide_eq_true_eq]
  cases store.output.cleanupState with
  | none => simp
  | some state => cases state <;> simp

/-- An update that leaves the cleaning alone may only shorten the leases under a claim. -/
theorem ExportStoreSafe.of_same (h : ExportStoreSafe clock store)
    (hstate : store'.output.cleanupState = store.output.cleanupState)
    (hdoc : store.document.status.active = false → store'.document = store.document)
    (hreaders : store.output.cleanupState = some .cleaning →
      ∀ r ∈ store'.output.readers, r ∈ store.output.readers)
    (hby : store'.cleanedBy = store.cleanedBy)
    (htoken : store'.output.cleanupToken = store.output.cleanupToken) :
    ExportStoreSafe clock store' where
  cleaning := by
    intro hc
    rw [hstate] at hc
    obtain ⟨hterm, hall⟩ := h.cleaning hc
    rw [hdoc hterm]
    exact ⟨hterm, fun r hr => hall r (hreaders hc r hr)⟩
  cleaned := by
    intro hc
    rw [hstate] at hc
    obtain ⟨hterm, htok⟩ := h.cleaned hc
    rw [hdoc hterm, hby, htoken]
    exact ⟨hterm, htok⟩

theorem ExportStoreSafe.idle {state : CleanupState} (hstate : store.output.cleanupState = some state)
    (hidle : state = .idle) : ExportStoreSafe clock store := by
  subst hidle
  refine ⟨fun hc => ?_, fun hc => ?_⟩
  · rw [hstate] at hc
    cases hc
  · rw [hstate] at hc
    cases hc

theorem ExportStoreSafe.setReaders {readers : List ReaderLease} (h : ExportStoreSafe clock store)
    (hreaders : store.output.cleanupState = some .cleaning →
      ∀ r ∈ readers, r ∈ store.output.readers) :
    ExportStoreSafe clock (store.setReaders readers) :=
  h.of_same rfl (fun _ => rfl) hreaders rfl rfl

theorem mem_pullExpired {stamp : Nat} {readers : List ReaderLease} {r : ReaderLease}
    (h : r ∈ pullExpired stamp readers) : r ∈ readers := (List.mem_filter.mp h).1

theorem updateJob_fields (store : ExportStore ρ) (update : JobUpdate ρ) (expiresAt : Nat) :
    (store.updateJob update expiresAt).job = update.apply store.job ∧
      (store.updateJob update expiresAt).cleanedBy = store.cleanedBy ∧
      (store.updateJob update expiresAt).output.cleanupState = store.output.cleanupState ∧
      (store.updateJob update expiresAt).output.cleanupToken = store.output.cleanupToken ∧
      (store.updateJob update expiresAt).output.readers = store.output.readers := by
  unfold ExportStore.updateJob
  simp only
  split <;> exact ⟨rfl, rfl, rfl, rfl, rfl⟩

theorem cleanable_terminal {nodeId : String} {stamp : Nat}
    (h : store.cleanable nodeId stamp = true) : store.document.status.active = false := by
  simp only [ExportStore.cleanable, decide_eq_true_eq] at h
  exact h.2.1

theorem claimedBy_cases {nodeId : String} {stamp : Nat} {token : CleanupToken}
    (h : store.claimedBy nodeId stamp token = true) :
    store.document.status.active = false ∧ store.output.cleanupState = some .cleaning ∧
      store.output.cleanupToken = some token := by
  simp only [ExportStore.claimedBy, decide_eq_true_eq] at h
  exact ⟨cleanable_terminal h.1, h.2⟩

/-- A writer's registration finds a running job, so no cleaning. -/
theorem ExportUpdate.safe (h : ExportStoreSafe clock store) (hok : ExportUpdateOk clock update) :
    ExportStoreSafe clock (update.apply store) := by
  cases update with
  | job update expiresAt =>
    obtain ⟨hjob, hby, hstate, htoken, hreaders⟩ := updateJob_fields store update expiresAt
    refine h.of_same hstate (fun hterm => ?_) (fun _ r hr => hreaders ▸ hr) hby htoken
    show (store.updateJob update expiresAt).job.document = store.job.document
    rw [hjob, (jobUpdate_effect update store.job).terminal hterm]
  | beginOutput handle nodeId =>
    simp only [ExportUpdate.apply]
    split
    next => exact .idle rfl rfl
    next => exact h
  | closeOutput handle nodeId =>
    simp only [ExportUpdate.apply]
    split
    next => exact h.of_same rfl (fun _ => rfl) (fun _ _ hr => hr) rfl rfl
    next => exact h
  | pull stamp => exact h.setReaders fun _ _ hr => mem_pullExpired hr
  | acquire reader nodeId stamp =>
    simp only [ExportUpdate.apply]
    split
    next hreadable =>
      simp only [ExportStore.readable, decide_eq_true_eq] at hreadable
      exact h.setReaders fun hc => absurd hc (uncleaned_iff.mp hreadable.2.2.2.2).1
    next => exact h
  | renew reader nodeId now =>
    simp only [ExportUpdate.apply]
    split
    next hrenew => exact h.setReaders fun hc => absurd hc (uncleaned_iff.mp hrenew.2.2).1
    next => exact h
  | release reader nodeId =>
    simp only [ExportUpdate.apply]
    split
    next => exact h.setReaders fun _ _ hr => (List.mem_filter.mp hr).1
    next => exact h
  | recoverClaim nodeId stamp =>
    simp only [ExportUpdate.apply]
    split
    next => exact .idle rfl rfl
    next => exact h
  | pullCandidate nodeId stamp =>
    simp only [ExportUpdate.apply]
    split
    next => exact h.setReaders fun _ _ hr => mem_pullExpired hr
    next => exact h
  | claimCleanup nodeId stamp token =>
    simp only [ExportUpdate.apply]
    split
    next hclaim =>
      simp only [ExportStore.claimableBy, Bool.and_eq_true, List.all_eq_true,
        decide_eq_true_eq] at hclaim
      exact ⟨fun _ => ⟨cleanable_terminal hclaim.1.1,
        fun r hr => Nat.le_trans (hclaim.2 r hr) hok⟩, nofun⟩
    next => exact h
  | closeWriter nodeId stamp token =>
    simp only [ExportUpdate.apply]
    split
    next => exact h.of_same rfl (fun _ => rfl) (fun _ _ hr => hr) rfl rfl
    next => exact h
  | finishCleanup nodeId stamp token =>
    simp only [ExportUpdate.apply]
    split
    next hfinish =>
      obtain ⟨hterm, -, htoken⟩ := claimedBy_cases hfinish.1
      exact ⟨nofun, fun _ => ⟨hterm, token, rfl, htoken⟩⟩
    next => exact h
  | dropCleanup nodeId stamp token =>
    simp only [ExportUpdate.apply]
    split
    next => exact .idle rfl rfl
    next => exact h

/-- A lease is granted or renewed only while no claim of cleaning is made. -/
theorem ExportUpdate.granted {r : ReaderLease} (hr : r ∈ (update.apply store).output.readers)
    (hnew : r ∉ store.output.readers) : store.uncleaned = true := by
  cases update with
  | job update expiresAt =>
    have hsame := (updateJob_fields store update expiresAt).2.2.2.2
    exact absurd (hsame ▸ hr) hnew
  | pull stamp => exact absurd (mem_pullExpired hr) hnew
  | acquire reader nodeId stamp =>
    simp only [ExportUpdate.apply] at hr
    split at hr
    next hreadable =>
      simp only [ExportStore.readable, decide_eq_true_eq] at hreadable
      exact hreadable.2.2.2.2
    next => exact absurd hr hnew
  | renew reader nodeId now =>
    simp only [ExportUpdate.apply] at hr
    split at hr
    next hrenew => exact hrenew.2.2
    next => exact absurd hr hnew
  | release reader nodeId =>
    simp only [ExportUpdate.apply] at hr
    split at hr
    next => exact absurd (List.mem_filter.mp hr).1 hnew
    next => exact absurd hr hnew
  | pullCandidate nodeId stamp =>
    simp only [ExportUpdate.apply] at hr
    split at hr
    next => exact absurd (mem_pullExpired hr) hnew
    next => exact absurd hr hnew
  | beginOutput handle nodeId =>
    simp only [ExportUpdate.apply] at hr
    split at hr
    next => cases hr
    next => exact absurd hr hnew
  | _ =>
    simp only [ExportUpdate.apply] at hr
    split at hr
    next => exact absurd hr hnew
    next => exact absurd hr hnew

/-- An export becomes cleaned only under the token of the claim. -/
theorem ExportUpdate.cleans (h : (update.apply store).output.cleanupState = some .cleaned)
    (hnot : store.output.cleanupState ≠ some .cleaned) : ∃ token,
      store.output.cleanupState = some .cleaning ∧ store.output.cleanupToken = some token ∧
        (update.apply store).cleanedBy = some token := by
  cases update with
  | finishCleanup nodeId stamp token =>
    simp only [ExportUpdate.apply] at h ⊢
    split at h
    next hfinish =>
      rw [if_pos hfinish]
      obtain ⟨-, hstate, htoken⟩ := claimedBy_cases hfinish.1
      exact ⟨token, hstate, htoken, rfl⟩
    next => exact absurd h hnot
  | job update expiresAt =>
    have hsame := (updateJob_fields store update expiresAt).2.2.1
    exact absurd (hsame.symm.trans h) hnot
  | pull stamp => exact absurd h hnot
  | _ =>
    simp only [ExportUpdate.apply] at h
    split at h
    next => first | exact absurd h hnot | cases h
    next => exact absurd h hnot

/-! ## The kernel lock -/

/-- The stages under the lock. -/
def WriterStage.underLock : WriterStage → Bool
  | .locked | .writing => true
  | _ => false

def CleanerStage.underLock : CleanerStage → Bool
  | .locked | .removing => true
  | _ => false

namespace ExportState

def holds (s : ExportState ρ) : LockHolder → Bool
  | .writer w => (s.writers w).any fun writer => writer.stage.underLock
  | .cleaner c => (s.cleaners c).any fun cleaner => cleaner.stage.underLock

end ExportState

structure ProcessSafe (s : ExportState ρ) : Prop where
  lock : ∀ holder, s.holds holder = true → s.lock = some holder
  stamp : ∀ c cleaner, s.cleaners c = some cleaner → cleaner.stamp ≤ s.clock

theorem setWriter_holds (s : ExportState ρ) (w : WriterId) (writer : ExportWriter)
    (stage : WriterStage) (holder : LockHolder) : (s.setWriter w writer stage).holds holder =
      if holder = .writer w then stage.underLock else s.holds holder := by
  cases holder with
  | writer v =>
    by_cases hv : v = w
    · subst hv
      simp [ExportState.holds, ExportState.setWriter]
    · simp [ExportState.holds, ExportState.setWriter, hv]
  | cleaner c => rfl

theorem setCleaner_holds (s : ExportState ρ) (c : CleanerId) (cleaner : ExportCleaner)
    (stage : CleanerStage) (holder : LockHolder) : (s.setCleaner c cleaner stage).holds holder =
      if holder = .cleaner c then stage.underLock else s.holds holder := by
  cases holder with
  | writer w => rfl
  | cleaner d =>
    by_cases hd : d = c
    · subst hd
      simp [ExportState.holds, ExportState.setCleaner]
    · simp [ExportState.holds, ExportState.setCleaner, hd]

theorem setCleaner_stamp (h : ProcessSafe s) (hstamp : cleaner.stamp ≤ s.clock)
    (stage : CleanerStage) : ∀ d other, (s.setCleaner c cleaner stage).cleaners d = some other →
      other.stamp ≤ s.clock := by
  intro d other hd
  by_cases hdc : d = c
  · subst hdc
    rw [show (s.setCleaner d cleaner stage).cleaners d = some { cleaner with stage } from
      Function.update_self .., Option.some.injEq] at hd
    exact hd ▸ hstamp
  · rw [show (s.setCleaner c cleaner stage).cleaners d = s.cleaners d from
      Function.update_of_ne hdc ..] at hd
    exact h.stamp d other hd

/-- A process goes on to a stage outside the lock, or to one under the lock it has. -/
theorem ProcessSafe.setWriter (h : ProcessSafe s) {stage : WriterStage}
    (hkeep : stage.underLock = true → s.holds (.writer w) = true) :
    ProcessSafe (s.setWriter w writer stage) := by
  refine ⟨fun holder hh => ?_, h.stamp⟩
  rw [setWriter_holds] at hh
  split at hh
  next heq => exact heq ▸ h.lock _ (hkeep hh)
  next => exact h.lock holder hh

theorem ProcessSafe.setCleaner (h : ProcessSafe s) {stage : CleanerStage}
    (hstamp : cleaner.stamp ≤ s.clock)
    (hkeep : stage.underLock = true → s.holds (.cleaner c) = true) :
    ProcessSafe (s.setCleaner c cleaner stage) := by
  refine ⟨fun holder hh => ?_, setCleaner_stamp h hstamp stage⟩
  rw [setCleaner_holds] at hh
  split at hh
  next heq => exact heq ▸ h.lock _ (hkeep hh)
  next => exact h.lock holder hh

/-- A lock that is given back is given back by its holder. -/
theorem ProcessSafe.unlock (h : ProcessSafe s) {holder : LockHolder}
    (hnot : s.holds holder = false) : ProcessSafe (s.unlock holder) := by
  refine ⟨fun other ho => ?_, h.stamp⟩
  have hlock := h.lock other ho
  have hne : other ≠ holder := by
    intro heq
    rw [heq] at ho
    exact absurd (hnot.symm.trans ho) nofun
  show (if s.lock = some holder then none else s.lock) = some other
  rw [hlock, if_neg fun heq => hne (Option.some.inj heq)]

theorem ProcessSafe.closeWriter (h : ProcessSafe s) {stage : WriterStage}
    (hstage : stage.underLock = false) :
    ProcessSafe ((s.setWriter w writer stage).unlock (.writer w)) := by
  have hset : ProcessSafe (s.setWriter w writer stage) :=
    h.setWriter fun hu => absurd (hstage.symm.trans hu) nofun
  refine hset.unlock ?_
  rw [setWriter_holds, if_pos rfl]
  exact hstage

theorem ProcessSafe.closeCleaner (h : ProcessSafe s) {stage : CleanerStage}
    (hstamp : cleaner.stamp ≤ s.clock) (hstage : stage.underLock = false) :
    ProcessSafe ((s.setCleaner c cleaner stage).unlock (.cleaner c)) := by
  have hset : ProcessSafe (s.setCleaner c cleaner stage) :=
    h.setCleaner hstamp fun hu => absurd (hstage.symm.trans hu) nofun
  refine hset.unlock ?_
  rw [setCleaner_holds, if_pos rfl]
  exact hstage

/-- A lock that is free is taken by one process. -/
theorem ProcessSafe.take (h : ProcessSafe s) {holder : LockHolder} (hfree : s.lock = none)
    {t : ExportState ρ} (hholds : ∀ other, t.holds other = true →
      other = holder ∨ s.holds other = true)
    (hstamp : ∀ c cleaner, t.cleaners c = some cleaner → cleaner.stamp ≤ t.clock)
    (hlock : t.lock = some holder) : ProcessSafe t := by
  refine ⟨fun other ho => ?_, hstamp⟩
  rcases hholds other ho with rfl | hold
  · exact hlock
  · exact absurd (hfree.symm.trans (h.lock other hold)) nofun

/-! ## One step -/

structure ExportChange (s t : ExportState ρ) : Prop where
  store : t.db.store = s.db.store ∨ ∃ update, t.db.store = update.apply s.db.store ∧
    ExportUpdateOk s.clock update
  late : ∀ update ∈ t.db.late, update ∈ s.db.late ∨ ExportUpdateOk s.clock update
  clock : s.clock ≤ t.clock
  processes : ProcessSafe t
  files : ∀ name ∈ s.files, name ∉ t.files →
    ∃ c cleaner, s.cleaners c = some cleaner ∧ cleaner.stage = .removing

/-- A step that sends an update and moves a process on. -/
theorem ExportChange.sent (update : ExportUpdate ρ) {o : Outcome} (hok : ExportUpdateOk s.clock update)
    (hdb : t.db = InFlight.send ExportUpdate.apply update o s.db) (hclock : t.clock = s.clock)
    (hfiles : t.files = s.files) (hprocesses : ProcessSafe t) : ExportChange s t where
  store := by
    rw [hdb]
    rcases InFlight.send_store ExportUpdate.apply update s.db o with hs | hs
    · exact Or.inl hs
    · exact Or.inr ⟨update, hs, hok⟩
  late := by
    rw [hdb]
    intro v hv
    rcases InFlight.mem_late_send hv with rfl | hv
    · exact Or.inr hok
    · exact Or.inl hv
  clock := Nat.le_of_eq hclock.symm
  processes := hprocesses
  files := fun name hname hnot => absurd (hfiles.symm ▸ hname) hnot

/-- A step of a process alone. -/
theorem ExportChange.moved (hdb : t.db = s.db) (hclock : s.clock ≤ t.clock)
    (hfiles : ∀ name ∈ s.files, name ∈ t.files) (hprocesses : ProcessSafe t) :
    ExportChange s t where
  store := Or.inl (congrArg InFlight.store hdb)
  late := fun _ hv => Or.inl (hdb ▸ hv)
  clock := hclock
  processes := hprocesses
  files := fun name hname hnot => absurd (hfiles name hname) hnot

theorem holds_writer {stage : WriterStage} (hw : s.writers w = some writer)
    (hstage : writer.stage = stage) (hu : stage.underLock = true) :
    s.holds (.writer w) = true := by
  simp [ExportState.holds, hw, hstage, hu]

theorem holds_cleaner {stage : CleanerStage} (hc : s.cleaners c = some cleaner)
    (hstage : cleaner.stage = stage) (hu : stage.underLock = true) :
    s.holds (.cleaner c) = true := by
  simp [ExportState.holds, hc, hstage, hu]

theorem sendAt_change (update : ExportUpdate ρ) {now : Nat} {o : Outcome} (hp : ProcessSafe s)
    (hok : now ≤ s.clock → ExportUpdateOk s.clock update) (h : sendAt now update o s = some t) :
    ExportChange s t := by
  simp only [sendAt, bind, Option.bind_eq_some_iff] at h
  obtain ⟨_, hnow, h⟩ := h
  cases h
  exact .sent update (hok (of_guard hnow)) rfl rfl rfl ⟨hp.lock, hp.stamp⟩

theorem ExportAct.change {act : ExportAct ρ} (hp : ProcessSafe s)
    (hlate : ∀ update ∈ s.db.late, ExportUpdateOk s.clock update) (h : act.apply s = some t) :
    ExportChange s t := by
  cases act with
  | tick =>
    cases h
    exact .moved rfl (Nat.le_succ _) (fun _ hn => hn)
      ⟨hp.lock, fun c cleaner hc => Nat.le_succ_of_le (hp.stamp c cleaner hc)⟩
  | job update expiresAt o =>
    cases h
    exact .sent (.job update expiresAt) trivial rfl rfl rfl ⟨hp.lock, hp.stamp⟩
  | lockWriter w handle nodeId =>
    simp only [ExportAct.apply, lockWriterAct, bind, Option.bind_eq_some_iff] at h
    obtain ⟨_, hg, h⟩ := h
    cases h
    have hfree := (of_guard hg).2
    refine .moved rfl (Nat.le_refl _) (fun _ hn => hn) (hp.take hfree ?_ hp.stamp rfl)
    intro other ho
    have ho : (s.setWriter w ⟨handle, nodeId, .locked⟩ .locked).holds other = true := ho
    rw [setWriter_holds] at ho
    split at ho
    next heq => exact Or.inl heq
    next => exact Or.inr ho
  | beginOutput w o =>
    simp only [ExportAct.apply, beginOutputAct, bind, Option.bind_eq_some_iff] at h
    obtain ⟨writer, hw, _, hg, h⟩ := h
    have hheld := holds_writer hw (of_guard hg) rfl
    have hsent : ProcessSafe (s.send (.beginOutput writer.handle writer.nodeId) o) :=
      ⟨hp.lock, hp.stamp⟩
    split at h
    next =>
      cases h
      exact .sent (.beginOutput writer.handle writer.nodeId) trivial rfl rfl rfl
        (hsent.setWriter fun _ => hheld)
    next =>
      cases h
      exact .sent (.beginOutput writer.handle writer.nodeId) trivial rfl rfl rfl
        (hsent.closeWriter rfl)
  | write w name =>
    simp only [ExportAct.apply, writeAct, bind, Option.bind_eq_some_iff] at h
    obtain ⟨writer, -, _, -, h⟩ := h
    cases h
    exact .moved rfl (Nat.le_refl _) (fun _ hn => List.mem_cons_of_mem _ hn) ⟨hp.lock, hp.stamp⟩
  | unlockWriter w =>
    simp only [ExportAct.apply, unlockWriterAct, bind, Option.bind_eq_some_iff] at h
    obtain ⟨writer, -, _, -, h⟩ := h
    cases h
    exact .moved rfl (Nat.le_refl _) (fun _ hn => hn) (hp.closeWriter rfl)
  | closeOutput w o =>
    simp only [ExportAct.apply, closeOutputAct, bind, Option.bind_eq_some_iff] at h
    obtain ⟨writer, -, _, -, h⟩ := h
    cases h
    have hsent : ProcessSafe (s.send (.closeOutput writer.handle writer.nodeId) o) :=
      ⟨hp.lock, hp.stamp⟩
    exact .sent (.closeOutput writer.handle writer.nodeId) trivial rfl rfl rfl
      (hsent.setWriter nofun)
  | killWriter w =>
    simp only [ExportAct.apply, killWriterAct, bind, Option.bind_eq_some_iff] at h
    obtain ⟨writer, -, h⟩ := h
    cases h
    exact .moved rfl (Nat.le_refl _) (fun _ hn => hn) (hp.closeWriter rfl)
  | pull stamp o => exact sendAt_change (.pull stamp) hp (fun _ => trivial) h
  | acquire reader nodeId stamp o =>
    exact sendAt_change (.acquire reader nodeId stamp) hp (fun _ => trivial) h
  | renew reader nodeId now o =>
    exact sendAt_change (.renew reader nodeId now) hp (fun _ => trivial) h
  | release reader nodeId o =>
    cases h
    exact .sent (.release reader nodeId) trivial rfl rfl rfl ⟨hp.lock, hp.stamp⟩
  | recoverClaim nodeId stamp o =>
    exact sendAt_change (.recoverClaim nodeId stamp) hp (fun _ => trivial) h
  | fetch c nodeId stamp =>
    simp only [ExportAct.apply, fetchExport, bind, Option.bind_eq_some_iff] at h
    obtain ⟨_, hg, _, -, h⟩ := h
    cases h
    exact .moved rfl (Nat.le_refl _) (fun _ hn => hn) (hp.setCleaner (of_guard hg).2 nofun)
  | pullCandidate c o =>
    simp only [ExportAct.apply, pullCandidateAct, bind, Option.bind_eq_some_iff] at h
    obtain ⟨cleaner, -, _, -, h⟩ := h
    cases h
    exact .sent (.pullCandidate cleaner.nodeId cleaner.stamp) trivial rfl rfl rfl
      ⟨hp.lock, hp.stamp⟩
  | claimCleanup c o =>
    simp only [ExportAct.apply, claimCleanupAct, bind, Option.bind_eq_some_iff] at h
    obtain ⟨cleaner, hc, _, -, h⟩ := h
    cases h
    have hstamp := hp.stamp c cleaner hc
    refine .sent (.claimCleanup cleaner.nodeId cleaner.stamp
      ⟨c, cleaner.number + 1⟩) hstamp rfl rfl rfl ?_
    refine ProcessSafe.setCleaner (s := s.send _ o) ⟨hp.lock, hp.stamp⟩ hstamp ?_
    split <;> exact nofun
  | lockCleaner c =>
    simp only [ExportAct.apply, lockCleanerAct, bind, Option.bind_eq_some_iff] at h
    obtain ⟨cleaner, hc, _, -, h⟩ := h
    have hstamp := hp.stamp c cleaner hc
    split at h
    next hfree =>
      cases h
      refine .moved rfl (Nat.le_refl _) (fun _ hn => hn)
        (hp.take hfree ?_ (setCleaner_stamp hp hstamp .locked) rfl)
      intro other ho
      have ho : (s.setCleaner c cleaner .locked).holds other = true := ho
      rw [setCleaner_holds] at ho
      split at ho
      next heq => exact Or.inl heq
      next => exact Or.inr ho
    next =>
      cases h
      exact .moved rfl (Nat.le_refl _) (fun _ hn => hn) (hp.setCleaner hstamp nofun)
  | closeWriter c o =>
    simp only [ExportAct.apply, closeWriterAct, bind, Option.bind_eq_some_iff] at h
    obtain ⟨cleaner, hc, _, hg, h⟩ := h
    have hheld := holds_cleaner hc (of_guard hg) rfl
    have hstamp := hp.stamp c cleaner hc
    split at h
    next =>
      split at h
      next =>
        cases h
        exact .sent (.closeWriter cleaner.nodeId cleaner.stamp (cleaner.token c)) trivial
          rfl rfl rfl (ProcessSafe.setCleaner (s := s.send _ o) ⟨hp.lock, hp.stamp⟩ hstamp
            fun _ => hheld)
      next =>
        cases h
        exact .sent (.closeWriter cleaner.nodeId cleaner.stamp (cleaner.token c)) trivial
          rfl rfl rfl (ProcessSafe.closeCleaner (s := s.send _ o) ⟨hp.lock, hp.stamp⟩ hstamp rfl)
    next =>
      cases h
      exact .moved rfl (Nat.le_refl _) (fun _ hn => hn) (hp.setCleaner hstamp fun _ => hheld)
  | remove c name =>
    simp only [ExportAct.apply, removeAct, bind, Option.bind_eq_some_iff] at h
    obtain ⟨cleaner, hc, _, hg, h⟩ := h
    cases h
    exact ⟨Or.inl rfl, fun _ hu => Or.inl hu, Nat.le_refl _, ⟨hp.lock, hp.stamp⟩,
      fun _ _ _ => ⟨c, cleaner, hc, of_guard hg⟩⟩
  | unlockCleaner c =>
    simp only [ExportAct.apply, unlockCleanerAct, bind, Option.bind_eq_some_iff] at h
    obtain ⟨cleaner, hc, _, -, h⟩ := h
    cases h
    exact .moved rfl (Nat.le_refl _) (fun _ hn => hn) (hp.closeCleaner (hp.stamp c cleaner hc) rfl)
  | finishCleanup c o =>
    simp only [ExportAct.apply, finishCleanupAct, bind, Option.bind_eq_some_iff] at h
    obtain ⟨cleaner, hc, _, -, h⟩ := h
    cases h
    refine .sent (.finishCleanup cleaner.nodeId cleaner.stamp (cleaner.token c)) trivial
      rfl rfl rfl ?_
    refine ProcessSafe.setCleaner (s := s.send _ o) ⟨hp.lock, hp.stamp⟩ (hp.stamp c cleaner hc) ?_
    split <;> exact nofun
  | fail c =>
    simp only [ExportAct.apply, failCleanerAct, bind, Option.bind_eq_some_iff] at h
    obtain ⟨cleaner, hc, _, -, h⟩ := h
    cases h
    exact .moved rfl (Nat.le_refl _) (fun _ hn => hn) (hp.closeCleaner (hp.stamp c cleaner hc) rfl)
  | dropCleanup c o =>
    simp only [ExportAct.apply, dropCleanupAct, bind, Option.bind_eq_some_iff] at h
    obtain ⟨cleaner, hc, _, -, h⟩ := h
    cases h
    refine .sent (.dropCleanup cleaner.nodeId cleaner.stamp (cleaner.token c)) trivial
      rfl rfl rfl ?_
    refine ProcessSafe.setCleaner (s := s.send _ o) ⟨hp.lock, hp.stamp⟩ (hp.stamp c cleaner hc) ?_
    split <;> exact nofun
  | killCleaner c =>
    simp only [ExportAct.apply, killCleanerAct, bind, Option.bind_eq_some_iff] at h
    obtain ⟨cleaner, hc, h⟩ := h
    cases h
    exact .moved rfl (Nat.le_refl _) (fun _ hn => hn) (hp.closeCleaner (hp.stamp c cleaner hc) rfl)
  | land index =>
    obtain ⟨db, hdb, rfl⟩ := Option.map_eq_some_iff.mp h
    obtain ⟨update, hu, rfl⟩ := InFlight.land_eq_some.mp hdb
    exact ⟨Or.inr ⟨update, rfl, hlate update (List.mem_of_getElem? hu)⟩,
      fun _ hv => Or.inl (List.mem_of_mem_eraseIdx hv), Nat.le_refl _, ⟨hp.lock, hp.stamp⟩,
      fun _ hn hnot => absurd hn hnot⟩

/-! ## The result -/

structure ExportSafe (s : ExportState ρ) : Prop where
  store : ExportStoreSafe s.clock s.db.store
  processes : ProcessSafe s
  late : ∀ update ∈ s.db.late, ExportUpdateOk s.clock update

theorem ExportStoreSafe.later {clock' : Nat} (h : ExportStoreSafe clock store)
    (hle : clock ≤ clock') : ExportStoreSafe clock' store where
  cleaning := fun hc => ⟨(h.cleaning hc).1, fun r hr => Nat.le_trans ((h.cleaning hc).2 r hr) hle⟩
  cleaned := h.cleaned

theorem ExportSafe.next (h : ExportSafe s) (hc : ExportChange s t) : ExportSafe t where
  store := by
    have hclock := hc.clock
    rcases hc.store with hs | ⟨update, hs, hok⟩
    · rw [hs]
      exact h.store.later hclock
    · rw [hs]
      exact (ExportUpdate.safe h.store hok).later hclock
  processes := hc.processes
  late := by
    intro update hu
    rcases hc.late update hu with hold | hok
    · exact (h.late update hold).mono hc.clock
    · exact hok.mono hc.clock

theorem exportInitial_safe (h : ExportInitial s) : ExportSafe s where
  store := ⟨fun hc => absurd (h.cleanupState.symm.trans hc) nofun,
    fun hc => absurd (h.cleanupState.symm.trans hc) nofun⟩
  processes := by
    refine ⟨fun holder hh => ?_, fun c cleaner hc => ?_⟩
    · cases holder with
      | writer w => simp [ExportState.holds, h.writers] at hh
      | cleaner c => simp [ExportState.holds, h.cleaners] at hh
    · rw [h.cleaners c] at hc
      cases hc
  late := fun update hu => by simp [h.late] at hu

theorem ExportSafe.change (h : ExportSafe s) (hst : ExportStep s t) : ExportChange s t := by
  obtain ⟨act, hact⟩ := hst
  exact ExportAct.change h.processes h.late hact

theorem export_safe (h : Reachable ExportInitial ExportStep s) : ExportSafe s :=
  h.invariant (fun _ h₀ => exportInitial_safe h₀) (fun _ _ hst hs => hs.next (hs.change hst))

/-- No lease on the export runs. -/
def ExportState.Unread (s : ExportState ρ) : Prop :=
  ∀ r ∈ s.db.store.output.readers, r.expiresAt ≤ s.clock

/-- No registered writer is at work. -/
def ExportState.Unwritten (s : ExportState ρ) : Prop :=
  ∀ w writer, s.writers w = some writer → writer.stage ≠ .writing

/-- A cleaner that deletes has the lock, so a writer has not. -/
theorem unwritten_of_removing (hp : ProcessSafe s) (hc : s.cleaners c = some cleaner)
    (hstage : cleaner.stage = .removing) : s.Unwritten := by
  intro w writer hw hwriting
  have hlock := hp.lock _ (holds_cleaner hc hstage rfl)
  have hlock' := hp.lock _ (holds_writer hw hwriting rfl)
  rw [hlock] at hlock'
  cases hlock'

/-- In every run: while an export is being cleaned, no reader's lease on it runs; a file of it
is deleted only while no registered writer is at work, and, where the claim of the cleaner
that deletes it is still the current one, while no reader's lease runs; a lease is granted
or renewed only while no cleaner has a claim and none has finished; and an export is
recorded as cleaned only under the token of the current claim. -/
theorem export_exclusion (s : ExportState ρ) (h : Reachable ExportInitial ExportStep s) :
    (s.db.store.output.cleanupState = some .cleaning → s.Unread) ∧
    (∀ t, ExportStep s t → ∀ name ∈ s.files, name ∉ t.files → s.Unwritten ∧
      ∃ c cleaner, s.cleaners c = some cleaner ∧ cleaner.stage = .removing ∧
        (s.db.store.output.cleanupState = some .cleaning →
          s.db.store.output.cleanupToken = some (cleaner.token c) → s.Unread)) ∧
    (∀ t, ExportStep s t → ∀ r ∈ t.db.store.output.readers, r ∉ s.db.store.output.readers →
      s.db.store.output.cleanupState ≠ some .cleaning ∧
        s.db.store.output.cleanupState ≠ some .cleaned) ∧
    (∀ t, ExportStep s t → t.db.store.output.cleanupState = some .cleaned →
      s.db.store.output.cleanupState ≠ some .cleaned → ∃ token,
        s.db.store.output.cleanupState = some .cleaning ∧
          s.db.store.output.cleanupToken = some token ∧ t.db.store.cleanedBy = some token) := by
  have hs := export_safe h
  have hunread : s.db.store.output.cleanupState = some .cleaning → s.Unread :=
    fun hc => (hs.store.cleaning hc).2
  refine ⟨hunread, ?_, ?_, ?_⟩
  · intro t hst name hname hnot
    obtain ⟨c, cleaner, hc, hstage⟩ := (hs.change hst).files name hname hnot
    exact ⟨unwritten_of_removing hs.processes hc hstage, c, cleaner, hc, hstage,
      fun hcleaning _ => hunread hcleaning⟩
  · intro t hst r hr hnew
    rcases (hs.change hst).store with hsame | ⟨update, hstore, -⟩
    · rw [hsame] at hr
      exact absurd hr hnew
    · rw [hstore] at hr
      exact uncleaned_iff.mp (ExportUpdate.granted hr hnew)
  · intro t hst hcleaned hnot
    rcases (hs.change hst).store with hsame | ⟨update, hstore, -⟩
    · rw [hsame] at hcleaned
      exact absurd hcleaned hnot
    · rw [hstore] at hcleaned ⊢
      exact ExportUpdate.cleans hcleaned hnot

def exportStart : ExportState Nat where
  db := { store := ⟨submittedJob.db.store, ⟨none, none, none, false, none, none, none, [], 0⟩, none⟩
          late := [] }
  clock := 0
  lock := none
  writers := fun _ => none
  cleaners := fun _ => none
  files := []

theorem exportStart_initial : ExportInitial exportStart :=
  ⟨rfl, rfl, rfl, rfl, rfl, rfl, fun _ => rfl, fun _ => rfl⟩

def exportHandle : JobHandle := ⟨some 0, some "i", "n"⟩

/-- The job is claimed and its worker registers as the writer. -/
def registerWriter : List (ExportAct Nat) :=
  [.job (.claim 0 "i" "n" 0) 0 .performed, .lockWriter 0 exportHandle "n",
    .beginOutput 0 .performed]

set_option maxRecDepth 2000 in
/-- An export is written, read, and cleaned when it and the lease on it have expired. -/
theorem export_exclusion_cleaned : ∃ s t : ExportState Nat, Reachable ExportInitial ExportStep s ∧
    ExportStep s t ∧ s.files = ["a"] ∧ t.files = [] ∧
    s.db.store.output.readers = [⟨0, 90⟩] ∧ s.Unwritten ∧ s.Unread := by
  have hrun : ∃ s t, runActs ExportAct.apply (registerWriter ++ [.write 0 "a", .unlockWriter 0,
      .closeOutput 0 .performed,
      .job (.complete exportHandle ⟨.succeeded, rfl, none⟩ 0) 40 .performed,
      .acquire 0 "n" 0 .performed] ++ List.replicate 90 .tick ++ [.fetch 0 "n" 90,
      .claimCleanup 0 .performed, .lockCleaner 0, .closeWriter 0 .performed]) exportStart =
        some s ∧ (ExportAct.remove 0 "a").apply s = some t ∧ s.files = ["a"] ∧ t.files = [] ∧
      s.db.store.output.readers = [⟨0, 90⟩] ∧ s.db.store.output.cleanupState = some .cleaning :=
    ⟨_, _, rfl, rfl, rfl, rfl, rfl, rfl⟩
  obtain ⟨s, t, hs, ht, hfiles, hfiles', hreaders, hcleaning⟩ := hrun
  have hreach : Reachable ExportInitial ExportStep s := ⟨_, exportStart_initial, runActs_steps hs⟩
  obtain ⟨hunread, hdeleted, -⟩ := export_exclusion s hreach
  have hmem : "a" ∈ s.files := by simp [hfiles]
  exact ⟨s, t, hreach, ⟨_, ht⟩, hfiles, hfiles', hreaders,
    (hdeleted t ⟨_, ht⟩ "a" hmem (by simp [hfiles'])).1, hunread hcleaning⟩

/-- A job is cancelled and expires while its worker still writes: the cleaner claims the
export before it tries the lock. -/
theorem cleaning_beside_writer : ¬ ∀ s : ExportState Nat, Reachable ExportInitial ExportStep s →
    (s.db.store.output.cleanupState = some .cleaning → s.Unread ∧ s.Unwritten) ∧
    (∀ t, ExportStep s t → ∀ name ∈ s.files, name ∉ t.files → s.Unread ∧ s.Unwritten) ∧
    (∀ t, ExportStep s t → t.db.store.output.cleanupState = some .cleaned →
      s.db.store.output.cleanupState ≠ some .cleaned →
        s.db.store.output.cleanupToken ≠ none ∧
          t.db.store.cleanedBy = s.db.store.output.cleanupToken) := by
  intro hclaim
  have hrun : ∃ s writer, runActs ExportAct.apply (registerWriter ++ [.job .cancel 0 .performed,
      .fetch 0 "n" 0, .claimCleanup 0 .performed]) exportStart = some s ∧
      s.db.store.output.cleanupState = some .cleaning ∧ s.writers 0 = some writer ∧
      writer.stage = .writing :=
    ⟨_, _, rfl, rfl, rfl, rfl⟩
  obtain ⟨s, writer, hs, hcleaning, hwriter, hstage⟩ := hrun
  have hreach : Reachable ExportInitial ExportStep s := ⟨_, exportStart_initial, runActs_steps hs⟩
  exact ((hclaim s hreach).1 hcleaning).2 0 writer hwriter hstage

end CameraLogs.Logs
