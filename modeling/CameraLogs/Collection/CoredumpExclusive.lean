import CameraLogs.Collection.CoredumpLease

/-!
# One keeper of the mount

The filters of the updates keep the lease with its owner: an update by another call meets
its filter only where the lease had run out by a clock reading that lies in the past. What
a call knows when it sends its update, that its clock reading is not in the future and that
the device has the source the call was admitted with, is `StageInv`; it stays true whatever
the others do in between, since the clock does not run back, a source once set is never
replaced and what was written stays written (`Onward`).

A clock reading is older than the update that it is sent with. An extension therefore
lasts its twenty seconds from the reading, not from the answer.
-/

namespace CameraLogs.Collection

open CameraLogs.Lib
open Relation (ReflTransGen)

variable {s t : CoredumpState} {i : CallId} {call : GuardCall} {update : LeaseUpdate}
  {owner owner' : LeaseOwner} {active : Bool}

/-- The owner of an unexpired lease. -/
def CoredumpState.Holds (s : CoredumpState) (owner : LeaseOwner) : Prop :=
  ∃ lease ∈ s.resource.coredumpLease, lease.owner = owner ∧ s.now < lease.leaseUntil

/-- The update writes the lease, not only the source of the mount. -/
def LeaseUpdate.OfLease : LeaseUpdate → Prop
  | fixTarget _ => False
  | _ => True

/-- The clock reading the update carries. -/
def LeaseUpdate.timestamp : LeaseUpdate → Option Nat
  | fixTarget _ => none
  | grant timestamp => some timestamp
  | handOver timestamp => some timestamp
  | extend timestamp => some timestamp
  | release timestamp => some timestamp

/-- A call names no source, or the one the device has. -/
def CoredumpState.SourceOf (s : CoredumpState) (mountTarget : Option MountTarget) : Prop :=
  mountTarget = none ∨ s.resource.coredumpLeaseTarget = mountTarget

/-- The state after an update that has met its filter. -/
def CoredumpState.after (s : CoredumpState) (i : CallId) (call : GuardCall)
    (update : LeaseUpdate) : CoredumpState :=
  { s with
    resource := update.write call.task.owner s.resource
    writes := ⟨i, call.task.owner, call.mountTarget, update⟩ :: s.writes }

theorem send_cases (s : CoredumpState) (i : CallId) (call : GuardCall) (update : LeaseUpdate) :
    (s.send i call update = (true, s.after i call update) ∧
      update.admits call.task.owner call.mountTarget s.resource = true) ∨
    (s.send i call update = (false, s) ∧ (call.task.resourceId = some s.resource.id →
      update.admits call.task.owner call.mountTarget s.resource = false)) := by
  unfold CoredumpState.send
  split
  next h => exact .inl ⟨rfl, h.2⟩
  next h => exact .inr ⟨rfl, fun hid => by simpa [hid] using h⟩

/-! ## What an update does -/

theorem holds_unique (h : s.Holds owner) (h' : s.Holds owner') : owner = owner' := by
  obtain ⟨lease, hmem, howner, -⟩ := h
  obtain ⟨lease', hmem', howner', -⟩ := h'
  have hsame : lease = lease' := Option.some.inj (hmem.symm.trans hmem')
  rw [← howner, ← howner', hsame]

theorem leasedTo_iff {resource : ResourceDocument} :
    resource.leasedTo owner = true ↔ ∃ lease ∈ resource.coredumpLease, lease.owner = owner := by
  simp [ResourceDocument.leasedTo, Option.any_eq_true]

theorem ownsCleanup_leasedTo {resource : ResourceDocument} {mountTarget : Option MountTarget}
    {timestamp : Nat} (h : resource.ownsCleanup owner mountTarget timestamp = true) :
    resource.leasedTo owner = true := by
  simp only [ResourceDocument.ownsCleanup, Bool.and_eq_true, Option.any_eq_true,
    decide_eq_true_eq] at h
  obtain ⟨⟨lease, hmem, howner, -⟩, -⟩ := h
  exact leasedTo_iff.2 ⟨lease, hmem, howner⟩

/-- An update of the lease meets its filter where the lease is its owner's own or had run
out by the clock reading of the update. -/
theorem admits_owner {resource : ResourceDocument} {mountTarget : Option MountTarget}
    (h : update.admits owner mountTarget resource = true) (hlease : update.OfLease) :
    resource.leasedTo owner = true ∨
      ∃ timestamp, update.timestamp = some timestamp ∧
        ∀ lease ∈ resource.coredumpLease, lease.leaseUntil ≤ timestamp := by
  cases update with
  | fixTarget target => exact hlease.elim
  | grant timestamp =>
    simp only [LeaseUpdate.admits, decide_eq_true_eq] at h
    obtain hall | hown := h.2.2
    · right
      refine ⟨timestamp, rfl, fun lease hmem => ?_⟩
      simpa [Option.all_eq_true] using (Option.all_eq_true ..).1 hall lease hmem
    · exact .inl hown
  | handOver timestamp => exact .inl (ownsCleanup_leasedTo h)
  | extend timestamp => exact .inl (ownsCleanup_leasedTo h)
  | release timestamp => exact .inl h

/-- The source alone is not the lease. -/
theorem write_lease_of_not (h : ¬update.OfLease) (resource : ResourceDocument) :
    (update.write owner resource).coredumpLease = resource.coredumpLease := by
  cases update with
  | fixTarget target => rfl
  | grant timestamp => exact absurd trivial h
  | handOver timestamp => exact absurd trivial h
  | extend timestamp => exact absurd trivial h
  | release timestamp => exact absurd trivial h

/-- A source that is set stays. -/
theorem write_target {resource : ResourceDocument} {mountTarget : Option MountTarget}
    {target : MountTarget} (h : update.admits owner mountTarget resource = true)
    (htarget : resource.coredumpLeaseTarget = some target) :
    (update.write owner resource).coredumpLeaseTarget = some target := by
  cases update with
  | fixTarget other => simp [LeaseUpdate.admits, htarget] at h
  | grant timestamp => exact htarget
  | handOver timestamp => exact htarget
  | extend timestamp => exact htarget
  | release timestamp => exact htarget

@[simp] theorem write_id (owner : LeaseOwner) (resource : ResourceDocument)
    (update : LeaseUpdate) : (update.write owner resource).id = resource.id := by
  cases update <;> rfl

/-! ## What stays true -/

/-- What no act undoes. -/
structure Onward (s t : CoredumpState) : Prop where
  id : t.resource.id = s.resource.id
  now : s.now ≤ t.now
  target : ∀ target, s.resource.coredumpLeaseTarget = some target →
    t.resource.coredumpLeaseTarget = some target
  writes : s.writes ⊆ t.writes

theorem Onward.refl (s : CoredumpState) : Onward s s :=
  ⟨rfl, Nat.le_refl _, fun _ h => h, fun _ h => h⟩

/-- An update of a call that has met its filter. -/
structure Sends (s : CoredumpState) (call : GuardCall) (update : LeaseUpdate) : Prop where
  admits : update.admits call.task.owner call.mountTarget s.resource = true
  read : ∀ timestamp ∈ update.timestamp, timestamp ≤ s.now
  source : ∀ timestamp, update = .grant timestamp → s.SourceOf call.mountTarget

theorem Sends.onward (h : Sends s call update) : Onward s (s.after i call update) where
  id := write_id ..
  now := Nat.le_refl _
  target := fun _ htarget => write_target h.admits htarget
  writes := List.subset_cons_self ..

/-- No update of another owner meets its filter while the lease runs. -/
theorem Sends.owner_eq (h : Sends s call update) (hlease : update.OfLease)
    (hholds : s.Holds owner) : call.task.owner = owner := by
  obtain ⟨lease, hmem, howner, hruns⟩ := hholds
  obtain hown | ⟨timestamp, hstamp, hexpired⟩ := admits_owner h.admits hlease
  · obtain ⟨lease', hmem', howner'⟩ := leasedTo_iff.1 hown
    have hsame : lease = lease' := Option.some.inj (hmem.symm.trans hmem')
    rw [← howner', ← hsame, howner]
  · have hread : timestamp ≤ s.now := h.read timestamp hstamp
    have hover : lease.leaseUntil ≤ timestamp := hexpired lease hmem
    omega

theorem Onward.sourceOf {mountTarget : Option MountTarget} (h : Onward s t)
    (hsource : s.SourceOf mountTarget) : t.SourceOf mountTarget := by
  cases mountTarget with
  | none => exact .inl rfl
  | some target => exact .inr (h.target target (hsource.resolve_left (Option.some_ne_none _)))

/-- What a call knows at each of its stages. -/
def StageInv (s : CoredumpState) (i : CallId) (call : GuardCall) : CallStage → Prop
  | .monitor .fixing => call.task.resourceId = some s.resource.id
  | .monitor .rereading =>
    call.task.resourceId = some s.resource.id ∧ ∃ target, s.resource.coredumpLeaseTarget = some target
  | .monitor .admitted => s.SourceOf call.mountTarget
  | .monitor (.granting timestamp) => timestamp ≤ s.now ∧ s.SourceOf call.mountTarget
  | .monitor (.returned (some true)) =>
    ∃ timestamp, ⟨i, call.task.owner, call.mountTarget, .grant timestamp⟩ ∈ s.writes
  | .cleanup (.succeeding _ timestamp) => timestamp ≤ s.now
  | .cleanup (.handingOver timestamp) => timestamp ≤ s.now
  | .cleanup (.extending timestamp) => timestamp ≤ s.now
  | .cleanup (.extended true) => ∃ timestamp ≤ s.now,
    ⟨i, call.task.owner, call.mountTarget, .extend timestamp⟩ ∈ s.writes
  | .cleanup (.returned true) => ∃ timestamp ≤ s.now,
    ⟨i, call.task.owner, call.mountTarget, .extend timestamp⟩ ∈ s.writes
  | .release (.releasing timestamp) => timestamp ≤ s.now
  | _ => True

theorem Onward.stageInv (h : Onward s t) {stage : CallStage} (hinv : StageInv s i call stage) :
    StageInv t i call stage := by
  unfold StageInv at hinv ⊢
  split at hinv
  · exact hinv.trans (congrArg some h.id.symm)
  · obtain ⟨hid, target, htarget⟩ := hinv
    exact ⟨hid.trans (congrArg some h.id.symm), target, h.target target htarget⟩
  · exact h.sourceOf hinv
  · exact ⟨Nat.le_trans hinv.1 h.now, h.sourceOf hinv.2⟩
  · obtain ⟨timestamp, hmem⟩ := hinv
    exact ⟨timestamp, h.writes hmem⟩
  · exact Nat.le_trans hinv h.now
  · exact Nat.le_trans hinv h.now
  · exact Nat.le_trans hinv h.now
  · obtain ⟨timestamp, hread, hmem⟩ := hinv
    exact ⟨timestamp, Nat.le_trans hread h.now, h.writes hmem⟩
  · obtain ⟨timestamp, hread, hmem⟩ := hinv
    exact ⟨timestamp, Nat.le_trans hread h.now, h.writes hmem⟩
  · exact Nat.le_trans hinv h.now
  · trivial

/-! ## What a call does -/

/-- A call has read something, or one update of it has met its filter. -/
def Performs (s : CoredumpState) (i : CallId) (call : GuardCall) (t : CoredumpState) : Prop :=
  t = s ∨ ∃ update, Sends s call update ∧ t = s.after i call update

theorem Performs.onward (h : Performs s i call t) : Onward s t := by
  obtain rfl | ⟨update, hsends, rfl⟩ := h
  · exact Onward.refl _
  · exact hsends.onward

theorem send_performs (hread : ∀ timestamp ∈ update.timestamp, timestamp ≤ s.now)
    (hsource : ∀ timestamp, update = .grant timestamp → s.SourceOf call.mountTarget) :
    Performs s i call (s.send i call update).2 := by
  obtain ⟨hsent, hadmits⟩ | ⟨hsent, -⟩ := send_cases s i call update
  · rw [hsent]
    exact .inr ⟨update, ⟨hadmits, hread, hsource⟩, rfl⟩
  · rw [hsent]
    exact .inl rfl

/-- The check of the source lets through a call that names the source there is. -/
theorem compareTarget_inv {target : Option MountTarget}
    (htarget : s.resource.coredumpLeaseTarget = target)
    (hset : call.mountTarget.isSome → target.isSome) :
    StageInv s i call (.monitor (compareTarget call.mountTarget target)) := by
  unfold compareTarget
  split
  next => trivial
  next hsame =>
    show s.SourceOf call.mountTarget
    cases hmount : call.mountTarget with
    | none => exact .inl rfl
    | some mount =>
      have hsome : target.isSome := hset (by simp [hmount])
      right
      rw [htarget, ← hmount]
      by_contra hne
      exact hsame ⟨by simp [hmount], hsome, hne⟩

theorem MonitorStage.next_spec {stage stage' : MonitorStage}
    (hinv : StageInv s i call (.monitor stage))
    (h : stage.next active i call s = some (stage', t)) :
    Performs s i call t ∧ StageInv t i call (.monitor stage') := by
  cases stage with
  | called =>
    simp only [MonitorStage.next] at h
    split at h <;> cases h <;> exact ⟨.inl rfl, trivial⟩
  | owning =>
    simp only [MonitorStage.next] at h
    split at h <;> cases h <;> exact ⟨.inl rfl, trivial⟩
  | reading =>
    simp only [MonitorStage.next, CoredumpState.findResource] at h
    split at h
    · cases h
      exact ⟨.inl rfl, trivial⟩
    next resource hfound =>
      split at hfound
      next hid =>
        cases hfound
        split at h
        · cases h
          exact ⟨.inl rfl, trivial⟩
        split at h
        · cases h
          exact ⟨.inl rfl, hid⟩
        next hset =>
          cases h
          refine ⟨.inl rfl, compareTarget_inv rfl fun hmount => ?_⟩
          by_contra hnone
          exact hset ⟨hmount, by simpa using hnone⟩
      next => cases hfound
  | fixing =>
    simp only [MonitorStage.next] at h
    split at h
    · cases h
    next target hmount =>
      cases h
      have hperforms : Performs s i call (s.send i call (.fixTarget target)).2 :=
        send_performs (fun _ hmem => by cases hmem) (fun _ he => by cases he)
      refine ⟨hperforms, hinv.trans (congrArg some hperforms.onward.id.symm), ?_⟩
      obtain ⟨hsent, -⟩ | ⟨hsent, hmissed⟩ := send_cases s i call (.fixTarget target)
      · rw [hsent]
        exact ⟨target, rfl⟩
      · -- the filter asks for a device without a source, so there is one
        rw [hsent]
        have hset := hmissed hinv
        simp only [LeaseUpdate.admits] at hset
        exact Option.isSome_iff_exists.1 (by simpa using hset)
  | rereading =>
    obtain ⟨hid, target, htarget⟩ := hinv
    simp only [MonitorStage.next, CoredumpState.findResource, if_pos hid] at h
    cases h
    exact ⟨.inl rfl, compareTarget_inv rfl fun _ => by simp [htarget]⟩
  | admitted =>
    cases h
    exact ⟨.inl rfl, Nat.le_refl _, hinv⟩
  | granting timestamp =>
    obtain ⟨hread, hsource⟩ := hinv
    have hperforms : Performs s i call (s.send i call (.grant timestamp)).2 :=
      send_performs (fun _ hmem => by cases hmem; exact hread) (fun _ _ => hsource)
    simp only [MonitorStage.next] at h
    obtain ⟨hsent, -⟩ | ⟨hsent, -⟩ := send_cases s i call (.grant timestamp)
    · rw [hsent] at h hperforms
      cases h
      exact ⟨hperforms, timestamp, List.mem_cons_self ..⟩
    · rw [hsent] at h
      cases h
      exact ⟨.inl rfl, trivial⟩
  | returned result => cases h

theorem CleanupStage.next_spec {stage stage' : CleanupStage}
    (hinv : StageInv s i call (.cleanup stage))
    (h : stage.next active i call s = some (stage', t)) :
    Performs s i call t ∧ StageInv t i call (.cleanup stage') := by
  cases stage with
  | called =>
    simp only [CleanupStage.next] at h
    split at h <;> cases h <;> exact ⟨.inl rfl, trivial⟩
  | owning =>
    simp only [CleanupStage.next] at h
    split at h <;> cases h <;> exact ⟨.inl rfl, trivial⟩
  | reading =>
    simp only [CleanupStage.next] at h
    split at h <;> cases h <;> exact ⟨.inl rfl, trivial⟩
  | timing available =>
    cases h
    exact ⟨.inl rfl, Nat.le_refl _⟩
  | succeeding available timestamp =>
    simp only [CleanupStage.next] at h
    split at h <;> cases h <;> exact ⟨.inl rfl, hinv⟩
  | handingOver timestamp =>
    cases h
    exact ⟨send_performs (fun _ hmem => by cases hmem; exact hinv) (fun _ he => by cases he),
      trivial⟩
  | extending timestamp =>
    have hperforms : Performs s i call (s.send i call (.extend timestamp)).2 :=
      send_performs (fun _ hmem => by cases hmem; exact hinv) (fun _ he => by cases he)
    simp only [CleanupStage.next] at h
    obtain ⟨hsent, -⟩ | ⟨hsent, -⟩ := send_cases s i call (.extend timestamp)
    · rw [hsent] at h hperforms
      cases h
      exact ⟨hperforms, timestamp, hinv, List.mem_cons_self ..⟩
    · rw [hsent] at h
      cases h
      exact ⟨.inl rfl, trivial⟩
  | extended lease =>
    cases h
    refine ⟨.inl rfl, ?_⟩
    cases lease with
    | false => trivial
    | true => cases active with
      | false => trivial
      | true => exact hinv
  | returned result => cases h

theorem ReleaseStage.next_spec {stage stage' : ReleaseStage}
    (hinv : StageInv s i call (.release stage)) (h : stage.next i call s = some (stage', t)) :
    Performs s i call t ∧ StageInv t i call (.release stage') := by
  cases stage with
  | called =>
    cases h
    exact ⟨.inl rfl, Nat.le_refl _⟩
  | releasing timestamp =>
    cases h
    exact ⟨send_performs (fun _ hmem => by cases hmem; exact hinv) (fun _ he => by cases he),
      trivial⟩
  | returned => cases h

theorem CallStage.next_spec {stage stage' : CallStage} (hinv : StageInv s i call stage)
    (h : stage.next active i call s = some (stage', t)) :
    Performs s i call t ∧ StageInv t i call stage' := by
  cases stage with
  | monitor stage =>
    obtain ⟨⟨stage', t⟩, hnext, he⟩ := Option.map_eq_some_iff.1 h
    cases he
    exact MonitorStage.next_spec hinv hnext
  | cleanup stage =>
    obtain ⟨⟨stage', t⟩, hnext, he⟩ := Option.map_eq_some_iff.1 h
    cases he
    exact CleanupStage.next_spec hinv hnext
  | release stage =>
    obtain ⟨⟨stage', t⟩, hnext, he⟩ := Option.map_eq_some_iff.1 h
    cases he
    exact ReleaseStage.next_spec hinv hnext

/-! ## The run -/

/-- An extension by `owner` with the clock reading `timestamp` still counts: nothing but
its own identity has written the lease, which has not run out. -/
structure Lasting (s : CoredumpState) (later : List LeaseWrite) (owner : LeaseOwner)
    (timestamp : Nat) : Prop where
  quiet : ∀ write ∈ later, ¬write.update.OfLease
  held : ∃ lease ∈ s.resource.coredumpLease,
    lease.owner = owner ∧ timestamp + cleanupLeaseMillis ≤ lease.leaseUntil

/-- Every extension lasts twenty seconds from its clock reading, if its own identity writes
nothing of the lease in between. -/
def ExtensionsLast (s : CoredumpState) : Prop :=
  ∀ later write earlier timestamp, s.writes = later ++ write :: earlier →
    write.update = .extend timestamp → s.now < timestamp + cleanupLeaseMillis →
    (∀ w ∈ later, w.update.OfLease → w.owner ≠ write.owner) →
    Lasting s later write.owner timestamp

/-- Every grant was to a call without a source or with the one the device has. -/
def GrantsOfSource (s : CoredumpState) : Prop :=
  ∀ write ∈ s.writes, ∀ timestamp, write.update = .grant timestamp →
    s.SourceOf write.mountTarget

structure CoredumpInv (s : CoredumpState) : Prop where
  stages : ∀ i call, s.calls i = some call → StageInv s i call call.stage
  lasting : ExtensionsLast s
  grants : GrantsOfSource s

theorem Lasting.holds {later : List LeaseWrite} {timestamp : Nat}
    (h : Lasting s later owner timestamp) (hnow : s.now < timestamp + cleanupLeaseMillis) :
    s.Holds owner := by
  obtain ⟨lease, hmem, howner, huntil⟩ := h.held
  exact ⟨lease, hmem, howner, Nat.lt_of_lt_of_le hnow huntil⟩

/-- The extension itself: its lease lasts at least as long. -/
theorem extended_held {resource : ResourceDocument} {mountTarget : Option MountTarget}
    {timestamp : Nat}
    (h : (LeaseUpdate.extend timestamp).admits owner mountTarget resource = true) :
    ∃ lease ∈ ((LeaseUpdate.extend timestamp).write owner resource).coredumpLease,
      lease.owner = owner ∧ timestamp + cleanupLeaseMillis ≤ lease.leaseUntil := by
  obtain ⟨lease, hmem, howner⟩ := leasedTo_iff.1 (ownsCleanup_leasedTo h)
  refine ⟨{ lease with leaseUntil := max lease.leaseUntil (timestamp + cleanupLeaseMillis) },
    ?_, howner, Nat.le_max_right ..⟩
  simp [LeaseUpdate.write, ResourceDocument.withUntil, Option.mem_def.1 hmem]

theorem extensionsLast_after (h : ExtensionsLast s) (hsends : Sends s call update) :
    ExtensionsLast (s.after i call update) := by
  intro later write earlier timestamp hwrites hupdate hnow hown
  cases later with
  | nil =>
    obtain ⟨rfl, -⟩ := List.cons.inj hwrites
    cases hupdate
    exact ⟨by simp, extended_held hsends.admits⟩
  | cons last later =>
    obtain ⟨rfl, hrest⟩ := List.cons.inj hwrites
    have hlasting : Lasting s later write.owner timestamp :=
      h later write earlier timestamp hrest hupdate hnow
        fun w hmem => hown w (List.mem_cons_of_mem _ hmem)
    -- the newest update cannot be of the lease: it is not the extension's own identity's
    have hquiet : ¬update.OfLease := fun hlease =>
      hown _ (List.mem_cons_self ..) hlease (hsends.owner_eq hlease (hlasting.holds hnow))
    refine ⟨?_, ?_⟩
    · intro w hmem
      obtain rfl | hmem := List.mem_cons.1 hmem
      · exact hquiet
      · exact hlasting.quiet w hmem
    · show ∃ lease ∈ (update.write call.task.owner s.resource).coredumpLease, _
      rw [write_lease_of_not hquiet]
      exact hlasting.held

theorem grantsOfSource_after (h : GrantsOfSource s) (hsends : Sends s call update) :
    GrantsOfSource (s.after i call update) := by
  intro write hmem timestamp hupdate
  obtain rfl | hmem := List.mem_cons.1 hmem
  · exact hsends.onward.sourceOf (hsends.source timestamp hupdate)
  · exact hsends.onward.sourceOf (h write hmem timestamp hupdate)

/-- What the other acts leave of the history: the lease, the source and the updates. -/
theorem CoredumpInv.of_same (h : CoredumpInv s) (honward : Onward s t)
    (hwrites : t.writes = s.writes)
    (hlease : t.resource.coredumpLease = s.resource.coredumpLease)
    (hcalls : ∀ i call, t.calls i = some call → s.calls i = some call ∨
      StageInv t i call call.stage) : CoredumpInv t where
  stages := by
    intro i call hcall
    obtain hold | hnew := hcalls i call hcall
    · exact honward.stageInv (h.stages i call hold)
    · exact hnew
  lasting := by
    intro later write earlier timestamp hsplit hupdate hnow hown
    obtain ⟨hquiet, hheld⟩ := h.lasting later write earlier timestamp (hwrites ▸ hsplit) hupdate
      (Nat.lt_of_le_of_lt honward.now hnow) hown
    exact ⟨hquiet, hlease ▸ hheld⟩
  grants := by
    intro write hmem timestamp hupdate
    exact honward.sourceOf (h.grants write (hwrites ▸ hmem) timestamp hupdate)

theorem stageInv_of_begins {stage : CallStage} (h : stage.begins = true) :
    StageInv s i call stage := by
  cases stage with
  | monitor stage =>
    obtain rfl : stage = .called := by simpa [CallStage.begins] using h
    trivial
  | cleanup stage =>
    obtain rfl : stage = .called := by simpa [CallStage.begins] using h
    trivial
  | release stage =>
    obtain rfl : stage = .called := by simpa [CallStage.begins] using h
    trivial

theorem invoke_eq_some (h : (CoredumpAct.invoke i call).apply s = some t) :
    call.stage.begins = true ∧
      t = { s with calls := Function.update s.calls i (some call) } := by
  obtain ⟨u, hguard, he⟩ := Option.bind_eq_some_iff.1 h
  cases he
  exact ⟨(of_guard hguard).2, rfl⟩

theorem advance_eq_some (h : (CoredumpAct.advance i active).apply s = some t) :
    ∃ call stage t', s.calls i = some call ∧
      call.stage.next active i call s = some (stage, t') ∧
      t = { t' with calls := Function.update t'.calls i (some { call with stage }) } := by
  obtain ⟨call, hcall, h⟩ := Option.bind_eq_some_iff.1 h
  obtain ⟨⟨stage, t'⟩, hnext, he⟩ := Option.bind_eq_some_iff.1 h
  cases he
  exact ⟨call, stage, t', hcall, hnext, rfl⟩

theorem calls_update_cases {calls : CallId → Option GuardCall} {j : CallId}
    {call' : GuardCall} (h : Function.update calls i (some call) j = some call') :
    (j = i ∧ call' = call) ∨ calls j = some call' := by
  by_cases hj : j = i
  · subst hj
    rw [Function.update_self] at h
    exact .inl ⟨rfl, (Option.some.inj h).symm⟩
  · rw [Function.update_of_ne hj] at h
    exact .inr h

/-- A performed step keeps the invariant, whatever its call then stands at. -/
theorem CoredumpInv.performs (h : CoredumpInv s) (hperforms : Performs s i call t) :
    CoredumpInv t := by
  obtain rfl | ⟨update, hsends, rfl⟩ := hperforms
  · exact h
  · exact ⟨fun j other hother => hsends.onward.stageInv (h.stages j other hother),
      extensionsLast_after h.lasting hsends, grantsOfSource_after h.grants hsends⟩

theorem CoredumpInv.step {act : CoredumpAct} (h : CoredumpInv s) (hstep : act.apply s = some t) :
    CoredumpInv t ∧ Onward s t := by
  cases act with
  | invoke i call =>
    obtain ⟨hbegins, rfl⟩ := invoke_eq_some hstep
    have honward : Onward s { s with calls := Function.update s.calls i (some call) } :=
      ⟨rfl, Nat.le_refl _, fun _ ht => ht, fun _ hw => hw⟩
    refine ⟨h.of_same honward rfl rfl fun j call' hcall => ?_, honward⟩
    obtain ⟨rfl, rfl⟩ | hold := calls_update_cases hcall
    · exact .inr (stageInv_of_begins hbegins)
    · exact .inl hold
  | advance i active =>
    obtain ⟨call, stage, t', hcall, hnext, rfl⟩ := advance_eq_some hstep
    obtain ⟨hperforms, hstage⟩ := CallStage.next_spec (h.stages i call hcall) hnext
    have honward : Onward t'
        { t' with calls := Function.update t'.calls i (some { call with stage }) } :=
      ⟨rfl, Nat.le_refl _, fun _ ht => ht, fun _ hw => hw⟩
    refine ⟨(h.performs hperforms).of_same honward rfl rfl fun j call' hcall' => ?_, ?_⟩
    · obtain ⟨rfl, rfl⟩ | hold := calls_update_cases hcall'
      · exact .inr (honward.stageInv hstage)
      · exact .inl hold
    · have hpast := hperforms.onward
      exact ⟨hpast.id, hpast.now, hpast.target, hpast.writes⟩
  | editResource deleted enableCoredumpMonitor =>
    cases hstep
    have honward : Onward s
        { s with resource := { s.resource with deleted, enableCoredumpMonitor } } :=
      ⟨rfl, Nat.le_refl _, fun _ ht => ht, fun _ hw => hw⟩
    exact ⟨h.of_same honward rfl rfl fun _ _ hcall => .inl hcall, honward⟩
  | changeTasks tasks =>
    cases hstep
    have honward : Onward s { s with tasks } :=
      ⟨rfl, Nat.le_refl _, fun _ ht => ht, fun _ hw => hw⟩
    exact ⟨h.of_same honward rfl rfl fun _ _ hcall => .inl hcall, honward⟩
  | tick millis =>
    cases hstep
    have honward : Onward s { s with now := s.now + millis } :=
      ⟨rfl, Nat.le_add_right .., fun _ ht => ht, fun _ hw => hw⟩
    exact ⟨h.of_same honward rfl rfl fun _ _ hcall => .inl hcall, honward⟩

theorem coredumpInv (h : ReachableCoredump s) : CoredumpInv s := by
  refine Reachable.invariant (I := CoredumpInv) ?_ ?_ h
  · intro s₀ hstart
    refine ⟨fun i call hcall => ?_, ?_, ?_⟩
    · rw [hstart.calls] at hcall
      cases hcall
    · intro later write earlier timestamp hsplit
      rw [hstart.writes] at hsplit
      simp at hsplit
    · intro write hmem
      rw [hstart.writes] at hmem
      cases hmem
  · intro s₁ s₂ ⟨act, hact⟩ hinv
    exact (hinv.step hact).1

/-- Only a call of the lease's owner writes the lease while it runs. -/
theorem lease_kept {act : CoredumpAct} (h : CoredumpInv s) (hstep : act.apply s = some t)
    (hholds : s.Holds owner)
    (hforeign : ∀ i active call, act = .advance i active → s.calls i = some call →
      call.task.owner ≠ owner) :
    t.resource.coredumpLease = s.resource.coredumpLease := by
  cases act with
  | invoke i call =>
    obtain ⟨-, rfl⟩ := invoke_eq_some hstep
    rfl
  | advance i active =>
    obtain ⟨call, stage, t', hcall, hnext, rfl⟩ := advance_eq_some hstep
    obtain ⟨hperforms, -⟩ := CallStage.next_spec (h.stages i call hcall) hnext
    obtain rfl | ⟨update, hsends, rfl⟩ := hperforms
    · rfl
    · by_cases hlease : update.OfLease
      · exact absurd (hsends.owner_eq hlease hholds) (hforeign i active call rfl hcall)
      · exact write_lease_of_not hlease _
  | editResource deleted enableCoredumpMonitor =>
    cases hstep
    rfl
  | changeTasks tasks =>
    cases hstep
    rfl
  | tick millis =>
    cases hstep
    rfl

theorem onward_run (h : CoredumpInv s) (hrun : ReflTransGen CoredumpStep s t) :
    CoredumpInv t ∧ ∀ target, s.resource.coredumpLeaseTarget = some target →
      t.resource.coredumpLeaseTarget = some target := by
  induction hrun with
  | refl => exact ⟨h, fun _ ht => ht⟩
  | tail _ hstep ih =>
    obtain ⟨act, hact⟩ := hstep
    obtain ⟨hinv, htarget⟩ := ih
    obtain ⟨hinv', honward⟩ := hinv.step hact
    exact ⟨hinv', fun target hset => honward.target target (htarget target hset)⟩

/-! ## What is guaranteed, and what is not -/

/-- The lease of a device's mount has one owner, and only calls of that owner write it while
it runs. A cleanup that was answered with yes lasts twenty seconds from the clock reading it
was made with, unless a call of its own identity writes the lease again. The source of the
mount is set once, and the lease is granted to calls that name it or none. -/
theorem coredump_exclusive (h : ReachableCoredump s) :
    (∀ owner owner', s.Holds owner → s.Holds owner' → owner = owner') ∧
    (∀ (act : CoredumpAct) t owner, act.apply s = some t → s.Holds owner →
      (∀ i active call, act = .advance i active → s.calls i = some call →
        call.task.owner ≠ owner) →
      t.resource.coredumpLease = s.resource.coredumpLease) ∧
    (∀ i call, s.calls i = some call → call.stage = .cleanup (.returned true) →
      ∃ timestamp later earlier, timestamp ≤ s.now ∧
        s.writes = later ++ ⟨i, call.task.owner, call.mountTarget, .extend timestamp⟩ :: earlier ∧
        (s.now < timestamp + cleanupLeaseMillis →
          (∀ w ∈ later, w.update.OfLease → w.owner ≠ call.task.owner) →
          Lasting s later call.task.owner timestamp)) ∧
    (∀ write ∈ s.writes, ∀ timestamp, write.update = .grant timestamp →
      write.mountTarget = none ∨ s.resource.coredumpLeaseTarget = write.mountTarget) ∧
    (∀ i call, s.calls i = some call → call.stage = .monitor (.returned (some true)) →
      ∃ timestamp, ⟨i, call.task.owner, call.mountTarget, .grant timestamp⟩ ∈ s.writes) ∧
    (∀ t, ReflTransGen CoredumpStep s t → ∀ target,
      s.resource.coredumpLeaseTarget = some target →
      t.resource.coredumpLeaseTarget = some target) := by
  have hinv : CoredumpInv s := coredumpInv h
  refine ⟨fun owner owner' => holds_unique, ?_, ?_, hinv.grants, ?_, ?_⟩
  · intro act t owner hstep hholds hforeign
    exact lease_kept hinv hstep hholds hforeign
  · intro i call hcall hstage
    have hknown : StageInv s i call call.stage := hinv.stages i call hcall
    rw [hstage] at hknown
    obtain ⟨timestamp, hread, hmem⟩ := hknown
    obtain ⟨later, earlier, hsplit⟩ := List.append_of_mem hmem
    exact ⟨timestamp, later, earlier, hread, hsplit,
      hinv.lasting later _ earlier timestamp hsplit rfl⟩
  · intro i call hcall hstage
    have hknown : StageInv s i call call.stage := hinv.stages i call hcall
    rw [hstage] at hknown
    exact hknown
  · intro t hrun
    exact (onward_run hinv hrun).2

/-- A session on the host, and its document while it collects. -/
def mountTask (id : TaskId) : SessionTask where
  owner := ⟨id, 10 + id, some 1, some 1⟩
  resourceId := some 5
  protocol := .ssh
  sshTarget := none

def mountDocument (id : TaskId) : TaskDocument where
  toSessionTask := mountTask id
  status := .collecting
  desiredState := .running
  resourceDeleted := false

def mountStart : CoredumpState where
  resource := ⟨5, false, true, none, none⟩
  tasks := [mountDocument 1, mountDocument 2]
  now := 0
  calls := fun _ => none
  writes := []

/-- The first task is granted the monitor and fixes the source. Later the device is closed,
its cleanup reads the clock, and the answer takes a second to arrive. -/
def lateCleanup : List CoredumpAct :=
  [.invoke 0 ⟨mountTask 1, some "first:/nfs", .monitor .called⟩, .advance 0 true,
    .advance 0 true, .advance 0 true, .advance 0 true, .advance 0 true, .advance 0 true,
    .advance 0 true, .editResource false false, .tick 60000,
    .invoke 1 ⟨mountTask 1, some "first:/nfs", .cleanup .called⟩, .advance 1 true,
    .advance 1 true, .advance 1 true, .advance 1 true, .advance 1 true, .tick 1000,
    .advance 1 true]

/-- The device is opened again, and the second task, which names no source, is granted the
monitor nineteen and a half seconds after the first was answered. -/
def earlySuccessor : List CoredumpAct :=
  [.editResource false true, .tick 19500,
    .invoke 2 ⟨mountTask 2, none, .monitor .called⟩, .advance 2 true, .advance 2 true,
    .advance 2 true, .advance 2 true, .advance 2 true]

theorem mountStart_coredumpStart : CoredumpStart mountStart := ⟨rfl, rfl⟩

theorem coredump_exclusive_late : ∃ s, ReachableCoredump s ∧
    ∃ call, s.calls 1 = some call ∧ call.stage = .cleanup (.returned true) ∧
      s.now < 60000 + cleanupLeaseMillis ∧
      ∃ timestamp later earlier, timestamp ≤ s.now ∧
        s.writes = later ++ ⟨1, call.task.owner, call.mountTarget, .extend timestamp⟩ :: earlier := by
  have hrun : ∃ s call, runActs CoredumpAct.apply (lateCleanup ++ [.advance 1 true]) mountStart =
      some s ∧ s.calls 1 = some call ∧ call.stage = .cleanup (.returned true) ∧
      s.now = 61000 := ⟨_, _, rfl, rfl, rfl, rfl⟩
  obtain ⟨s, call, hs, hcall, hstage, hnow⟩ := hrun
  have hreach : ReachableCoredump s := ⟨mountStart, mountStart_coredumpStart, runActs_steps hs⟩
  obtain ⟨-, -, hcleanup, -⟩ := coredump_exclusive hreach
  obtain ⟨timestamp, later, earlier, hread, hsplit, -⟩ := hcleanup 1 call hcall hstage
  exact ⟨s, hreach, call, hcall, hstage, by rw [hnow]; decide, timestamp, later, earlier,
    hread, hsplit⟩

/-- A cleanup guard returns true, and within twenty seconds another owner is granted the
monitor, without having named the source that the device has. -/
theorem cleanup_overtaken : ∃ r s t call, ReachableCoredump r ∧ CoredumpStep r s ∧
    (r.calls 1).map (·.stage) = some (.cleanup (.extended true)) ∧
    s.calls 1 = some call ∧ call.stage = .cleanup (.returned true) ∧
    ReflTransGen CoredumpStep s t ∧ t.now < s.now + cleanupLeaseMillis ∧
    (∃ owner, owner ≠ call.task.owner ∧ t.Holds owner) ∧
    s.resource.coredumpLeaseTarget = some "first:/nfs" ∧
    t.writes = ⟨2, (mountTask 2).owner, none, .grant t.now⟩ :: s.writes := by
  have hrun : ∃ r s t call, runActs CoredumpAct.apply lateCleanup mountStart = some r ∧
      (CoredumpAct.advance 1 true).apply r = some s ∧
      runActs CoredumpAct.apply earlySuccessor s = some t ∧
      (r.calls 1).map (·.stage) = some (.cleanup (.extended true)) ∧
      s.calls 1 = some call ∧ call.stage = .cleanup (.returned true) ∧
      call.task.owner = (mountTask 1).owner ∧ s.now = 61000 ∧ t.now = 80500 ∧
      t.resource.coredumpLease = some ⟨(mountTask 2).owner, 150500⟩ ∧
      s.resource.coredumpLeaseTarget = some "first:/nfs" ∧
      t.writes = ⟨2, (mountTask 2).owner, none, .grant 80500⟩ :: s.writes :=
    ⟨_, _, _, _, rfl, rfl, rfl, rfl, rfl, rfl, rfl, rfl, rfl, rfl, rfl, rfl⟩
  obtain ⟨r, s, t, call, hr, hs, ht, hextended, hcall, hstage, howner, hnow, hnow', hlease,
    htarget, hwrites⟩ := hrun
  refine ⟨r, s, t, call, ⟨mountStart, mountStart_coredumpStart, runActs_steps hr⟩, ⟨_, hs⟩,
    hextended, hcall, hstage, runActs_steps ht, ?_, ⟨(mountTask 2).owner, ?_, ?_⟩, htarget, ?_⟩
  · rw [hnow, hnow']
    decide
  · rw [howner]
    decide
  · exact ⟨_, hlease, rfl, by rw [hnow']; decide⟩
  · rw [hwrites, hnow']

end CameraLogs.Collection
