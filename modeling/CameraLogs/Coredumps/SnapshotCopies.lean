import CameraLogs.Coredumps.SnapshotFiles

/-!
# The copies that can be read are there

A final copy is removed by four procedures: a freeze that could not publish, the maintenance
after it has taken a file back, after it has begun to delete a snapshot, and where no file
refers to a claim. Each of them has made sure before that its token is dead for the file
(`FreezeOk`, `TaskOk`), and a token that is dead stays so (`Dead.apply`). So what is removed
is never the copy of a file that can be read.
-/

namespace CameraLogs.Coredumps

open CameraLogs.Lib

variable {s t : SnapshotState} {store : SnapshotStore} {update : SnapshotUpdate}
  {disk disk' : CopyPath → Bool} {now : Nat} {id : FileId} {token k : Token}
  {document : FileDocument} {snapshot : FileSnapshot} {o : Outcome}
  {owner : Option Token} {db : InFlight SnapshotStore SnapshotUpdate} {call : FreezeCall} {stage : FreezeStage}

/-- What a freeze relies on. -/
structure FreezeOk (store : SnapshotStore) (disk : CopyPath → Bool) (token : Token)
    (call : FreezeCall) : Prop where
  issued : token ∈ store.issued
  source : ∀ document, store.documents call.id = some document →
    document.freezeToken = some token → document.source = call.source
  unpublished : call.stage ≠ .marking → ∀ document, store.documents call.id = some document →
    document.holds token = false
  copied : ∀ size, call.stage = .publishing size → ∀ document,
    store.documents call.id = some document → document.freezeToken = some token →
      disk (call.final token) = true
  gone : call.stage = .checking ∨ call.stage = .unlinking → ∀ document,
    store.documents call.id = some document → document.freezeToken ≠ some token

/-- What a task of the maintenance relies on. -/
def TaskOk (store : SnapshotStore) : SnapshotTask → Prop
  | .removeTemporary _ path | .removeFinal path | .delete _ path => Dead store path.file path.token
  | .reclaim claim | .deleteOwned claim | .deleteOwnedFinal claim =>
    Dead store claim.fileId claim.id
  | _ => True

/-- What is known of a document that has been read. -/
def ReadOk (store : SnapshotStore) (id : FileId) (document : FileDocument) : Prop :=
  ∀ snapshot, document.snapshot = some snapshot → snapshot.path.file = id ∧
    (document.status = .deleting → Dead store id snapshot.reservationToken)

/-- The invariant, but for the freezes. -/
structure CoreInv (db : InFlight SnapshotStore SnapshotUpdate) (disk : CopyPath → Bool)
    (now : Nat) (work : List SnapshotTask) (copies : List (FileId × FileDocument))
    (known : List SnapshotClaim) : Prop where
  files : FilesOk db.store disk now
  ids : ∀ id document, db.store.documents id = some document → id ∈ db.store.fileIds
  late : ∀ update ∈ db.late, update.claims = none → UpdateOk db.store disk now update
  tasks : ∀ task ∈ work, TaskOk db.store task
  read : ∀ id document, (id, document) ∈ copies → ReadOk db.store id document
  claims : ∀ claim ∈ known, claim.id ∈ db.store.issued
  claimed : ∀ k, k ∉ db.store.issued → db.store.claim? k = none

/-- The invariant of the freezes: a publication that is still on its way has no freeze. -/
structure FreezesInv (db : InFlight SnapshotStore SnapshotUpdate) (disk : CopyPath → Bool)
    (freezes : Token → Option FreezeCall) : Prop where
  calls : ∀ k call, freezes k = some call → FreezeOk db.store disk k call
  published : ∀ update ∈ db.late, ∀ id k, update.publishes id k →
    k ∈ db.store.issued ∧ freezes k = none

/-! ## Updates -/

theorem TaskOk.apply {task : SnapshotTask} (h : TaskOk store task)
    (hfiles : FilesOk store disk now) (hok : UpdateOk store disk now update) :
    TaskOk (update.apply store) task := by
  cases task with
  | removeTemporary _ path | removeFinal path | delete _ path => exact Dead.apply h hfiles hok
  | reclaim claim | deleteOwned claim | deleteOwnedFinal claim => exact Dead.apply h hfiles hok
  | _ => trivial

theorem FreezeOk.apply (h : FreezeOk store disk token call) (hfiles : FilesOk store disk now)
    (hok : UpdateOk store disk now update)
    (hpublishes : call.stage ≠ .marking → ¬update.publishes call.id token) :
    FreezeOk (update.apply store) disk token call where
  issued := mem_issued_apply h.issued
  source := by
    intro after hafter hclaimed
    obtain ⟨before, hbefore, hmoved⟩ := hfiles.moved hok hafter
    obtain ⟨hclaimed', hsource⟩ := hmoved.freeze token h.issued hclaimed
    exact hsource.trans (h.source before hbefore hclaimed')
  unpublished := by
    intro hstage after hafter
    obtain ⟨before, hbefore, hmoved⟩ := hfiles.moved hok hafter
    cases hholds : after.holds token with
    | false => rfl
    | true =>
      obtain hheld | ⟨hpublished, -⟩ := hmoved.holds token hholds
      · exact hheld.symm.trans (h.unpublished hstage before hbefore)
      · exact absurd hpublished (hpublishes hstage)
  copied := by
    intro size hstage after hafter hclaimed
    obtain ⟨before, hbefore, hmoved⟩ := hfiles.moved hok hafter
    exact h.copied size hstage before hbefore (hmoved.freeze token h.issued hclaimed).1
  gone := by
    intro hstage after hafter hclaimed
    obtain ⟨before, hbefore, hmoved⟩ := hfiles.moved hok hafter
    exact h.gone hstage before hbefore (hmoved.freeze token h.issued hclaimed).1

theorem fileIds_apply (update : SnapshotUpdate) (store : SnapshotStore) :
    (update.apply store).fileIds = store.fileIds := by
  unfold SnapshotUpdate.apply
  cases hrun : update.run store with
  | none => rfl
  | some written =>
    show written.fileIds = store.fileIds
    cases update with
    | claim _ _ _ _ _ | acquire _ _ _ _ _ _ | renewReader _ _ _ _ | closeReader _ _ _ =>
      obtain ⟨written', hwritten, rfl⟩ := Option.map_eq_some_iff.1 hrun
      obtain ⟨document, -, -, rfl⟩ := updateFile_some hwritten
      rfl
    | observe _ _ | renewFreeze _ _ _ | unclaim _ _ | publish _ _ _ _ | expireFreeze _ _ _
    | retire _ _ | startDelete _ _ _ | clear _ _ | pullReaders _ _ =>
      obtain ⟨document, -, -, rfl⟩ := updateFile_some hrun
      rfl
    | markPublished _ _ | confirmPublished _ _ | reclaim _ =>
      obtain ⟨claim, -, -, rfl⟩ := updateClaim_some hrun
      rfl
    | reserve token id size version expiresAt =>
      simp only [SnapshotUpdate.run, SnapshotStore.reserve] at hrun
      split at hrun
      · cases hrun
        rfl
      split at hrun
      · cases hrun
        rfl
      · cases hrun
    | release token =>
      obtain rfl | ⟨claim, -, -, -, rfl⟩ := release_some hrun
      · rfl
      · rfl

section Core

variable {work : List SnapshotTask} {copies : List (FileId × FileDocument)}
  {known : List SnapshotClaim} {late : List SnapshotUpdate}

theorem CoreInv.apply (h : CoreInv db disk now work copies known)
    (hok : UpdateOk db.store disk now update) (hlate : ∀ other ∈ late, other ∈ db.late) :
    CoreInv ⟨update.apply db.store, late⟩ disk now work copies known where
  files := h.files.apply hok
  ids := by
    intro id after hafter
    obtain ⟨before, hbefore, -⟩ := h.files.moved hok hafter
    show id ∈ (update.apply db.store).fileIds
    rw [fileIds_apply]
    exact h.ids id before hbefore
  late := fun other hother hplain => (h.late other (hlate other hother) hplain).apply h.files hok hplain
  tasks := fun task htask => (h.tasks task htask).apply h.files hok
  read := by
    intro id document hdocument snapshot hsnapshot
    obtain ⟨hfile, hdead⟩ := h.read id document hdocument snapshot hsnapshot
    exact ⟨hfile, fun hstatus => (hdead hstatus).apply h.files hok⟩
  claims := fun claim hclaim => mem_issued_apply (h.claims claim hclaim)
  claimed := by
    intro k hk
    have hnot : k ∉ db.store.issued := fun hissued => hk (mem_issued_apply hissued)
    refine claim?_apply (fun hreserves => ?_) (h.claimed k hnot)
    cases update with
    | reserve token id size version expiresAt =>
      cases hreserves
      exact hnot hok
    | _ => cases hreserves

theorem CoreInv.send (h : CoreInv db disk now work copies known)
    (hok : UpdateOk db.store disk now update) :
    CoreInv (InFlight.send SnapshotUpdate.apply update o db) disk now work copies known := by
  cases o with
  | performed => exact h.apply hok fun _ hother => hother
  | lost =>
    refine { h with late := fun other hother hplain => ?_ }
    obtain rfl | hother := List.mem_cons.1 hother
    · exact hok
    · exact h.late other hother hplain

end Core

section Freezes

variable {freezes : Token → Option FreezeCall}

theorem FreezesInv.apply {late : List SnapshotUpdate} (h : FreezesInv db disk freezes)
    (hfiles : FilesOk db.store disk now) (hok : UpdateOk db.store disk now update)
    (hpublishes : ∀ k call, freezes k = some call → call.stage ≠ .marking →
      ¬update.publishes call.id k)
    (hlate : ∀ other ∈ late, other ∈ db.late) :
    FreezesInv ⟨update.apply db.store, late⟩ disk freezes := by
  refine ⟨fun k call hcall => ?_, fun other hother id k hk => ?_⟩
  · exact (h.calls k call hcall).apply hfiles hok (hpublishes k call hcall)
  · obtain ⟨hissued, hnone⟩ := h.published other (hlate other hother) id k hk
    exact ⟨mem_issued_apply hissued, hnone⟩

theorem FreezesInv.send (h : FreezesInv db disk freezes)
    (hfiles : FilesOk db.store disk now) (hok : UpdateOk db.store disk now update)
    (hpublishes : ∀ id k, ¬update.publishes id k) :
    FreezesInv (InFlight.send SnapshotUpdate.apply update o db) disk freezes := by
  cases o with
  | performed => exact h.apply hfiles hok (fun k call _ _ => hpublishes call.id k) fun _ hother => hother
  | lost =>
    refine ⟨h.calls, fun other hother id k hk => ?_⟩
    obtain rfl | hother := List.mem_cons.1 hother
    · exact absurd hk (hpublishes id k)
    · exact h.published other hother id k hk

theorem FreezesInv.land {index : Nat} (h : FreezesInv db disk freezes)
    (hfiles : FilesOk db.store disk now) (hok : UpdateOk db.store disk now update)
    (hupdate : db.late[index]? = some update) :
    FreezesInv ⟨update.apply db.store, db.late.eraseIdx index⟩ disk freezes := by
  refine h.apply hfiles hok (fun k call hcall _ hpublishes => ?_) fun _ => List.mem_of_mem_eraseIdx
  have hnone := (h.published update (List.mem_of_getElem? hupdate) call.id k hpublishes).2
  rw [hcall] at hnone
  cases hnone

end Freezes

/-! ## The disk, the clock, new files -/

/-- What goes from the disk is of the token a procedure works for, and it is temporary or its
token is dead. -/
def DiskOk (store : SnapshotStore) (owner : Option Token) (disk disk' : CopyPath → Bool) : Prop :=
  ∀ path, disk path = true → disk' path = true ∨
    (owner = some path.token ∧ (path.final = true → Dead store path.file path.token))

theorem diskOk_refl : DiskOk store owner disk disk := fun _ hpath => .inl hpath

theorem DiskOk.trans {disk'' : CopyPath → Bool} (h : DiskOk store owner disk disk')
    (h' : DiskOk store owner disk' disk'') : DiskOk store owner disk disk'' := by
  intro path hpath
  obtain hkept | hgone := h path hpath
  · exact h' path hkept
  · exact .inr hgone

theorem diskOk_set (path : CopyPath) :
    DiskOk store owner disk (Function.update disk path true) := by
  intro other hother
  by_cases hne : other = path
  · exact .inl (by rw [hne, Function.update_self])
  · exact .inl ((Function.update_of_ne hne _ _).trans hother)

theorem diskOk_remove {path : CopyPath} (howner : owner = some path.token)
    (hdead : path.final = true → Dead store path.file path.token) :
    DiskOk store owner disk (Function.update disk path false) := by
  intro other hother
  by_cases hne : other = path
  · subst hne
    exact .inr ⟨howner, hdead⟩
  · exact .inl ((Function.update_of_ne hne _ _).trans hother)

theorem DiskOk.final {path : CopyPath} (h : DiskOk store owner disk disk')
    (hthere : disk path = true) (hfinal : path.final = true)
    (hlive : ¬Dead store path.file path.token) : disk' path = true := by
  obtain hkept | ⟨-, hdead⟩ := h path hthere
  · exact hkept
  · exact absurd (hdead hfinal) hlive

theorem FilesOk.onDisk (h : FilesOk store disk now) (hdisk : DiskOk store owner disk disk') :
    FilesOk store disk' now := by
  refine ⟨fun id document hdocument => ?_, h.grants, h.leases⟩
  cases h.documents id document hdocument with
  | receiving hstatus hfreeze hsnapshot => exact .receiving hstatus hfreeze hsnapshot
  | freezing token hstatus hfreeze hissued hsnapshot =>
    exact .freezing token hstatus hfreeze hissued hsnapshot
  | copied snapshot hstatus hfreeze hsnapshot hpath hissued hretire hthere =>
    refine .copied snapshot hstatus hfreeze hsnapshot hpath hissued hretire fun hne => ?_
    refine hdisk.final (hthere hne) hpath.final fun hdead => hne ?_
    rw [hpath.file, hpath.token] at hdead
    exact (hdead.2 document hdocument).2 ((holds_some hsnapshot).2 rfl)

/-- A token that claims the file is not dead. -/
theorem not_dead_of_claimed (hdocument : store.documents id = some document)
    (hclaimed : document.freezeToken = some token) : ¬Dead store id token :=
  fun hdead => (hdead.2 document hdocument).1 hclaimed

theorem UpdateOk.onDisk (h : UpdateOk store disk now update) (hdisk : DiskOk store owner disk disk') :
    UpdateOk store disk' now update := by
  cases update with
  | publish id token source snapshot =>
    obtain ⟨hissued, hpath, htoken, hthere⟩ := h
    refine ⟨hissued, hpath, htoken, fun document hdocument hclaimed => ?_⟩
    refine hdisk.final (hthere document hdocument hclaimed) hpath.final ?_
    rw [hpath.file, hpath.token, htoken]
    exact not_dead_of_claimed hdocument hclaimed
  | claim id source token leaseUntil temporary => exact h
  | startDelete id token stamp => exact h
  | pullReaders id stamp => exact h
  | reserve token id size version expiresAt => exact h
  | _ => trivial

theorem FreezeOk.onDisk (h : FreezeOk store disk token call) (hdisk : DiskOk store owner disk disk') :
    FreezeOk store disk' token call := by
  refine { h with copied := fun size hstage document hdocument hclaimed => ?_ }
  exact hdisk.final (h.copied size hstage document hdocument hclaimed) rfl
    (not_dead_of_claimed hdocument hclaimed)

/-- A reader pulls with a time that has passed. -/
def StampsOk (now : Nat) (readers : ReaderId → Option SnapshotReader) : Prop :=
  ∀ reader r stamp, readers reader = some r → r.stage = .pulling stamp → stamp ≤ now

structure CopiesInv (s : SnapshotState) : Prop where
  core : CoreInv s.db s.disk s.now s.tasks s.files s.claims
  freezes : FreezesInv s.db s.disk s.freezes
  stamps : StampsOk s.now s.readers

section Core

variable {work work' : List SnapshotTask} {copies : List (FileId × FileDocument)}
  {known : List SnapshotClaim}

theorem CoreInv.onDisk (h : CoreInv db disk now work copies known)
    (hdisk : DiskOk db.store owner disk disk') : CoreInv db disk' now work copies known :=
  { h with
    files := h.files.onDisk hdisk
    late := fun other hother hplain => (h.late other hother hplain).onDisk hdisk }

theorem CoreInv.addWork (h : CoreInv db disk now work copies known)
    (hwork : ∀ task ∈ work', task ∈ work ∨ TaskOk db.store task) :
    CoreInv db disk now work' copies known := by
  refine { h with tasks := fun task htask => ?_ }
  obtain hold | hnew := hwork task htask
  · exact h.tasks task hold
  · exact hnew

end Core

theorem FreezesInv.onDisk {freezes : Token → Option FreezeCall} (h : FreezesInv db disk freezes)
    (hdisk : DiskOk db.store owner disk disk') : FreezesInv db disk' freezes :=
  { h with calls := fun k call hcall => (h.calls k call hcall).onDisk hdisk }

theorem UpdateOk.later {now' : Nat} (h : UpdateOk store disk now update) (hle : now ≤ now') :
    UpdateOk store disk now' update := by
  cases update with
  | startDelete id token stamp => exact Nat.le_trans h hle
  | pullReaders id stamp => exact Nat.le_trans h hle
  | claim id source token leaseUntil temporary => exact h
  | publish id token source snapshot => exact h
  | reserve token id size version expiresAt => exact h
  | _ => trivial

theorem CopiesInv.tick (h : CopiesInv s) (seconds : Nat) :
    CopiesInv { s with now := s.now + seconds } := by
  have hle : s.now ≤ s.now + seconds := Nat.le_add_right _ _
  have hgrants : ∀ reader grant, s.db.store.grants reader = some grant →
      s.now + seconds < grant.expiresAt →
      ∃ document, s.db.store.documents grant.file = some document ∧
        Leased document reader grant :=
    fun reader grant hgrant hlt => h.core.files.grants reader grant hgrant (Nat.lt_of_le_of_lt hle hlt)
  have hleases : ∀ id document, s.db.store.documents id = some document →
      LeasesOk (s.now + seconds) document := fun id document hdocument lease hlease hlt =>
    h.core.files.leases id document hdocument lease hlease (Nat.lt_of_le_of_lt hle hlt)
  have hstamps : StampsOk (s.now + seconds) s.readers := fun reader r stamp hr hstage =>
    Nat.le_trans (h.stamps reader r stamp hr hstage) hle
  exact ⟨{ h.core with
    files := ⟨h.core.files.documents, hgrants, hleases⟩
    late := fun other hother hplain => (h.core.late other hother hplain).later hle }, h.freezes,
    hstamps⟩

/-! ## The freeze -/

/-- Nothing has to be known of the copy in this stage. -/
def FreezeStage.plain : FreezeStage → Bool
  | .publishing _ | .checking | .unlinking => false
  | _ => true

theorem FreezeOk.goes (h : FreezeOk store disk token call) (hmarking : call.stage ≠ .marking)
    (hplain : stage.plain = true) : FreezeOk store disk token { call with stage } where
  issued := h.issued
  source := h.source
  unpublished := fun _ => h.unpublished hmarking
  copied := by
    intro size hstage
    have hpublishing : stage = .publishing size := hstage
    rw [hpublishing] at hplain
    cases hplain
  gone := by
    intro hstage
    have hunlinking : stage = .checking ∨ stage = .unlinking := hstage
    obtain rfl | rfl := hunlinking
    · cases hplain
    · cases hplain

theorem FreezesInv.setFreeze {freezes : Token → Option FreezeCall} {next : Option FreezeCall}
    (h : FreezesInv db disk freezes) (hcall : freezes token = some call)
    (hnext : ∀ call', next = some call' → FreezeOk db.store disk token call') :
    FreezesInv db disk (Function.update freezes token next) := by
  refine ⟨fun k call' hcall' => ?_, fun update hupdate id k hk => ?_⟩
  · by_cases hne : k = token
    · subst hne
      rw [Function.update_self] at hcall'
      exact hnext call' hcall'
    · rw [Function.update_of_ne hne] at hcall'
      exact h.calls k call' hcall'
  · obtain ⟨hissued, hnone⟩ := h.published update hupdate id k hk
    have hne : k ≠ token := by
      rintro rfl
      rw [hcall] at hnone
      cases hnone
    exact ⟨hissued, (Function.update_of_ne hne _ _).trans hnone⟩

theorem CopiesInv.freezeEnds (h : CopiesInv s) (hcall : s.freezes token = some call) :
    CopiesInv (s.freezeEnds token) :=
  ⟨h.core, h.freezes.setFreeze hcall fun _ hnext => (by cases hnext), h.stamps⟩

theorem CopiesInv.freezeTo (h : CopiesInv s) (hcall : s.freezes token = some call)
    (hmarking : call.stage ≠ .marking) (hplain : stage.plain = true) :
    CopiesInv (s.freezeTo token call stage) := by
  refine ⟨h.core, h.freezes.setFreeze hcall fun call' hnext => ?_, h.stamps⟩
  cases hnext
  exact (h.freezes.calls token call hcall).goes hmarking hplain

theorem CopiesInv.setDisk (h : CopiesInv s) {path : CopyPath} {there : Bool}
    (hdisk : DiskOk s.db.store owner s.disk (Function.update s.disk path there)) :
    CopiesInv (s.setDisk path there) :=
  ⟨h.core.onDisk hdisk, h.freezes.onDisk hdisk, h.stamps⟩

/-- The stages a call may go on to with nothing known of the copy. -/
def GoesOn (call : FreezeCall) (next : Option FreezeStage) : Prop :=
  ∀ stage, next = some stage → call.stage ≠ .marking ∧ stage.plain = true

theorem goesOn_none : GoesOn call none := fun _ h => by cases h

theorem goesOn_some (hmarking : call.stage ≠ .marking) (hplain : stage.plain = true) :
    GoesOn call (some stage) := fun _ h => by cases h; exact ⟨hmarking, hplain⟩

theorem CopiesInv.freezeSends {matched unmatched raised : Option FreezeStage} (h : CopiesInv s)
    (hcall : s.freezes token = some call) (hok : UpdateOk s.db.store s.disk s.now update)
    (hpublishes : ∀ id k, ¬update.publishes id k) (hmatched : GoesOn call matched)
    (hunmatched : GoesOn call unmatched) (hraised : GoesOn call raised) :
    CopiesInv (s.freezeSends token call update o matched unmatched raised) := by
  have hsent := h.freezes.send (o := o) h.core.files hok hpublishes
  refine ⟨h.core.send hok, hsent.setFreeze hcall fun call' hnext => ?_, h.stamps⟩
  obtain ⟨stage, hstage, rfl⟩ := Option.map_eq_some_iff.1 hnext
  have hgoes : call.stage ≠ .marking ∧ stage.plain = true := by
    split at hstage
    · exact hmatched stage hstage
    split at hstage
    · exact hunmatched stage hstage
    · exact hraised stage hstage
  exact (hsent.calls token call hcall).goes hgoes.1 hgoes.2

theorem apply_none (hrun : update.run store = none) : update.apply store = store := by
  unfold SnapshotUpdate.apply
  rw [hrun, Option.getD_none]

theorem freezeSends_matched {matched unmatched raised : Option FreezeStage}
    (hrun : update.run s.store = some store) :
    s.freezeSends token call update .performed matched unmatched raised =
      (s.send update .performed).setFreeze token (matched.map fun stage => { call with stage }) := by
  simp [SnapshotState.freezeSends, SnapshotState.matched, hrun]

theorem freezeSends_unmatched {matched unmatched raised : Option FreezeStage}
    (hrun : update.run s.store = none) :
    s.freezeSends token call update .performed matched unmatched raised =
      (s.send update .performed).setFreeze token (unmatched.map fun stage => { call with stage }) := by
  simp [SnapshotState.freezeSends, SnapshotState.matched, hrun]

/-- A publication that finds nothing to change: its token does not claim the file. -/
theorem FreezeOk.lost (h : FreezeOk store disk token call) (hfiles : FilesOk store disk now)
    (hrun : (SnapshotUpdate.publish call.id token call.source snapshot).run store = none)
    (hdocument : store.documents call.id = some document) : document.freezeToken ≠ some token := by
  intro hclaimed
  obtain ⟨hstatus, -⟩ := (hfiles.documents call.id document hdocument).claimed hclaimed
  have hnone := ((hfiles.documents call.id document hdocument).of_freezing hstatus).1
  have hsource := h.source document hdocument hclaimed
  simp [SnapshotUpdate.run, SnapshotStore.updateFile, hdocument, hstatus, hclaimed, hsource,
    hnone] at hrun

theorem CopiesInv.publish (h : CopiesInv s) (hcall : s.freezes token = some call) {size : Nat}
    (hstage : call.stage = .publishing size) :
    CopiesInv (s.freezeSends token call
      (.publish call.id token call.source ⟨call.final token, size, token⟩) o
      (some .marking) (some .checking) none) := by
  have hfreeze := h.freezes.calls token call hcall
  have hok : UpdateOk s.db.store s.disk s.now
      (.publish call.id token call.source ⟨call.final token, size, token⟩) :=
    ⟨hfreeze.issued, ⟨rfl, rfl, rfl⟩, rfl, hfreeze.copied size hstage⟩
  have hmarking : call.stage ≠ .marking := by
    rw [hstage]
    exact fun he => by cases he
  have hcore : ∀ o, CoreInv (InFlight.send SnapshotUpdate.apply
      (.publish call.id token call.source ⟨call.final token, size, token⟩) o s.db)
      s.disk s.now s.tasks s.files s.claims := fun _ => h.core.send hok
  cases o with
  | lost =>
    -- nobody waits for the answer any more
    have hends : FreezesInv s.db s.disk (Function.update s.freezes token none) :=
      h.freezes.setFreeze hcall fun _ hnext => by cases hnext
    refine ⟨hcore .lost, ⟨hends.calls, fun other hother id k hk => ?_⟩, h.stamps⟩
    obtain rfl | hother := List.mem_cons.1 hother
    · obtain ⟨rfl, rfl⟩ := hk
      exact ⟨hfreeze.issued, Function.update_self ..⟩
    · exact hends.published other hother id k hk
  | performed =>
    cases hrun : (SnapshotUpdate.publish call.id token call.source
        ⟨call.final token, size, token⟩).run s.store with
    | none =>
      rw [freezeSends_unmatched hrun]
      refine ⟨hcore .performed, ?_, h.stamps⟩
      have hchecking : FreezeOk s.db.store s.disk token { call with stage := .checking } :=
        { hfreeze with
          unpublished := fun _ => hfreeze.unpublished hmarking
          copied := fun _ he => by cases he
          gone := fun _ _ hdocument => hfreeze.lost h.core.files hrun hdocument }
      have hsame : InFlight.send SnapshotUpdate.apply (.publish call.id token call.source
          ⟨call.final token, size, token⟩) .performed s.db = s.db :=
        congrArg (InFlight.mk · s.db.late) (apply_none hrun)
      show FreezesInv (InFlight.send SnapshotUpdate.apply _ .performed s.db) s.disk _
      rw [hsame]
      refine h.freezes.setFreeze hcall fun call' hnext => ?_
      cases hnext
      exact hchecking
    | some store' =>
      rw [freezeSends_matched hrun]
      have hmarks : FreezesInv s.db s.disk
          (Function.update s.freezes token (some { call with stage := .marking })) := by
        refine h.freezes.setFreeze hcall fun call' hnext => ?_
        cases hnext
        exact hfreeze.goes hmarking rfl
      refine ⟨hcore .performed, hmarks.apply h.core.files hok (fun k call' hcall' hne hpublishes => ?_)
        fun _ hother => hother, h.stamps⟩
      obtain ⟨-, rfl⟩ := hpublishes
      rw [Function.update_self] at hcall'
      cases hcall'
      exact hne rfl

/-! ## Steps -/

/-- Every new grant is on a file that can be read under its token. -/
def GrantsOk (store store' : SnapshotStore) : Prop :=
  ∀ reader grant, store'.grants reader = some grant → store.grants reader = some grant ∨
    ∃ document, store.documents grant.file = some document ∧ document.holds grant.token = true ∧
      (document.status = .frozen ∨ document.status = .retiring)

theorem grantsOk_refl : GrantsOk store store := fun _ _ h => .inl h

/-- The invariant goes on, what has been removed could be, and so could what has been
granted. -/
structure CopiesStep (s : SnapshotState) (owner : Option Token) (t : SnapshotState) : Prop where
  inv : CopiesInv t
  removed : DiskOk s.db.store owner s.disk t.disk
  granted : GrantsOk s.db.store t.db.store

/-- The procedure neither touches the disk nor sends an update. -/
theorem CopiesInv.stays (h : CopiesInv t) (hdisk : t.disk = s.disk)
    (hgrants : t.db.store.grants = s.db.store.grants) : CopiesStep s owner t :=
  ⟨h, hdisk ▸ diskOk_refl, fun _ _ hgrant => .inl (hgrants ▸ hgrant)⟩

theorem grantsOk_apply : GrantsOk store (update.apply store) := by
  intro reader grant hgrant
  obtain ⟨hold, -⟩ | ⟨hgranted, -⟩ := apply_granted hgrant
  · exact .inl hold
  · exact .inr hgranted

/-- The procedure sends an update. -/
theorem CopiesInv.sent (h : CopiesInv t) (hdisk : t.disk = s.disk)
    (hdb : t.db = InFlight.send SnapshotUpdate.apply update o s.db) : CopiesStep s owner t := by
  refine ⟨h, hdisk ▸ diskOk_refl, ?_⟩
  rw [hdb]
  cases o with
  | performed => exact grantsOk_apply
  | lost => exact grantsOk_refl

theorem freezeStep_copies {event : SnapshotEvent} (h : CopiesInv s)
    (hcall : s.freezes token = some call) (hstage : call.stage = stage)
    (hstep : s.freezeStep token call stage event = some t) : CopiesStep s (some token) t := by
  have hfreeze := h.freezes.calls token call hcall
  have hgo : stage ≠ .marking → call.stage ≠ .marking := fun hne => hstage ▸ hne
  have hto : ∀ next : FreezeStage, stage ≠ .marking → next.plain = true →
      CopiesStep s (some token) (s.freezeTo token call next) :=
    fun next hne hplain => (h.freezeTo hcall (hgo hne) hplain).stays rfl rfl
  have hends : CopiesStep s (some token) (s.freezeEnds token) := (h.freezeEnds hcall).stays rfl rfl
  have hsends : ∀ (update : SnapshotUpdate) (o : Outcome)
      (matched unmatched raised : Option FreezeStage),
      UpdateOk s.db.store s.disk s.now update → (∀ id k, ¬update.publishes id k) →
      GoesOn call matched → GoesOn call unmatched → GoesOn call raised →
      CopiesStep s (some token) (s.freezeSends token call update o matched unmatched raised) :=
    fun _ _ _ _ _ hok hpublishes hmatched hunmatched hraised =>
      (h.freezeSends hcall hok hpublishes hmatched hunmatched hraised).sent rfl rfl
  cases stage with
  | opening =>
    cases event with
    | opened size =>
      simp only [SnapshotState.freezeStep] at hstep
      split at hstep
      all_goals cases hstep
      · exact hto _ nofun rfl
      · exact hto _ nofun rfl
    | done ok =>
      cases hstep
      exact hto _ nofun rfl
    | _ => cases hstep
  | reserving size =>
    cases event with
    | sent o =>
      cases hstep
      exact hsends _ o _ _ _ hfreeze.issued nofun (goesOn_some (hgo nofun) rfl)
        (goesOn_some (hgo nofun) rfl) (goesOn_some (hgo nofun) rfl)
    | _ => cases hstep
  | confirming size =>
    cases event with
    | done ok =>
      simp only [SnapshotState.freezeStep] at hstep
      split at hstep
      all_goals cases hstep
      · exact hto _ nofun rfl
      · exact hto _ nofun rfl
    | _ => cases hstep
  | copying size =>
    cases event with
    | written =>
      cases hstep
      have hdisk : DiskOk s.db.store (some token) s.disk
          (Function.update s.disk (call.temporary token) true) := diskOk_set _
      exact ⟨h.setDisk hdisk, hdisk, grantsOk_refl⟩
    | sent o =>
      cases hstep
      exact hsends _ o _ _ _ trivial nofun (goesOn_some (hgo nofun) rfl)
        (goesOn_some (hgo nofun) rfl) (goesOn_some (hgo nofun) rfl)
    | done ok =>
      cases hstep
      refine hto _ nofun ?_
      cases ok <;> rfl
    | _ => cases hstep
  | replacing size =>
    cases event with
    | done ok =>
      simp only [SnapshotState.freezeStep] at hstep
      split at hstep
      all_goals cases hstep
      · have hgone : DiskOk s.db.store (some token) s.disk
            (Function.update s.disk (call.temporary token) false) := diskOk_remove rfl nofun
        have hmoved : DiskOk s.db.store (some token) s.disk (Function.update
            (Function.update s.disk (call.temporary token) false) (call.final token) true) :=
          hgone.trans (diskOk_set _)
        refine ⟨⟨h.core.onDisk hmoved, ?_, h.stamps⟩, hmoved, grantsOk_refl⟩
        refine (h.freezes.onDisk hmoved).setFreeze hcall fun call' hnext => ?_
        cases hnext
        exact { hfreeze.onDisk hmoved with
          unpublished := fun _ => hfreeze.unpublished (hgo nofun)
          copied := fun _ _ _ _ _ => Function.update_self ..
          gone := fun he => by cases he with | inl he => cases he | inr he => cases he }
      · exact hto _ nofun rfl
    | _ => cases hstep
  | publishing size =>
    cases event with
    | sent o =>
      cases hstep
      exact (h.publish hcall hstage).sent rfl rfl
    | _ => cases hstep
  | marking =>
    cases event with
    | sent o =>
      cases hstep
      exact hsends _ o _ _ _ trivial nofun goesOn_none goesOn_none goesOn_none
    | _ => cases hstep
  | checking =>
    cases event with
    | done ok =>
      simp only [SnapshotState.freezeStep] at hstep
      split at hstep
      all_goals cases hstep
      · refine CopiesInv.stays ⟨h.core, h.freezes.setFreeze hcall fun call' hnext => ?_, h.stamps⟩ rfl rfl
        cases hnext
        exact { hfreeze with
          unpublished := fun _ => hfreeze.unpublished (hgo nofun)
          copied := nofun
          gone := fun _ => hfreeze.gone (.inl hstage) }
      · exact hends
    | _ => cases hstep
  | unlinking =>
    cases event with
    | done ok =>
      simp only [SnapshotState.freezeStep] at hstep
      split at hstep
      all_goals cases hstep
      · have hdead : Dead s.db.store call.id token := by
          refine ⟨hfreeze.issued, fun document hdocument => ⟨?_, fun hholds => ?_⟩⟩
          · exact hfreeze.gone (.inr hstage) document hdocument
          · rw [hfreeze.unpublished (hgo nofun) document hdocument] at hholds
            cases hholds
        have hdisk : DiskOk s.db.store (some token) s.disk
            (Function.update s.disk (call.final token) false) := diskOk_remove rfl fun _ => hdead
        exact ⟨(h.setDisk hdisk).freezeTo hcall (hgo nofun) rfl, hdisk, grantsOk_refl⟩
      · exact hends
    | _ => cases hstep
  | releasing =>
    cases event with
    | sent o =>
      cases hstep
      exact hsends _ o _ _ _ trivial nofun goesOn_none goesOn_none goesOn_none
    | _ => cases hstep
  | removing reserved =>
    cases event with
    | done ok =>
      simp only [SnapshotState.freezeStep] at hstep
      split at hstep
      all_goals cases hstep
      · have hdisk : DiskOk s.db.store (some token) s.disk
            (Function.update s.disk (call.temporary token) false) := diskOk_remove rfl nofun
        refine ⟨(h.setDisk hdisk).freezeTo hcall (hgo nofun) ?_, hdisk, grantsOk_refl⟩
        cases reserved <;> rfl
      · exact hends
    | _ => cases hstep
  | givingBack =>
    cases event with
    | sent o =>
      cases hstep
      exact hsends _ o _ _ _ trivial nofun (goesOn_some (hgo nofun) rfl) goesOn_none
        (goesOn_some (hgo nofun) rfl)
    | _ => cases hstep
  | confirmingRelease =>
    cases event with
    | done ok =>
      simp only [SnapshotState.freezeStep] at hstep
      split at hstep
      all_goals cases hstep
      · exact hto _ nofun rfl
      · exact hends
    | _ => cases hstep
  | unclaiming =>
    cases event with
    | sent o =>
      cases hstep
      exact hsends _ o _ _ _ trivial nofun goesOn_none goesOn_none goesOn_none
    | _ => cases hstep

end CameraLogs.Coredumps
