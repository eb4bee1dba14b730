import CameraLogs.Coredumps.SnapshotCopies
import CameraLogs.Coredumps.SnapshotLedgerRun

/-!
# No copy is removed while it can be read

Every step of the procedures keeps `CopiesInv`, and what it removes from the disk is of the
token it works for, and dead if it is a final copy (`act_copies`). Where the maintenance
begins a removal, its own update has made the token dead: the file has been taken back from
its freeze, or its deletion has begun. `reconcile_orphans` finds it so.
-/

namespace CameraLogs.Coredumps

open CameraLogs.Lib

/-- The token a task works for. -/
def SnapshotTask.token : SnapshotTask → Token
  | .removeTemporary _ path | .removeFinal path | .delete _ path => path.token
  | .release token | .confirmPublished token | .retire _ token | .giveBack _ token
  | .confirmRelease _ token | .clear _ token => token
  | .reclaim claim | .deleteOwned claim | .deleteOwnedFinal claim => claim.id

/-- The token of the procedure whose step an act is. -/
def SnapshotAct.worksFor (s : SnapshotState) : SnapshotAct → Option Token
  | .freeze token _ => some token
  | .task index _ => s.tasks[index]?.map SnapshotTask.token
  | _ => none

/-! ## Tasks -/

variable {s t : SnapshotState} {store : SnapshotStore} {update : SnapshotUpdate}
  {id : FileId} {token : Token} {document : FileDocument} {o : Outcome} {owner : Option Token}
  {task : SnapshotTask} {next : Option SnapshotTask} {i : Nat}

/-- A task may be followed by another that relies on no more. -/
def Follows (task : SnapshotTask) (next : Option SnapshotTask) : Prop :=
  ∀ left, next = some left → ∀ store, TaskOk store task → TaskOk store left

theorem follows_none : Follows task none := fun _ h => by cases h

theorem follows_some {left : SnapshotTask} (h : ∀ store, TaskOk store task → TaskOk store left) :
    Follows task (some left) := fun _ hleft => by cases hleft; exact h

theorem CopiesInv.taskGoes (h : CopiesInv s) (htask : task ∈ s.tasks) (hnext : Follows task next) :
    CopiesInv (s.taskGoes i next) := by
  refine ⟨h.core.addWork fun left hleft => ?_, h.freezes, h.stamps⟩
  obtain hnew | hold := List.mem_append.1 hleft
  · exact .inr (hnext left (Option.mem_toList.1 hnew) s.db.store (h.core.tasks task htask))
  · exact .inl (List.mem_of_mem_eraseIdx hold)

/-- An update that is not a publication. -/
theorem CopiesInv.send (h : CopiesInv s) (hok : UpdateOk s.db.store s.disk s.now update)
    (hpublishes : ∀ id k, ¬update.publishes id k) : CopiesInv (s.send update o) :=
  ⟨h.core.send hok, h.freezes.send h.core.files hok hpublishes, h.stamps⟩

theorem CopiesInv.taskSends {matched unmatched raised : Option SnapshotTask} (h : CopiesInv s)
    (htask : task ∈ s.tasks) (hok : UpdateOk s.db.store s.disk s.now update)
    (hpublishes : ∀ id k, ¬update.publishes id k) (hmatched : Follows task matched)
    (hunmatched : Follows task unmatched) (hraised : Follows task raised) :
    CopiesInv (s.taskSends i update o matched unmatched raised) := by
  have hsent : CopiesInv (s.send update o) := h.send hok hpublishes
  refine hsent.taskGoes htask ?_
  split
  · exact hmatched
  split
  · exact hunmatched
  · exact hraised

theorem removeOwned_copies (h : CopiesInv s) (temporary : Option CopyPath) (token : Token) :
    CopiesStep s (some token) (s.removeOwned temporary token) ∧
      (s.removeOwned temporary token).tasks = s.tasks := by
  unfold SnapshotState.removeOwned
  split
  · split
    next path hpath =>
      obtain ⟨rfl, hfinal⟩ := hpath
      have hdisk : DiskOk s.db.store (some path.token) s.disk (Function.update s.disk path false) :=
        diskOk_remove rfl fun he => by rw [hfinal] at he; cases he
      exact ⟨⟨h.setDisk hdisk, hdisk, grantsOk_refl⟩, rfl⟩
    next => exact ⟨h.stays rfl rfl, rfl⟩
  · exact ⟨h.stays rfl rfl, rfl⟩

/-- A task that removes a copy it may remove. -/
theorem CopiesInv.removes {path : CopyPath} (h : CopiesInv s) (htask : task ∈ s.tasks)
    (howner : task.token = path.token)
    (hdead : path.final = true → Dead s.db.store path.file path.token)
    (hnext : Follows task next) :
    CopiesStep s (some task.token) ((s.setDisk path false).taskGoes i next) := by
  have hdisk : DiskOk s.db.store (some task.token) s.disk (Function.update s.disk path false) :=
    diskOk_remove (congrArg some howner) hdead
  exact ⟨(h.setDisk hdisk).taskGoes htask hnext, hdisk, grantsOk_refl⟩

theorem taskStep_copies {event : SnapshotEvent} (h : CopiesInv s) (htask : task ∈ s.tasks)
    (hstep : s.taskStep i task event = some t) : CopiesStep s (some task.token) t := by
  have hok : TaskOk s.db.store task := h.core.tasks task htask
  have hends : CopiesStep s (some task.token) (s.taskGoes i none) :=
    (h.taskGoes htask follows_none).stays rfl rfl
  cases event with
  | done ok =>
    cases ok with
    | false =>
      cases task <;> cases hstep <;> exact hends
    | true =>
      cases task with
      | removeTemporary temporary path =>
        cases hstep
        obtain ⟨⟨hinv, hremoved, hgranted⟩, htasks⟩ := removeOwned_copies h temporary path.token
        have htask' : SnapshotTask.removeTemporary temporary path ∈
            (s.removeOwned temporary path.token).tasks := by
          rw [htasks]
          exact htask
        exact ⟨hinv.taskGoes htask' (follows_some fun _ hdead => hdead), hremoved, hgranted⟩
      | removeFinal path =>
        cases hstep
        exact h.removes htask rfl (fun _ => hok) (follows_some fun _ _ => trivial)
      | delete id path =>
        cases hstep
        exact h.removes htask rfl (fun _ => hok) (follows_some fun _ _ => trivial)
      | confirmRelease id token =>
        cases hstep
        refine CopiesInv.stays (h.taskGoes htask ?_) rfl rfl
        split
        · exact follows_some fun _ _ => trivial
        · exact follows_none
      | deleteOwned claim =>
        cases hstep
        exact h.removes htask rfl (fun he => by cases he) (follows_some fun _ hdead => hdead)
      | deleteOwnedFinal claim =>
        cases hstep
        exact h.removes htask rfl (fun _ => hok) (follows_some fun _ _ => trivial)
      | _ => cases hstep
  | sent o =>
    have hsends : ∀ (update : SnapshotUpdate) (matched unmatched raised : Option SnapshotTask),
        UpdateOk s.db.store s.disk s.now update → (∀ id k, ¬update.publishes id k) →
        Follows task matched → Follows task unmatched → Follows task raised →
        CopiesStep s (some task.token) (s.taskSends i update o matched unmatched raised) :=
      fun _ _ _ _ hok hpublishes hmatched hunmatched hraised =>
        (h.taskSends htask hok hpublishes hmatched hunmatched hraised).sent rfl rfl
    cases task with
    | release token | confirmPublished token | retire id token | clear id token =>
      cases hstep
      exact hsends _ _ _ _ trivial nofun follows_none follows_none follows_none
    | giveBack id token =>
      cases hstep
      exact hsends _ _ _ _ trivial nofun (follows_some fun _ _ => trivial) follows_none
        (follows_some fun _ _ => trivial)
    | reclaim claim =>
      cases hstep
      exact hsends _ _ _ _ trivial nofun (follows_some fun _ hdead => hdead) follows_none
        follows_none
    | _ => cases hstep
  | opened size => cases task <;> cases hstep
  | written => cases task <;> cases hstep

/-! ## What the maintenance begins -/

theorem matched_some (h : s.matched update o = true) :
    ∃ store', update.run s.db.store = some store' ∧ update.apply s.db.store = store' := by
  obtain ⟨-, hfound⟩ := Bool.and_eq_true_iff.1 h
  obtain ⟨store', hrun⟩ := Option.isSome_iff_exists.1 hfound
  have hrun' : update.run s.db.store = some store' := hrun
  refine ⟨store', hrun', ?_⟩
  unfold SnapshotUpdate.apply
  rw [hrun', Option.getD_some]

theorem CopiesInv.addTasks {begun : List SnapshotTask} (h : CopiesInv s)
    (hbegun : ∀ task ∈ begun, TaskOk s.db.store task) :
    CopiesInv { s with tasks := begun ++ s.tasks } := by
  refine ⟨h.core.addWork fun task htask => ?_, h.freezes, h.stamps⟩
  obtain hnew | hold := List.mem_append.1 htask
  · exact .inr (hbegun task hnew)
  · exact .inl hold

theorem CopiesInv.addTask (h : CopiesInv s) (hok : TaskOk s.db.store task) :
    CopiesInv (s.addTask task) := by
  have hall : ∀ other ∈ [task], TaskOk s.db.store other := fun other hother =>
    (List.mem_singleton.1 hother).symm ▸ hok
  exact h.addTasks hall

theorem CopiesInv.begins {begun : List SnapshotTask} (h : CopiesInv s)
    (hok : UpdateOk s.db.store s.disk s.now update) (hpublishes : ∀ id k, ¬update.publishes id k)
    (hbegun : s.matched update o = true → ∀ task ∈ begun, TaskOk (update.apply s.db.store) task) :
    CopiesStep s owner (s.begins update o begun) := by
  have hsent : CopiesInv (s.send update o) := h.send hok hpublishes
  unfold SnapshotState.begins
  split
  next hmatched =>
    obtain rfl : o = .performed := of_decide_eq_true (Bool.and_eq_true_iff.1 hmatched).1
    have hdb : (s.send update .performed).db =
        InFlight.send SnapshotUpdate.apply update .performed s.db := rfl
    exact (hsent.addTasks (hbegun hmatched)).sent rfl hdb
  next => exact hsent.sent rfl rfl

/-- A file that has been taken back from its freeze. -/
theorem expireFreeze_dead {leaseUntil : Nat} (h : CopiesInv s)
    (hmatched : s.matched (.expireFreeze id token leaseUntil) o = true) :
    Dead ((SnapshotUpdate.expireFreeze id token leaseUntil).apply s.db.store) id token := by
  obtain ⟨store', hrun, happly⟩ := matched_some hmatched
  rw [happly]
  obtain ⟨before, hbefore, hfilter, rfl⟩ := updateFile_some hrun
  obtain ⟨hstatus, hfreeze, -⟩ := of_decide_eq_true hfilter
  have hok := h.core.files.documents id before hbefore
  refine ⟨(hok.claimed hfreeze).2, fun document hdocument => ?_⟩
  have hafter : Function.update s.db.store.documents id
      (some { before.unfreeze with status := .receiving }) id = some document := hdocument
  rw [Function.update_self] at hafter
  cases hafter
  refine ⟨nofun, fun hholds => ?_⟩
  have hheld : before.holds token = true := hholds
  rw [not_holds_none (hok.of_freezing hstatus).1] at hheld
  cases hheld

/-- A snapshot whose deletion has begun. -/
theorem startDelete_dead {stamp : Nat} (h : CopiesInv s)
    (hmatched : s.matched (.startDelete id token stamp) o = true) :
    Dead ((SnapshotUpdate.startDelete id token stamp).apply s.db.store) id token := by
  obtain ⟨store', hrun, happly⟩ := matched_some hmatched
  rw [happly]
  obtain ⟨before, hbefore, hfilter, rfl⟩ := updateFile_some hrun
  obtain ⟨hstatus, hretire, -⟩ := of_decide_eq_true hfilter
  obtain ⟨hfree, snapshot, -, -, hissued, hretired, -⟩ :=
    (h.core.files.documents id before hbefore).of_copied (.inr (.inl hstatus))
  have htoken : token = snapshot.reservationToken :=
    Option.some.inj (hretire.symm.trans (hretired (by rw [hstatus]; simp)))
  refine ⟨htoken ▸ hissued, fun document hdocument => ?_⟩
  have hafter : Function.update s.db.store.documents id
      (some { before with status := .deleting }) id = some document := hdocument
  rw [Function.update_self] at hafter
  cases hafter
  refine ⟨fun hk => ?_, fun _ => rfl⟩
  have hsome : before.freezeToken = some token := hk
  rw [hfree] at hsome
  cases hsome

/-- The removal of a copy is of a path of its file, under the token. -/
theorem deletion_ok {path : CopyPath} (hfile : path.file = id) (hdead : Dead store id token) :
    ∀ task ∈ SnapshotState.deletion id path token, TaskOk store task := by
  intro task htask
  unfold SnapshotState.deletion at htask
  split at htask
  next hpath =>
    obtain rfl := List.mem_singleton.1 htask
    show Dead store path.file path.token
    rw [hfile, hpath.1]
    exact hdead
  next => cases htask

/-- No file refers to the token. -/
theorem not_referenced_dead (h : CopiesInv s) (hissued : token ∈ s.db.store.issued)
    (hreferences : s.store.references token = false) (id : FileId) : Dead s.db.store id token := by
  refine ⟨hissued, fun document hdocument => ?_⟩
  have hnone := List.any_eq_false.1 hreferences id (h.core.ids id document hdocument)
  have hdocument' : s.store.documents id = some document := hdocument
  rw [hdocument', Option.any_some, Bool.not_eq_true, Bool.or_eq_false_iff] at hnone
  refine ⟨of_decide_eq_false hnone.1, fun hholds => ?_⟩
  rw [hnone.2] at hholds
  cases hholds

/-! ## Acts -/

/-- A document that is read. -/
theorem DocumentOk.readOk {disk : CopyPath → Bool} (hdocument : store.documents id = some document)
    (hok : DocumentOk store.issued disk id document) : ReadOk store id document := by
  intro snapshot hsnapshot
  cases hok with
  | receiving _ _ hnone =>
    rw [hsnapshot] at hnone
    cases hnone
  | freezing _ _ _ _ hnone =>
    rw [hsnapshot] at hnone
    cases hnone
  | copied snapshot' _ hfree hsome hpath hissued _ _ =>
    obtain rfl := Option.some.inj (hsnapshot.symm.trans hsome)
    refine ⟨hpath.file, fun hstatus => ⟨hissued, fun document' hdocument' => ?_⟩⟩
    obtain rfl := Option.some.inj (hdocument.symm.trans hdocument')
    refine ⟨fun hk => ?_, fun _ => hstatus⟩
    rw [hfree] at hk
    cases hk

/-- A file has been registered at most: it has neither a freeze nor a copy. -/
structure Discovered (store store' : SnapshotStore) : Prop where
  issued : store'.issued = store.issued
  documents : ∀ id document, store'.documents id = some document →
    store.documents id = some document ∨
      (document.status = .receiving ∧ document.freezeToken = none ∧ document.snapshot = none)

section Discovered

variable {store' : SnapshotStore} {disk : CopyPath → Bool} {now : Nat}

theorem Dead.discovered (h : Dead store id token) (hfound : Discovered store store') :
    Dead store' id token := by
  refine ⟨hfound.issued ▸ h.1, fun document hdocument => ?_⟩
  obtain hold | ⟨-, hfree, hnone⟩ := hfound.documents id document hdocument
  · exact h.2 document hold
  · refine ⟨fun hk => ?_, fun hholds => ?_⟩
    · rw [hfree] at hk
      cases hk
    · rw [not_holds_none hnone] at hholds
      cases hholds

theorem UpdateOk.discovered (h : UpdateOk store disk now update) (hfound : Discovered store store') :
    UpdateOk store' disk now update := by
  have hissued := hfound.issued
  cases update with
  | claim id source token leaseUntil temporary =>
    show token ∉ store'.issued
    rw [hissued]
    exact h
  | publish id token source snapshot =>
    obtain ⟨htoken, hpath, hsame, hthere⟩ := h
    refine ⟨hissued ▸ htoken, hpath, hsame, fun document hdocument hclaimed => ?_⟩
    obtain hold | ⟨-, hfree, -⟩ := hfound.documents id document hdocument
    · exact hthere document hold hclaimed
    · rw [hfree] at hclaimed
      cases hclaimed
  | startDelete id token stamp => exact h
  | pullReaders id stamp => exact h
  | reserve token id size version expiresAt =>
    show token ∈ store'.issued
    rw [hissued]
    exact h
  | _ => trivial

theorem TaskOk.discovered (h : TaskOk store task) (hfound : Discovered store store') :
    TaskOk store' task := by
  cases task with
  | removeTemporary _ path | removeFinal path | delete _ path => exact Dead.discovered h hfound
  | reclaim claim | deleteOwned claim | deleteOwnedFinal claim => exact Dead.discovered h hfound
  | _ => trivial

theorem FreezeOk.discovered {call : FreezeCall} (h : FreezeOk store disk token call)
    (hfound : Discovered store store') : FreezeOk store' disk token call := by
  have hclaimed : ∀ document, store'.documents call.id = some document →
      document.freezeToken = some token → store.documents call.id = some document := by
    intro document hdocument hclaimed
    obtain hold | ⟨-, hfree, -⟩ := hfound.documents call.id document hdocument
    · exact hold
    · rw [hfree] at hclaimed
      cases hclaimed
  refine ⟨hfound.issued ▸ h.issued, fun document hdocument hk => ?_, fun hstage document hdocument => ?_,
    fun size hstage document hdocument hk => ?_, fun hstage document hdocument hk => ?_⟩
  · exact h.source document (hclaimed document hdocument hk) hk
  · obtain hold | ⟨-, -, hnone⟩ := hfound.documents call.id document hdocument
    · exact h.unpublished hstage document hold
    · exact not_holds_none hnone
  · exact h.copied size hstage document (hclaimed document hdocument hk) hk
  · exact h.gone hstage document (hclaimed document hdocument hk) hk

end Discovered

theorem CopiesInv.discover (h : CopiesInv s) {version source : Nat} (hnew : id ∉ s.store.fileIds) :
    CopiesInv { s with db.store := { s.store with
      fileIds := id :: s.store.fileIds
      documents := Function.update s.store.documents id
        (some ⟨.receiving, version, source, none, none, none, none, none, []⟩) } } := by
  have hcases : ∀ other document, Function.update s.db.store.documents id
      (some ⟨.receiving, version, source, none, none, none, none, none, []⟩) other = some document →
      s.db.store.documents other = some document ∨ (other = id ∧
        document.status = .receiving ∧ document.freezeToken = none ∧ document.snapshot = none ∧
        document.snapshotReaders = []) := by
    intro other document hdocument
    by_cases hne : other = id
    · rw [hne, Function.update_self] at hdocument
      cases hdocument
      exact .inr ⟨hne, rfl, rfl, rfl, rfl⟩
    · rw [Function.update_of_ne hne] at hdocument
      exact .inl hdocument
  have hfound : Discovered s.db.store { s.store with
      fileIds := id :: s.store.fileIds
      documents := Function.update s.store.documents id
        (some ⟨.receiving, version, source, none, none, none, none, none, []⟩) } :=
    ⟨rfl, fun other document hdocument => (hcases other document hdocument).imp_right
      fun ⟨_, hstatus, hfree, hnone, _⟩ => ⟨hstatus, hfree, hnone⟩⟩
  refine ⟨⟨⟨fun other document hdocument => ?_, fun reader grant hgrant hlt => ?_,
    fun other document hdocument => ?_⟩,
    fun other document hdocument => ?_, fun other hother hplain => ?_, fun task htask => ?_,
    fun other document hdocument snapshot hsnapshot => ?_, h.core.claims, h.core.claimed⟩,
    ⟨fun k call hcall => ?_, h.freezes.published⟩, h.stamps⟩
  · obtain hold | ⟨-, hstatus, hfree, hnone, -⟩ := hcases other document hdocument
    · exact h.core.files.documents other document hold
    · exact .receiving hstatus hfree hnone
  · obtain ⟨document, hdocument, hleased⟩ := h.core.files.grants reader grant hgrant hlt
    have hne : grant.file ≠ id := by
      rintro rfl
      exact hnew (h.core.ids grant.file document hdocument)
    exact ⟨document, (Function.update_of_ne hne _ _).trans hdocument, hleased⟩
  · obtain hold | ⟨-, -, -, -, hnobody⟩ := hcases other document hdocument
    · exact h.core.files.leases other document hold
    · intro lease hlease
      rw [hnobody] at hlease
      cases hlease
  · obtain hold | ⟨rfl, -⟩ := hcases other document hdocument
    · exact List.mem_cons_of_mem _ (h.core.ids other document hold)
    · exact List.mem_cons_self
  · exact (h.core.late other hother hplain).discovered hfound
  · exact (h.core.tasks task htask).discovered hfound
  · obtain ⟨hfile, hdead⟩ := h.core.read other document hdocument snapshot hsnapshot
    exact ⟨hfile, fun hstatus => (hdead hstatus).discovered hfound⟩
  · exact (h.freezes.calls k call hcall).discovered hfound

/-- A freeze that begins, with a token that has just been issued. -/
theorem CopiesInv.claim {version source leaseUntil : Nat} {temporary : CopyPath} (h : CopiesInv s)
    (hnew : token ∉ s.db.store.issued)
    (hmatched : s.matched (.claim id source token leaseUntil temporary) o = true) :
    CopiesInv ((s.send (.claim id source token leaseUntil temporary) o).setFreeze token
      (some ⟨id, version, source, .opening⟩)) := by
  obtain rfl : o = .performed := of_decide_eq_true (Bool.and_eq_true_iff.1 hmatched).1
  have hsent : CopiesInv (s.send (.claim id source token leaseUntil temporary) .performed) :=
    h.send hnew nofun
  have hissued : token ∈ ((SnapshotUpdate.claim id source token leaseUntil temporary).apply
      s.db.store).issued := mem_issued_claim rfl (Bool.and_eq_true_iff.1 hmatched).2
  refine ⟨hsent.core, ⟨fun k call hcall => ?_, fun other hother file k hk => ?_⟩, hsent.stamps⟩
  · by_cases hne : k = token
    · obtain ⟨store', hrun, happly⟩ := matched_some hmatched
      obtain ⟨written, hwritten, rfl⟩ := Option.map_eq_some_iff.1 hrun
      obtain ⟨before, hbefore, hfilter, rfl⟩ := updateFile_some hwritten
      obtain ⟨-, hsource, hnone⟩ := of_decide_eq_true hfilter
      rw [hne] at hcall ⊢
      have hbegun := (Function.update_self ..).symm.trans hcall
      cases hbegun
      -- the document is the one the claim has found
      have hdocument : ∀ document, ((SnapshotUpdate.claim id source token leaseUntil temporary).apply
          s.db.store).documents id = some document →
          document.source = source ∧ document.snapshot = none := by
        intro document hdocument
        rw [happly] at hdocument
        have hclaimed := (Function.update_self ..).symm.trans hdocument
        cases hclaimed
        exact ⟨hsource, hnone⟩
      exact ⟨hissued, fun document hd _ => (hdocument document hd).1,
        fun _ document hd => not_holds_none (hdocument document hd).2,
        nofun, fun he => by cases he with | inl he => cases he | inr he => cases he⟩
    · exact hsent.freezes.calls k call ((Function.update_of_ne hne _ _).symm.trans hcall)
  · obtain ⟨hk', hfree⟩ := h.freezes.published other hother file k hk
    have hne : k ≠ token := by
      rintro rfl
      exact hnew hk'
    exact ⟨mem_issued_apply hk', (Function.update_of_ne hne _ _).trans hfree⟩

theorem CopiesInv.land {index : Nat} (h : CopiesInv s) (hupdate : s.db.late[index]? = some update)
    (hfresh : update.fresh s.db.store = true) :
    CopiesInv { s with db := ⟨update.apply s.db.store, s.db.late.eraseIdx index⟩ } := by
  have hok : UpdateOk s.db.store s.disk s.now update := by
    have hplain := h.core.late update (List.mem_of_getElem? hupdate)
    cases update with
    | claim id source token leaseUntil temporary =>
      show token ∉ s.db.store.issued
      exact of_decide_eq_true hfresh
    | _ => exact hplain rfl
  exact ⟨h.core.apply hok fun _ => List.mem_of_mem_eraseIdx,
    h.freezes.land h.core.files hok hupdate, h.stamps⟩

theorem CopiesInv.drop (h : CopiesInv s) : CopiesInv (s.freezeEnds token) := by
  refine ⟨h.core, ⟨fun k call hcall => ?_, fun other hother file k hk => ?_⟩, h.stamps⟩
  · by_cases hne : k = token
    · rw [hne] at hcall
      have hnone := (Function.update_self ..).symm.trans hcall
      cases hnone
    · exact h.freezes.calls k call ((Function.update_of_ne hne _ _).symm.trans hcall)
  · obtain ⟨hissued, hfree⟩ := h.freezes.published other hother file k hk
    refine ⟨hissued, ?_⟩
    by_cases hne : k = token
    · rw [hne]
      exact Function.update_self ..
    · exact (Function.update_of_ne hne _ _).trans hfree

/-- A reader goes on to a stage that is not a pull. -/
theorem CopiesInv.setReader {reader : ReaderId} {next : Option SnapshotReader} (h : CopiesInv s)
    (hnext : ∀ r stamp, next = some r → r.stage = .pulling stamp → stamp ≤ s.now) :
    CopiesInv (s.setReader reader next) := by
  refine ⟨h.core, h.freezes, fun other r stamp hr hstage => ?_⟩
  have hr' : Function.update s.readers reader next other = some r := hr
  by_cases hne : other = reader
  · rw [hne, Function.update_self] at hr'
    exact hnext r stamp hr' hstage
  · rw [Function.update_of_ne hne] at hr'
    exact h.stamps other r stamp hr' hstage

theorem readerStep_copies {reader : ReaderId} {r : SnapshotReader} {stage : ReaderStage}
    (h : CopiesInv s) (hr : s.readers reader = some r) (hstage : r.stage = stage)
    (hstep : s.readerStep reader r o stage = some t) : CopiesStep s owner t := by
  cases stage with
  | pulling stamp =>
    cases hstep
    have hsent : CopiesInv (s.send (.pullReaders r.file stamp) o) :=
      h.send (h.stamps reader r stamp hr hstage) nofun
    refine CopiesInv.sent (hsent.setReader fun next stamp hnext hpulling => ?_) rfl rfl
    split at hnext
    all_goals cases hnext
    cases hpulling
  | acquiring stamp =>
    cases hstep
    have hsent : CopiesInv (s.send (.acquire r.file r.token reader r.parent stamp
        (stamp + readerLeaseSeconds)) o) := h.send trivial nofun
    refine CopiesInv.sent (hsent.setReader fun next stamp hnext hpulling => ?_) rfl rfl
    split at hnext
    all_goals cases hnext
    cases hpulling
  | active =>
    cases hstep
    have hsent : CopiesInv (s.send (.renewReader r.file r.token reader
        (s.now + readerLeaseSeconds)) o) := h.send trivial nofun
    refine CopiesInv.sent (hsent.setReader fun next stamp hnext hpulling => ?_) rfl rfl
    cases hnext
    split at hpulling
    all_goals cases hpulling
  | invalidated => cases hstep

theorem act_copies {act : SnapshotAct} (h : CopiesInv s) (hact : act.apply s = some t) :
    CopiesStep s (act.worksFor s) t := by
  cases act with
  | discover id version source =>
    obtain ⟨_, hguard, he⟩ := Option.bind_eq_some_iff.1 hact
    cases he
    exact (h.discover (of_guard hguard)).stays rfl rfl
  | observe id source o =>
    cases hact
    have hsent : CopiesInv (s.send (.observe id source) o) := h.send trivial nofun
    exact hsent.sent rfl rfl
  | read id =>
    obtain ⟨document, hdocument, he⟩ := Option.bind_eq_some_iff.1 hact
    cases he
    have hread : ReadOk s.db.store id document :=
      (h.core.files.documents id document hdocument).readOk hdocument
    refine CopiesInv.stays ⟨{ h.core with read := fun other copy hcopy => ?_ }, h.freezes, h.stamps⟩ rfl rfl
    obtain he | hold := List.mem_cons.1 hcopy
    · cases he
      exact hread
    · exact h.core.read other copy hold
  | readClaim token =>
    obtain ⟨claim, hclaim, he⟩ := Option.bind_eq_some_iff.1 hact
    cases he
    have hissued : claim.id ∈ s.db.store.issued := by
      rw [(claim?_some hclaim).2]
      by_contra hnot
      have hnone := (h.core.claimed token hnot).symm.trans hclaim
      cases hnone
    refine CopiesInv.stays ⟨{ h.core with claims := fun other hother => ?_ }, h.freezes, h.stamps⟩ rfl rfl
    obtain rfl | hold := List.mem_cons.1 hother
    · exact hissued
    · exact h.core.claims other hold
  | claim index token o =>
    obtain ⟨⟨id, document⟩, -, h₁⟩ := Option.bind_eq_some_iff.1 hact
    obtain ⟨_, -, h₂⟩ := Option.bind_eq_some_iff.1 h₁
    obtain ⟨_, hguard, he⟩ := Option.bind_eq_some_iff.1 h₂
    have hnew : token ∉ s.db.store.issued := of_guard hguard
    cases he
    split
    next hmatched => exact (h.claim hnew hmatched).sent rfl rfl
    next =>
      have hsent : CopiesInv (s.send (.claim id document.source token (s.now + freezeLeaseSeconds)
          ⟨id, document.version, token, false⟩) o) := h.send hnew nofun
      exact hsent.sent rfl rfl
  | freeze token event =>
    obtain ⟨call, hcall, hstep⟩ := Option.bind_eq_some_iff.1 hact
    exact freezeStep_copies h hcall rfl hstep
  | expireFreeze index stamp o =>
    obtain ⟨⟨id, document⟩, -, h₁⟩ := Option.bind_eq_some_iff.1 hact
    obtain ⟨_, -, h₂⟩ := Option.bind_eq_some_iff.1 h₁
    obtain ⟨token, -, h₃⟩ := Option.bind_eq_some_iff.1 h₂
    obtain ⟨leaseUntil, -, h₄⟩ := Option.bind_eq_some_iff.1 h₃
    obtain ⟨_, -, he⟩ := Option.bind_eq_some_iff.1 h₄
    cases he
    refine h.begins trivial nofun fun hmatched task htask => ?_
    obtain rfl := List.mem_singleton.1 htask
    exact expireFreeze_dead h hmatched
  | checkClaim index stamp =>
    obtain ⟨claim, -, h₁⟩ := Option.bind_eq_some_iff.1 hact
    obtain ⟨_, -, h₂⟩ := Option.bind_eq_some_iff.1 h₁
    obtain ⟨_, -, h₃⟩ := Option.bind_eq_some_iff.1 h₂
    obtain ⟨document, -, h₄⟩ := Option.bind_eq_some_iff.1 h₃
    obtain ⟨_, -, he⟩ := Option.bind_eq_some_iff.1 h₄
    cases he
    have hok : TaskOk s.db.store (.confirmPublished claim.id) := trivial
    exact (h.addTask hok).stays rfl rfl
  | checkRetention index stamp =>
    obtain ⟨⟨id, document⟩, -, h₁⟩ := Option.bind_eq_some_iff.1 hact
    obtain ⟨_, -, h₂⟩ := Option.bind_eq_some_iff.1 h₁
    obtain ⟨snapshot, -, h₃⟩ := Option.bind_eq_some_iff.1 h₂
    obtain ⟨_, -, h₄⟩ := Option.bind_eq_some_iff.1 h₃
    obtain ⟨claim, -, h₅⟩ := Option.bind_eq_some_iff.1 h₄
    obtain ⟨_, -, he⟩ := Option.bind_eq_some_iff.1 h₅
    cases he
    have hok : TaskOk s.db.store (.retire id snapshot.reservationToken) := trivial
    exact (h.addTask hok).stays rfl rfl
  | pull id stamp o =>
    obtain ⟨_, hguard, he⟩ := Option.bind_eq_some_iff.1 hact
    cases he
    have hstamp : stamp ≤ s.now := of_guard hguard
    have hsent : CopiesInv (s.send (.pullReaders id stamp) o) := h.send hstamp nofun
    exact hsent.sent rfl rfl
  | finish index stamp o =>
    obtain ⟨⟨id, document⟩, hread, h₁⟩ := Option.bind_eq_some_iff.1 hact
    obtain ⟨_, hguard, h₂⟩ := Option.bind_eq_some_iff.1 h₁
    obtain ⟨snapshot, hsnapshot, h₃⟩ := Option.bind_eq_some_iff.1 h₂
    obtain ⟨token, -, h₄⟩ := Option.bind_eq_some_iff.1 h₃
    obtain ⟨_, hsame, h₅⟩ := Option.bind_eq_some_iff.1 h₄
    obtain ⟨hfile, hdead⟩ := h.core.read id document (List.mem_of_getElem? hread) snapshot hsnapshot
    split at h₅
    next =>
      obtain ⟨_, -, he⟩ := Option.bind_eq_some_iff.1 h₅
      cases he
      have hstamp : stamp ≤ s.now := of_guard hguard
      exact h.begins hstamp nofun fun hmatched =>
        deletion_ok hfile (startDelete_dead h hmatched)
    next hstatus =>
      cases h₅
      have htoken : snapshot.reservationToken = token := of_guard hsame
      exact (h.addTasks (deletion_ok hfile (htoken ▸ hdead hstatus))).stays rfl rfl
    next => cases h₅
  | checkOrphan index stamp =>
    obtain ⟨claim, hread, h₁⟩ := Option.bind_eq_some_iff.1 hact
    obtain ⟨_, -, h₂⟩ := Option.bind_eq_some_iff.1 h₁
    obtain ⟨_, -, h₃⟩ := Option.bind_eq_some_iff.1 h₂
    obtain ⟨_, hguard, he⟩ := Option.bind_eq_some_iff.1 h₃
    cases he
    have hissued : claim.id ∈ s.db.store.issued :=
      h.core.claims claim (List.mem_of_getElem? hread)
    have hok : TaskOk s.db.store (.reclaim claim) :=
      not_referenced_dead h hissued (of_guard hguard) claim.fileId
    exact (h.addTask hok).stays rfl rfl
  | task index event =>
    obtain ⟨task, htask, hstep⟩ := Option.bind_eq_some_iff.1 hact
    have howner : SnapshotAct.worksFor s (.task index event) = some task.token :=
      congrArg (Option.map SnapshotTask.token) htask
    rw [howner]
    exact taskStep_copies h (List.mem_of_getElem? htask) hstep
  | openReader reader index parent =>
    obtain ⟨⟨id, document⟩, -, h₁⟩ := Option.bind_eq_some_iff.1 hact
    obtain ⟨snapshot, -, h₂⟩ := Option.bind_eq_some_iff.1 h₁
    obtain ⟨_, -, he⟩ := Option.bind_eq_some_iff.1 h₂
    cases he
    refine CopiesInv.stays ⟨h.core, h.freezes, ?_⟩ rfl rfl
    refine (h.setReader fun r stamp hnext hpulling => ?_).stamps
    cases hnext
    cases hpulling
    exact Nat.le_refl _
  | stepReader reader o =>
    obtain ⟨r, hr, hstep⟩ := Option.bind_eq_some_iff.1 hact
    exact readerStep_copies h hr rfl hstep
  | closeReader reader o =>
    obtain ⟨r, -, he⟩ := Option.bind_eq_some_iff.1 hact
    cases he
    have hsent : CopiesInv (s.send (.closeReader r.file r.token reader) o) := h.send trivial nofun
    exact (hsent.setReader fun _ _ hnext _ => by cases hnext).sent rfl rfl
  | land index =>
    obtain ⟨update, hupdate, h₁⟩ := Option.bind_eq_some_iff.1 hact
    obtain ⟨_, hguard, h₂⟩ := Option.bind_eq_some_iff.1 h₁
    obtain ⟨db, hland, he⟩ := Option.bind_eq_some_iff.1 h₂
    cases he
    obtain ⟨update', hupdate', rfl⟩ := InFlight.land_eq_some.1 hland
    obtain rfl := Option.some.inj (hupdate.symm.trans hupdate')
    exact ⟨h.land hupdate (of_guard hguard), diskOk_refl, grantsOk_apply⟩
  | drop token =>
    cases hact
    exact h.drop.stays rfl rfl
  | crash =>
    cases hact
    exact CopiesInv.stays ⟨{ h.core with tasks := nofun }, ⟨nofun, fun other hother id k hk =>
      ⟨(h.freezes.published other hother id k hk).1, rfl⟩⟩, nofun⟩ rfl rfl
  | tick seconds =>
    cases hact
    exact (h.tick seconds).stays rfl rfl

/-! ## The run -/

theorem CopiesInv.initial (h : SnapshotStart s) : CopiesInv s := by
  have hdocuments : s.db.store.documents = fun _ => none := h.documents
  have hclaims : s.db.store.claims = [] := h.claims
  have hgrants : s.db.store.grants = fun _ => none := h.grants
  refine ⟨⟨⟨?_, ?_, ?_⟩, ?_, ?_, ?_, ?_, ?_, ?_⟩, ⟨?_, ?_⟩, ?_⟩
  · rw [hdocuments]
    intro id document hdocument
    cases hdocument
  · rw [hgrants]
    intro token grant hgrant
    cases hgrant
  · rw [hdocuments]
    intro id document hdocument
    cases hdocument
  · rw [hdocuments]
    intro id document hdocument
    cases hdocument
  · rw [h.late]
    intro write hwrite
    cases hwrite
  · rw [h.tasks]
    intro task hrun
    cases hrun
  · rw [h.files]
    intro id document hread
    cases hread
  · rw [h.claimsRead]
    intro claim hclaim
    cases hclaim
  · intro k _
    unfold SnapshotStore.claim?
    rw [hclaims]
    rfl
  · rw [h.freezes]
    intro token freeze hfreeze
    cases hfreeze
  · rw [h.late]
    intro write hwrite
    cases hwrite
  · unfold StampsOk
    rw [h.readers]
    intro id reader stamp hreader
    cases hreader

theorem copiesInv (h : ReachableSnapshots s) : CopiesInv s :=
  Reachable.invariant (fun _ => CopiesInv.initial)
    (fun _ _ hst hinv => by
      obtain ⟨act, hact⟩ := hst
      exact (act_copies hinv hact).inv) h

/-- A file that can be read has its copy. -/
theorem CopiesInv.copy_there (h : CopiesInv s) (hdocument : s.store.documents id = some document)
    (hstatus : document.status = .frozen ∨ document.status = .retiring) :
    ∃ snapshot, document.snapshot = some snapshot ∧ PathOk id snapshot ∧
      s.disk snapshot.path = true := by
  obtain ⟨-, snapshot, hsnapshot, hpath, -, -, hthere⟩ :=
    (h.core.files.documents id document hdocument).of_copied (hstatus.imp_right .inl)
  refine ⟨snapshot, hsnapshot, hpath, hthere fun hdeleting => ?_⟩
  rw [hdeleting] at hstatus
  simp at hstatus

/-- In every state a file that is frozen or retires has the final copy of its token on the
disk; a lease that has not expired, and what a reader has been granted until then, is on
such a file. A step grants on such files only. What it removes from the disk belongs to the
token of the procedure; a final copy that it removes is of no file that can be read, and
whatever has been granted on it has expired. -/
theorem snapshot_copies_safe (h : ReachableSnapshots s) :
    (∀ id document, s.store.documents id = some document →
      document.status = .frozen ∨ document.status = .retiring →
      ∃ snapshot, document.snapshot = some snapshot ∧ PathOk id snapshot ∧
        s.disk snapshot.path = true) ∧
    (∀ id document lease, s.store.documents id = some document →
      lease ∈ document.snapshotReaders → s.now < lease.expiresAt →
      document.status = .frozen ∨ document.status = .retiring) ∧
    (∀ reader grant, s.store.grants reader = some grant → s.now < grant.expiresAt →
      ∃ document, s.store.documents grant.file = some document ∧
        document.holds grant.token = true ∧
        (document.status = .frozen ∨ document.status = .retiring)) ∧
    ∀ act t, SnapshotAct.apply act s = some t →
      (∀ reader grant, t.store.grants reader = some grant → s.store.grants reader ≠ some grant →
        ∃ document, s.store.documents grant.file = some document ∧
          document.holds grant.token = true ∧
          (document.status = .frozen ∨ document.status = .retiring)) ∧
      ∀ path, s.disk path = true → t.disk path = false →
        act.worksFor s = some path.token ∧ (path.final = true →
          (∀ document, s.store.documents path.file = some document →
            document.holds path.token = true → document.status = .deleting) ∧
          ∀ reader grant, s.store.grants reader = some grant → grant.file = path.file →
            grant.token = path.token → grant.expiresAt ≤ s.now) := by
  have hinv := copiesInv h
  have hgranted : ∀ reader grant, s.store.grants reader = some grant → s.now < grant.expiresAt →
      ∃ document, s.store.documents grant.file = some document ∧
        document.holds grant.token = true ∧
        (document.status = .frozen ∨ document.status = .retiring) := by
    intro reader grant hgrant hlt
    obtain ⟨document, hdocument, hleased⟩ := hinv.core.files.grants reader grant hgrant hlt
    exact ⟨document, hdocument, hleased.holds, hleased.status⟩
  refine ⟨fun id document => hinv.copy_there, fun id document lease hdocument =>
    hinv.core.files.leases id document hdocument lease, hgranted, fun act t hact => ⟨?_, ?_⟩⟩
  · intro reader grant hgrant hnew
    obtain hold | hnow := (act_copies hinv hact).granted reader grant hgrant
    · exact absurd hold hnew
    · exact hnow
  · intro path hpath hgone
    obtain hkept | ⟨howner, hdead⟩ := (act_copies hinv hact).removed path hpath
    · rw [hgone] at hkept
      cases hkept
    refine ⟨howner, fun hfinal => ?_⟩
    have hdeleting : ∀ document, s.store.documents path.file = some document →
        document.holds path.token = true → document.status = .deleting :=
      fun document hdocument => ((hdead hfinal).2 document hdocument).2
    refine ⟨hdeleting, fun reader grant hgrant hfile htoken => ?_⟩
    by_contra hlt
    obtain ⟨document, hdocument, hholds, hstatus⟩ := hgranted reader grant hgrant (not_le.1 hlt)
    rw [hfile] at hdocument
    rw [htoken] at hholds
    rw [hdeleting document hdocument hholds] at hstatus
    simp at hstatus

/-- A snapshot that somebody reads. -/
def readSnapshot : SnapshotState :=
  (runActs SnapshotAct.apply (publishActs ++ [.read 0, .openReader 3 0 none,
    .stepReader 3 .performed, .stepReader 3 .performed]) newSnapshots).getD newSnapshots

/-- The copy of the token 5 is there, and the reader may read it until 90. -/
theorem snapshot_copies_safe_read : ∃ s document, ReachableSnapshots s ∧
    s.store.grants 3 = some ⟨0, 5, 90⟩ ∧ s.store.documents 0 = some document ∧
    document.holds 5 = true ∧ ∃ snapshot, document.snapshot = some snapshot ∧
      PathOk 0 snapshot ∧ s.disk snapshot.path = true := by
  have hpossible : (runActs SnapshotAct.apply (publishActs ++ [.read 0, .openReader 3 0 none,
      .stepReader 3 .performed, .stepReader 3 .performed]) newSnapshots).isSome = true := by
    decide +kernel
  have hreached : ReachableSnapshots readSnapshot :=
    ⟨newSnapshots, newSnapshots_start, runActs_steps (eq_some_getD hpossible newSnapshots)⟩
  have hgrant : readSnapshot.store.grants 3 = some ⟨0, 5, 90⟩ := by decide +kernel
  obtain ⟨hthere, -, hgranted, -⟩ := snapshot_copies_safe hreached
  have hnow : readSnapshot.now < 90 := by decide +kernel
  obtain ⟨document, hdocument, hholds, hstatus⟩ := hgranted 3 ⟨0, 5, 90⟩ hgrant hnow
  exact ⟨readSnapshot, document, hreached, hgrant, hdocument, hholds,
    hthere 0 document hdocument hstatus⟩

end CameraLogs.Coredumps
