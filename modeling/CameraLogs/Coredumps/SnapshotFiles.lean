import CameraLogs.Coredumps.SnapshotLedger

/-!
# What an update does to a file

The document of a file is in one of three shapes: nothing is there, a token has claimed it,
or it has a copy under a token (`DocumentOk`). `FileMoved` is what each update keeps of it:
the token of a freeze is never taken over, a token holds the file only after it has claimed
it, a deletion is not undone, and a lease that has not expired keeps the file readable.

A token that neither claims nor holds the file, unless the file is being deleted, is `Dead`
for it, and stays so: every token claims a file once.
-/

namespace CameraLogs.Coredumps

open CameraLogs.Lib

variable {store store' : SnapshotStore} {update : SnapshotUpdate} {disk : CopyPath → Bool}
  {now : Nat} {id : FileId} {token k : Token} {document before after : FileDocument}
  {snapshot : FileSnapshot} {reader : ReaderId} {grant : ReaderGrant}

/-- The path of a snapshot is `_final` of its file and its token. -/
structure PathOk (id : FileId) (snapshot : FileSnapshot) : Prop where
  file : snapshot.path.file = id
  token : snapshot.path.token = snapshot.reservationToken
  final : snapshot.path.final = true

inductive DocumentOk (issued : List Token) (disk : CopyPath → Bool) (id : FileId)
    (document : FileDocument) : Prop
  | receiving (hstatus : document.status = .receiving) (hfreeze : document.freezeToken = none)
      (hsnapshot : document.snapshot = none)
  | freezing (token : Token) (hstatus : document.status = .freezing)
      (hfreeze : document.freezeToken = some token) (hissued : token ∈ issued)
      (hsnapshot : document.snapshot = none)
  | copied (snapshot : FileSnapshot)
      (hstatus : document.status = .frozen ∨ document.status = .retiring ∨
        document.status = .deleting)
      (hfreeze : document.freezeToken = none) (hsnapshot : document.snapshot = some snapshot)
      (hpath : PathOk id snapshot) (hissued : snapshot.reservationToken ∈ issued)
      (hretire : document.status ≠ .frozen →
        document.retireToken = some snapshot.reservationToken)
      (hthere : document.status ≠ .deleting → disk snapshot.path = true)

/-- The file can be read under the grant. -/
structure Leased (document : FileDocument) (reader : ReaderId) (grant : ReaderGrant) : Prop where
  status : document.status = .frozen ∨ document.status = .retiring
  holds : document.holds grant.token = true
  lease : ∃ lease ∈ document.snapshotReaders, lease.id = reader ∧ lease.expiresAt = grant.expiresAt

/-- A lease that has not expired is on a file that can be read. -/
def LeasesOk (now : Nat) (document : FileDocument) : Prop :=
  ∀ lease ∈ document.snapshotReaders, now < lease.expiresAt →
    document.status = .frozen ∨ document.status = .retiring

/-- The token will not be published for the file any more. -/
def Dead (store : SnapshotStore) (id : FileId) (token : Token) : Prop :=
  token ∈ store.issued ∧ ∀ document, store.documents id = some document →
    document.freezeToken ≠ some token ∧ (document.holds token = true → document.status = .deleting)

/-- What holds of an update when it is applied. -/
def UpdateOk (store : SnapshotStore) (disk : CopyPath → Bool) (now : Nat) : SnapshotUpdate → Prop
  | .claim _ _ token _ _ => token ∉ store.issued
  | .publish id token _ snapshot => token ∈ store.issued ∧ PathOk id snapshot ∧
    snapshot.reservationToken = token ∧ ∀ document, store.documents id = some document →
      document.freezeToken = some token → disk snapshot.path = true
  | .startDelete _ _ stamp | .pullReaders _ stamp => stamp ≤ now
  | .reserve token _ _ _ _ => token ∈ store.issued
  | _ => True

/-- The update publishes the token for the file. -/
def SnapshotUpdate.publishes (id : FileId) (token : Token) : SnapshotUpdate → Prop
  | .publish id' token' _ _ => id' = id ∧ token' = token
  | _ => False

/-- The reader whose grant an update changes. -/
def SnapshotUpdate.grants : SnapshotUpdate → Option ReaderId
  | .acquire _ _ reader _ _ _ | .renewReader _ _ reader _ | .closeReader _ _ reader => some reader
  | _ => none

/-- What an update keeps of the file it changes. -/
structure FileMoved (store store' : SnapshotStore) (update : SnapshotUpdate)
    (disk : CopyPath → Bool) (now : Nat) (id : FileId) (before after : FileDocument) : Prop where
  ok : DocumentOk store'.issued disk id after
  freeze : ∀ k ∈ store.issued, after.freezeToken = some k →
    before.freezeToken = some k ∧ after.source = before.source
  holds : ∀ k, after.holds k = true → before.holds k = true ∨
    (update.publishes id k ∧ before.freezeToken = some k)
  deleting : ∀ k, before.holds k = true → before.status = .deleting → after.holds k = true →
    after.status = .deleting
  leased : ∀ reader grant, update.grants ≠ some reader → now < grant.expiresAt →
    Leased before reader grant → Leased after reader grant
  leases : LeasesOk now before → LeasesOk now after

theorem holds_some (hsnapshot : document.snapshot = some snapshot) :
    document.holds k = true ↔ snapshot.reservationToken = k := by
  unfold FileDocument.holds
  rw [hsnapshot, Option.any_some, decide_eq_true_eq]

theorem not_holds_none (hsnapshot : document.snapshot = none) : document.holds k = false := by
  unfold FileDocument.holds
  rw [hsnapshot, Option.any_none]

/-- A file without a copy is not read. -/
theorem Leased.copied (h : Leased document reader grant) (hsnapshot : document.snapshot = none) :
    False := by
  have hholds := h.holds
  rw [not_holds_none hsnapshot] at hholds
  cases hholds

/-- A file that cannot be read has no lease that has not expired. -/
theorem LeasesOk.unread (h : LeasesOk now before)
    (hreaders : after.snapshotReaders = before.snapshotReaders)
    (hstatus : ¬(before.status = .frozen ∨ before.status = .retiring)) : LeasesOk now after := by
  intro lease hlease hlt
  rw [hreaders] at hlease
  exact absurd (h lease hlease hlt) hstatus

section Shapes

variable {issued : List Token}

theorem DocumentOk.of_receiving (h : DocumentOk issued disk id document)
    (hstatus : document.status = .receiving) :
    document.freezeToken = none ∧ document.snapshot = none := by
  cases h with
  | receiving _ hfreeze hsnapshot => exact ⟨hfreeze, hsnapshot⟩
  | freezing _ hs _ _ _ =>
    rw [hstatus] at hs
    cases hs
  | copied _ hs _ _ _ _ _ _ =>
    rw [hstatus] at hs
    simp at hs

theorem DocumentOk.of_freezing (h : DocumentOk issued disk id document)
    (hstatus : document.status = .freezing) :
    document.snapshot = none ∧ ∃ token ∈ issued, document.freezeToken = some token := by
  cases h with
  | receiving hs _ _ =>
    rw [hstatus] at hs
    cases hs
  | freezing token _ hfreeze hissued hsnapshot => exact ⟨hsnapshot, token, hissued, hfreeze⟩
  | copied _ hs _ _ _ _ _ _ =>
    rw [hstatus] at hs
    simp at hs

theorem DocumentOk.of_copied (h : DocumentOk issued disk id document)
    (hstatus : document.status = .frozen ∨ document.status = .retiring ∨
      document.status = .deleting) :
    document.freezeToken = none ∧ ∃ snapshot, document.snapshot = some snapshot ∧
      PathOk id snapshot ∧ snapshot.reservationToken ∈ issued ∧
      (document.status ≠ .frozen → document.retireToken = some snapshot.reservationToken) ∧
      (document.status ≠ .deleting → disk snapshot.path = true) := by
  cases h with
  | receiving hs _ _ =>
    rw [hs] at hstatus
    simp at hstatus
  | freezing _ hs _ _ _ =>
    rw [hs] at hstatus
    simp at hstatus
  | copied snapshot _ hfreeze hsnapshot hpath hissued hretire hthere =>
    exact ⟨hfreeze, snapshot, hsnapshot, hpath, hissued, hretire, hthere⟩

/-- Only a freeze claims a file. -/
theorem DocumentOk.claimed (h : DocumentOk issued disk id document)
    (hfreeze : document.freezeToken = some k) : document.status = .freezing ∧ k ∈ issued := by
  cases h with
  | receiving _ hnone _ =>
    rw [hfreeze] at hnone
    cases hnone
  | freezing token hs hsome hissued _ =>
    rw [hfreeze] at hsome
    cases hsome
    exact ⟨hs, hissued⟩
  | copied _ _ hnone _ _ _ _ _ =>
    rw [hfreeze] at hnone
    cases hnone

end Shapes

theorem admits_status {parent : Option ReaderId} {stamp : Nat}
    (h : document.admits parent stamp = true) :
    document.status = .frozen ∨ document.status = .retiring := by
  unfold FileDocument.admits at h
  obtain hfrozen | hretiring := Bool.or_eq_true_iff.1 h
  · exact .inl (of_decide_eq_true hfrozen)
  · obtain ⟨other, -, hother⟩ := (Option.any_eq_true _ _).1 hretiring
    exact .inr (of_decide_eq_true (Bool.and_eq_true_iff.1 hother).1)

/-- A change that only the readers' leases see. -/
theorem fileMoved_readers {readers : List ReaderLease} (hissued : store'.issued = store.issued)
    (hok : DocumentOk store.issued disk id before)
    (hleased : ∀ (reader : ReaderId) (grant : ReaderGrant), update.grants ≠ some reader →
      now < grant.expiresAt → (∃ lease ∈ before.snapshotReaders,
        lease.id = reader ∧ lease.expiresAt = grant.expiresAt) →
      ∃ lease ∈ readers, lease.id = reader ∧ lease.expiresAt = grant.expiresAt)
    (hnew : (before.status = .frozen ∨ before.status = .retiring) ∨
      ∀ lease ∈ readers, lease ∈ before.snapshotReaders) :
    FileMoved store store' update disk now id before { before with snapshotReaders := readers } where
  ok := by
    rw [hissued]
    cases hok with
    | receiving hstatus hfreeze hsnapshot => exact .receiving hstatus hfreeze hsnapshot
    | freezing token hstatus hfreeze hi hsnapshot => exact .freezing token hstatus hfreeze hi hsnapshot
    | copied snapshot hstatus hfreeze hsnapshot hpath hi hretire hthere =>
      exact .copied snapshot hstatus hfreeze hsnapshot hpath hi hretire hthere
  freeze := fun _ _ hk => ⟨hk, rfl⟩
  holds := fun _ hk => .inl hk
  deleting := fun _ _ hstatus _ => hstatus
  leased := fun reader grant hne hlt h =>
    ⟨h.status, h.holds, hleased reader grant hne hlt h.lease⟩
  leases := by
    intro hleases lease hlease hlt
    obtain hread | hold := hnew
    · exact hread
    · exact hleases lease (hold lease hlease) hlt

theorem mem_setLease {expiresAt : Nat} {lease : ReaderLease} {leases : List ReaderLease}
    (h : lease ∈ leases) (hne : lease.id ≠ reader) :
    lease ∈ FileDocument.setLease reader expiresAt leases := by
  induction leases with
  | nil => cases h
  | cons other rest ih =>
    unfold FileDocument.setLease
    obtain rfl | hrest := List.mem_cons.1 h
    · rw [if_neg hne]
      exact List.mem_cons_self
    · split
      · exact List.mem_cons_of_mem _ hrest
      · exact List.mem_cons_of_mem _ (ih hrest)

theorem setLease_mem {expiresAt : Nat} {leases : List ReaderLease}
    (h : (leases.any fun lease => lease.id = reader) = true) :
    ∃ lease ∈ FileDocument.setLease reader expiresAt leases,
      lease.id = reader ∧ lease.expiresAt = expiresAt := by
  induction leases with
  | nil => cases h
  | cons other rest ih =>
    unfold FileDocument.setLease
    split
    next hid => exact ⟨_, List.mem_cons_self, hid, rfl⟩
    next hid =>
      rw [List.any_cons, decide_eq_false hid, Bool.false_or] at h
      obtain ⟨lease, hlease, hrest⟩ := ih h
      exact ⟨lease, List.mem_cons_of_mem _ hlease, hrest⟩

/-- A freeze that gives its file back. -/
theorem fileMoved_unfreeze (hok : DocumentOk store.issued disk id before) (hstatus : before.status = .freezing) :
    FileMoved store store' update disk now id before
      { before.unfreeze with status := .receiving } where
  ok := .receiving rfl rfl (hok.of_freezing hstatus).1
  freeze := fun _ _ hk => by cases hk
  holds := fun _ hk => .inl hk
  deleting := fun _ _ hs _ => by rw [hstatus] at hs; cases hs
  leased := fun _ _ _ _ h => (h.copied (hok.of_freezing hstatus).1).elim
  leases := fun hleases => hleases.unread rfl (by rw [hstatus]; simp)

theorem run_moved (hok : UpdateOk store disk now update) (honClaim : update.onClaim = false)
    (hdocuments : ∀ id document, store.documents id = some document →
      DocumentOk store.issued disk id document)
    (hrun : update.run store = some store') :
    ∃ id before after, store.documents id = some before ∧
      store'.documents = Function.update store.documents id (some after) ∧
      FileMoved store store' update disk now id before after := by
  cases update with
  | observe id source =>
    obtain ⟨before, hbefore, hfilter, rfl⟩ := updateFile_some hrun
    obtain ⟨hstatus, hsnapshot⟩ := of_decide_eq_true hfilter
    have hfree : before.freezeToken = none := ((hdocuments id before hbefore).of_receiving hstatus).1
    refine ⟨id, before, _, hbefore, rfl, .receiving hstatus hfree hsnapshot, fun k _ hk => ?_,
      fun _ hk => .inl hk, fun _ _ hs _ => hs, fun _ _ _ _ h => (h.copied hsnapshot).elim,
      fun hleases => hleases⟩
    have hsome : before.freezeToken = some k := hk
    rw [hfree] at hsome
    cases hsome
  | claim id source token leaseUntil temporary =>
    obtain ⟨written, hwritten, rfl⟩ := Option.map_eq_some_iff.1 hrun
    obtain ⟨before, hbefore, hfilter, rfl⟩ := updateFile_some hwritten
    obtain ⟨hstatus, -, hsnapshot⟩ := of_decide_eq_true hfilter
    refine ⟨id, before, _, hbefore, rfl, .freezing token rfl rfl List.mem_cons_self hsnapshot,
      fun k hissued hk => ?_, fun _ hk => .inl hk, fun k hk _ _ => ?_,
      fun _ _ _ _ h => (h.copied hsnapshot).elim,
      fun hleases => hleases.unread rfl (by rw [hstatus]; simp)⟩
    · -- the token is new
      have hnew : token ∉ store.issued := hok
      cases hk
      exact absurd hissued hnew
    · rw [not_holds_none hsnapshot] at hk
      cases hk
  | renewFreeze id token leaseUntil =>
    obtain ⟨before, hbefore, hfilter, rfl⟩ := updateFile_some hrun
    obtain ⟨hstatus, hfreeze⟩ := of_decide_eq_true hfilter
    obtain ⟨hsnapshot, token', hissued, hfreeze'⟩ :=
      (hdocuments id before hbefore).of_freezing hstatus
    exact ⟨id, before, _, hbefore, rfl, .freezing token' hstatus hfreeze' hissued hsnapshot,
      fun _ _ hk => ⟨hk, rfl⟩, fun _ hk => .inl hk, fun _ _ hs _ => hs,
      fun _ _ _ _ h => (h.copied hsnapshot).elim, fun hleases => hleases⟩
  | unclaim id token =>
    obtain ⟨before, hbefore, hfilter, rfl⟩ := updateFile_some hrun
    obtain ⟨hstatus, -⟩ := of_decide_eq_true hfilter
    exact ⟨id, before, _, hbefore, rfl,
      fileMoved_unfreeze (hdocuments id before hbefore) hstatus⟩
  | expireFreeze id token leaseUntil =>
    obtain ⟨before, hbefore, hfilter, rfl⟩ := updateFile_some hrun
    obtain ⟨hstatus, -⟩ := of_decide_eq_true hfilter
    exact ⟨id, before, _, hbefore, rfl,
      fileMoved_unfreeze (hdocuments id before hbefore) hstatus⟩
  | publish id token source snapshot =>
    obtain ⟨before, hbefore, hfilter, rfl⟩ := updateFile_some hrun
    obtain ⟨hstatus, hfreeze, -, hnone⟩ := of_decide_eq_true hfilter
    obtain ⟨hissued, hpath, htoken, hthere⟩ := hok
    refine ⟨id, before, _, hbefore, rfl, .copied snapshot (.inl rfl) rfl rfl hpath
      (htoken.symm ▸ hissued) (fun hne => absurd rfl hne) (fun _ => hthere before hbefore hfreeze),
      (fun _ _ hk => by cases hk), fun k hk => ?_, fun _ _ hs _ => ?_,
      fun _ _ _ _ h => (h.copied hnone).elim, fun _ _ _ _ => .inl rfl⟩
    · have hkt : token = k := htoken.symm.trans ((holds_some rfl).1 hk)
      exact .inr ⟨⟨rfl, hkt⟩, hkt ▸ hfreeze⟩
    · rw [hstatus] at hs
      cases hs
  | retire id token =>
    obtain ⟨before, hbefore, hfilter, rfl⟩ := updateFile_some hrun
    obtain ⟨hstatus, hholds⟩ := of_decide_eq_true hfilter
    obtain ⟨hfree, snapshot, hsnapshot, hpath, hissued, -, hthere⟩ :=
      (hdocuments id before hbefore).of_copied (.inl hstatus)
    have htoken : snapshot.reservationToken = token := (holds_some hsnapshot).1 hholds
    refine ⟨id, before, _, hbefore, rfl, .copied snapshot (.inr (.inl rfl)) hfree hsnapshot hpath
      hissued (fun _ => congrArg some htoken.symm) (fun _ => hthere (by rw [hstatus]; simp)),
      fun k _ hk => ?_, fun _ hk => .inl hk, fun _ _ hs _ => ?_,
      fun reader grant _ _ h => ⟨.inr rfl, h.holds, h.lease⟩, fun _ _ _ _ => .inr rfl⟩
    · have hsome : before.freezeToken = some k := hk
      rw [hfree] at hsome
      cases hsome
    · rw [hstatus] at hs
      cases hs
  | startDelete id token stamp =>
    obtain ⟨before, hbefore, hfilter, rfl⟩ := updateFile_some hrun
    obtain ⟨hstatus, hretire, hunread⟩ := of_decide_eq_true hfilter
    obtain ⟨hfree, snapshot, hsnapshot, hpath, hissued, hretired, -⟩ :=
      (hdocuments id before hbefore).of_copied (.inr (.inl hstatus))
    -- a lease that has not expired is one the filter has seen
    have hexpired : ∀ lease ∈ before.snapshotReaders, ¬now < lease.expiresAt := by
      intro lease hlease hlt
      have hstamp : stamp ≤ now := hok
      exact hunread (List.any_eq_true.2
        ⟨lease, hlease, decide_eq_true (Nat.lt_of_le_of_lt hstamp hlt)⟩)
    refine ⟨id, before, _, hbefore, rfl, .copied snapshot (.inr (.inr rfl)) hfree hsnapshot hpath
      hissued (fun _ => hretired (by rw [hstatus]; simp)) (fun hne => absurd rfl hne),
      fun k _ hk => ?_, fun _ hk => .inl hk, fun _ _ _ _ => rfl, fun reader grant _ hlt h => ?_,
      fun _ lease hlease hlt => absurd hlt (hexpired lease hlease)⟩
    · have hsome : before.freezeToken = some k := hk
      rw [hfree] at hsome
      cases hsome
    · obtain ⟨lease, hlease, -, hexpires⟩ := h.lease
      exact absurd (hexpires ▸ hlt) (hexpired lease hlease)
  | clear id token =>
    obtain ⟨before, hbefore, hfilter, rfl⟩ := updateFile_some hrun
    obtain ⟨hstatus, -⟩ := of_decide_eq_true hfilter
    obtain ⟨hfree, -⟩ := (hdocuments id before hbefore).of_copied (.inr (.inr hstatus))
    refine ⟨id, before, _, hbefore, rfl, .receiving rfl hfree rfl, fun k _ hk => ?_,
      (fun _ hk => by cases hk), (fun _ _ _ hk => by cases hk), (fun reader grant _ _ h => ?_), nofun⟩
    · have hsome : before.freezeToken = some k := hk
      rw [hfree] at hsome
      cases hsome
    · have hread := h.status
      rw [hstatus] at hread
      simp at hread
  | pullReaders id stamp =>
    obtain ⟨before, hbefore, -, rfl⟩ := updateFile_some hrun
    refine ⟨id, before, _, hbefore, rfl,
      fileMoved_readers rfl (hdocuments id before hbefore) (fun reader grant _ hlt h => ?_)
        (.inr fun _ => List.mem_of_mem_filter)⟩
    have hstamp : stamp ≤ now := hok
    obtain ⟨lease, hlease, hid, hexpires⟩ := h
    refine ⟨lease, List.mem_filter.2 ⟨hlease, decide_eq_true ?_⟩, hid, hexpires⟩
    rw [hexpires]
    exact Nat.lt_of_le_of_lt hstamp hlt
  | acquire id token reader parent stamp expiresAt =>
    obtain ⟨written, hwritten, rfl⟩ := Option.map_eq_some_iff.1 hrun
    obtain ⟨before, hbefore, hfilter, rfl⟩ := updateFile_some hwritten
    obtain ⟨-, hadmits⟩ := of_decide_eq_true hfilter
    refine ⟨id, before, _, hbefore, rfl,
      fileMoved_readers rfl (hdocuments id before hbefore) (fun reader grant _ _ h => ?_)
        (.inl (admits_status hadmits))⟩
    obtain ⟨lease, hlease, hrest⟩ := h
    exact ⟨lease, List.mem_append_left _ hlease, hrest⟩
  | renewReader id token reader expiresAt =>
    obtain ⟨written, hwritten, rfl⟩ := Option.map_eq_some_iff.1 hrun
    obtain ⟨before, hbefore, hfilter, rfl⟩ := updateFile_some hwritten
    obtain ⟨-, -, hstatus⟩ := of_decide_eq_true hfilter
    refine ⟨id, before, _, hbefore, rfl,
      fileMoved_readers rfl (hdocuments id before hbefore) (fun other grant hne _ h => ?_)
        (.inl hstatus)⟩
    obtain ⟨lease, hlease, hid, hexpires⟩ := h
    exact ⟨lease, mem_setLease hlease fun he => hne (congrArg some (he.symm.trans hid)), hid,
      hexpires⟩
  | closeReader id token reader =>
    obtain ⟨written, hwritten, rfl⟩ := Option.map_eq_some_iff.1 hrun
    obtain ⟨before, hbefore, -, rfl⟩ := updateFile_some hwritten
    refine ⟨id, before, _, hbefore, rfl,
      fileMoved_readers rfl (hdocuments id before hbefore) (fun other grant hne _ h => ?_)
        (.inr fun _ => List.mem_of_mem_filter)⟩
    obtain ⟨lease, hlease, hid, hexpires⟩ := h
    refine ⟨lease, List.mem_filter.2 ⟨hlease, decide_eq_true fun he => ?_⟩, hid, hexpires⟩
    exact hne (congrArg some (he.symm.trans hid))
  | _ => cases honClaim

/-! ## After an update -/

theorem DocumentOk.mono {issued issued' : List Token} (h : DocumentOk issued disk id document)
    (hle : ∀ k ∈ issued, k ∈ issued') : DocumentOk issued' disk id document := by
  cases h with
  | receiving hstatus hfreeze hsnapshot => exact .receiving hstatus hfreeze hsnapshot
  | freezing token hstatus hfreeze hissued hsnapshot =>
    exact .freezing token hstatus hfreeze (hle token hissued) hsnapshot
  | copied snapshot hstatus hfreeze hsnapshot hpath hissued hretire hthere =>
    exact .copied snapshot hstatus hfreeze hsnapshot hpath (hle _ hissued) hretire hthere

theorem fileMoved_refl (hok : DocumentOk store.issued disk id document)
    (hle : ∀ k ∈ store.issued, k ∈ store'.issued) :
    FileMoved store store' update disk now id document document :=
  ⟨hok.mono hle, fun _ _ hk => ⟨hk, rfl⟩, fun _ hk => .inl hk, fun _ _ hs _ => hs,
    fun _ _ _ _ h => h, fun h => h⟩

/-- An update of a claim leaves the files and the grants. -/
theorem run_files (honClaim : update.onClaim = true) (hrun : update.run store = some store') :
    store'.documents = store.documents ∧ store'.grants = store.grants := by
  cases update with
  | markPublished token expiresAt | confirmPublished token expiresAt | reclaim token =>
    obtain ⟨claim, -, -, rfl⟩ := updateClaim_some hrun
    exact ⟨rfl, rfl⟩
  | reserve token id size version expiresAt =>
    simp only [SnapshotUpdate.run, SnapshotStore.reserve] at hrun
    split at hrun
    · cases hrun
      exact ⟨rfl, rfl⟩
    split at hrun
    · cases hrun
      exact ⟨rfl, rfl⟩
    · cases hrun
  | release token =>
    obtain rfl | ⟨claim, -, -, -, rfl⟩ := release_some hrun
    · exact ⟨rfl, rfl⟩
    · exact ⟨rfl, rfl⟩
  | _ => cases honClaim

/-- The documents and the grants are as they should be. -/
structure FilesOk (store : SnapshotStore) (disk : CopyPath → Bool) (now : Nat) : Prop where
  documents : ∀ id document, store.documents id = some document →
    DocumentOk store.issued disk id document
  grants : ∀ reader grant, store.grants reader = some grant → now < grant.expiresAt →
    ∃ document, store.documents grant.file = some document ∧ Leased document reader grant
  leases : ∀ id document, store.documents id = some document → LeasesOk now document

/-- An update moves one file at most. -/
theorem FilesOk.apply_documents (h : FilesOk store disk now) (hok : UpdateOk store disk now update) :
    (update.apply store).documents = store.documents ∨
      ∃ id before after, store.documents id = some before ∧
        (update.apply store).documents = Function.update store.documents id (some after) ∧
        FileMoved store (update.apply store) update disk now id before after := by
  cases hrun : update.run store with
  | none =>
    unfold SnapshotUpdate.apply
    rw [hrun]
    exact .inl rfl
  | some written =>
    have happly : update.apply store = written := by
      unfold SnapshotUpdate.apply
      rw [hrun, Option.getD_some]
    rw [happly]
    cases honClaim : update.onClaim with
    | true => exact .inl (run_files honClaim hrun).1
    | false => exact .inr (run_moved hok honClaim h.documents hrun)

/-- Every file that was there is there, moved by the update. -/
theorem FilesOk.moves (h : FilesOk store disk now) (hok : UpdateOk store disk now update)
    (hbefore : store.documents id = some before) :
    ∃ after, (update.apply store).documents id = some after ∧
      FileMoved store (update.apply store) update disk now id before after := by
  have hrefl : FileMoved store (update.apply store) update disk now id before before :=
    fileMoved_refl (h.documents id before hbefore) fun _ => mem_issued_apply
  obtain hsame | ⟨moved, before', after, hbefore', hdocuments, hmoved⟩ := h.apply_documents hok
  · rw [hsame]
    exact ⟨before, hbefore, hrefl⟩
  rw [hdocuments]
  by_cases hne : id = moved
  · subst hne
    obtain rfl := Option.some.inj (hbefore.symm.trans hbefore')
    exact ⟨after, Function.update_self .., hmoved⟩
  · exact ⟨before, (Function.update_of_ne hne _ _).trans hbefore, hrefl⟩

/-- Every file that is there was there. -/
theorem FilesOk.moved (h : FilesOk store disk now) (hok : UpdateOk store disk now update)
    (hafter : (update.apply store).documents id = some after) :
    ∃ before, store.documents id = some before ∧
      FileMoved store (update.apply store) update disk now id before after := by
  have hthere : ∃ before, store.documents id = some before := by
    obtain hsame | ⟨moved, before', after', hbefore', hdocuments, -⟩ := h.apply_documents hok
    · exact ⟨after, hsame ▸ hafter⟩
    · by_cases hne : id = moved
      · exact ⟨before', hne ▸ hbefore'⟩
      · rw [hdocuments, Function.update_of_ne hne] at hafter
        exact ⟨after, hafter⟩
  obtain ⟨before, hbefore⟩ := hthere
  obtain ⟨after', hafter', hmoved⟩ := h.moves hok hbefore
  obtain rfl := Option.some.inj (hafter.symm.trans hafter')
  exact ⟨before, hbefore, hmoved⟩

/-- A grant an update gives is on a file that can be read, before and after. -/
def Granted (store store' : SnapshotStore) (reader : ReaderId) (grant : ReaderGrant) : Prop :=
  (∃ document, store.documents grant.file = some document ∧ document.holds grant.token = true ∧
    (document.status = .frozen ∨ document.status = .retiring)) ∧
  ∃ document, store'.documents grant.file = some document ∧ Leased document reader grant

theorem run_granted (hrun : update.run store = some store')
    (hgrant : store'.grants reader = some grant) :
    (store.grants reader = some grant ∧ update.grants ≠ some reader) ∨
      Granted store store' reader grant := by
  have hkept : ∀ other given, Function.update store.grants other given reader = some grant →
      reader ≠ other → store.grants reader = some grant := by
    intro other given hgiven hne
    rwa [Function.update_of_ne hne] at hgiven
  cases update with
  | acquire id token other parent stamp expiresAt =>
    obtain ⟨written, hwritten, rfl⟩ := Option.map_eq_some_iff.1 hrun
    obtain ⟨before, hbefore, hfilter, rfl⟩ := updateFile_some hwritten
    obtain ⟨hholds, hadmits⟩ := of_decide_eq_true hfilter
    by_cases hne : reader = other
    · subst hne
      have hgiven : Function.update store.grants reader (some ⟨id, token, expiresAt⟩) reader =
          some grant := hgrant
      rw [Function.update_self] at hgiven
      cases hgiven
      have hstatus := admits_status hadmits
      refine .inr ⟨⟨before, hbefore, hholds, hstatus⟩, _, Function.update_self .., hstatus, hholds,
        ⟨reader, expiresAt⟩, ?_, rfl, rfl⟩
      exact List.mem_append_right _ List.mem_cons_self
    · exact .inl ⟨hkept other _ hgrant hne, fun he => hne (Option.some.inj he).symm⟩
  | renewReader id token other expiresAt =>
    obtain ⟨written, hwritten, rfl⟩ := Option.map_eq_some_iff.1 hrun
    obtain ⟨before, hbefore, hfilter, rfl⟩ := updateFile_some hwritten
    obtain ⟨hholds, hentry, hstatus⟩ := of_decide_eq_true hfilter
    by_cases hne : reader = other
    · subst hne
      have hgiven : Function.update store.grants reader (some ⟨id, token, expiresAt⟩) reader =
          some grant := hgrant
      rw [Function.update_self] at hgiven
      cases hgiven
      exact .inr ⟨⟨before, hbefore, hholds, hstatus⟩, _, Function.update_self .., hstatus, hholds,
        setLease_mem hentry⟩
    · exact .inl ⟨hkept other _ hgrant hne, fun he => hne (Option.some.inj he).symm⟩
  | closeReader id token other =>
    obtain ⟨written, hwritten, rfl⟩ := Option.map_eq_some_iff.1 hrun
    obtain ⟨before, -, -, rfl⟩ := updateFile_some hwritten
    by_cases hne : reader = other
    · subst hne
      have hgiven : Function.update store.grants reader none reader = some grant := hgrant
      rw [Function.update_self] at hgiven
      cases hgiven
    · exact .inl ⟨hkept other _ hgrant hne, fun he => hne (Option.some.inj he).symm⟩
  | claim id source token leaseUntil temporary =>
    obtain ⟨written, hwritten, rfl⟩ := Option.map_eq_some_iff.1 hrun
    obtain ⟨before, -, -, rfl⟩ := updateFile_some hwritten
    exact .inl ⟨hgrant, fun he => by cases he⟩
  | observe _ _ | renewFreeze _ _ _ | unclaim _ _ | publish _ _ _ _ | expireFreeze _ _ _
  | retire _ _ | startDelete _ _ _ | clear _ _ | pullReaders _ _ =>
    obtain ⟨before, -, -, rfl⟩ := updateFile_some hrun
    exact .inl ⟨hgrant, fun he => by cases he⟩
  | markPublished _ _ | confirmPublished _ _ | reclaim _ | reserve _ _ _ _ _ | release _ =>
    rw [(run_files rfl hrun).2] at hgrant
    exact .inl ⟨hgrant, fun he => by cases he⟩

/-- A grant after an update is one from before that the update keeps, or has just been
given. -/
theorem apply_granted (hgrant : (update.apply store).grants reader = some grant) :
    (store.grants reader = some grant ∧
      (update.grants ≠ some reader ∨ (update.apply store).documents = store.documents)) ∨
      Granted store (update.apply store) reader grant := by
  cases hrun : update.run store with
  | none =>
    have happly : update.apply store = store := by
      unfold SnapshotUpdate.apply
      rw [hrun, Option.getD_none]
    rw [happly] at hgrant ⊢
    exact .inl ⟨hgrant, .inr rfl⟩
  | some written =>
    have happly : update.apply store = written := by
      unfold SnapshotUpdate.apply
      rw [hrun, Option.getD_some]
    rw [happly] at hgrant ⊢
    obtain ⟨hold, hne⟩ | hnew := run_granted hrun hgrant
    · exact .inl ⟨hold, .inl hne⟩
    · exact .inr hnew

theorem FilesOk.apply (h : FilesOk store disk now) (hok : UpdateOk store disk now update) :
    FilesOk (update.apply store) disk now where
  documents := by
    intro id after hafter
    obtain ⟨before, -, hmoved⟩ := h.moved hok hafter
    exact hmoved.ok
  grants := by
    intro reader grant hgrant hlt
    obtain ⟨hold, hkept⟩ | ⟨-, hnew⟩ := apply_granted hgrant
    · obtain ⟨before, hbefore, hleased⟩ := h.grants reader grant hold hlt
      obtain hne | hsame := hkept
      · obtain ⟨after, hafter, hmoved⟩ := h.moves hok hbefore
        exact ⟨after, hafter, hmoved.leased reader grant hne hlt hleased⟩
      · rw [hsame]
        exact ⟨before, hbefore, hleased⟩
    · exact hnew
  leases := by
    intro id after hafter
    obtain ⟨before, hbefore, hmoved⟩ := h.moved hok hafter
    exact hmoved.leases (h.leases id before hbefore)

theorem Dead.apply (hdead : Dead store id k) (h : FilesOk store disk now)
    (hok : UpdateOk store disk now update) : Dead (update.apply store) id k := by
  refine ⟨mem_issued_apply hdead.1, fun after hafter => ?_⟩
  obtain ⟨before, hbefore, hmoved⟩ := h.moved hok hafter
  obtain ⟨hfreeze, hdeleting⟩ := hdead.2 before hbefore
  refine ⟨fun hk => hfreeze (hmoved.freeze k hdead.1 hk).1, fun hk => ?_⟩
  obtain hheld | ⟨-, hclaimed⟩ := hmoved.holds k hk
  · exact hmoved.deleting k hheld (hdeleting hheld) hk
  · exact absurd hclaimed hfreeze

/-- What is known of an update that is on its way stays known. -/
theorem UpdateOk.apply {other : SnapshotUpdate} (hother : UpdateOk store disk now other)
    (h : FilesOk store disk now) (hok : UpdateOk store disk now update)
    (hplain : other.claims = none) : UpdateOk (update.apply store) disk now other := by
  cases other with
  | claim id source token leaseUntil temporary => cases hplain
  | publish id token source snapshot =>
    obtain ⟨hissued, hpath, htoken, hthere⟩ := hother
    refine ⟨mem_issued_apply hissued, hpath, htoken, fun after hafter hclaimed => ?_⟩
    obtain ⟨before, hbefore, hmoved⟩ := h.moved hok hafter
    exact hthere before hbefore (hmoved.freeze token hissued hclaimed).1
  | startDelete id token stamp => exact hother
  | pullReaders id stamp => exact hother
  | reserve token id size version expiresAt => exact mem_issued_apply hother
  | _ => trivial

end CameraLogs.Coredumps
