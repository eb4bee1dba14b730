import CameraLogs.Lib.InFlight
import CameraLogs.Lib.Run
import CameraLogs.Logs.Catalog

/-!
# The life of a catalog document

Four components write the document of a segment. The runtime that collects it publishes how
many bytes are written, and that it is archived once it is; both go through one dirty entry
that is retried until it has been written. The maintenance of the node registers the members
of an archive it finds, by what it has read of the catalog before. Retention claims a file
and deletes its document with its group. An update whose outcome is unknown to its sender
may be applied later, or never.

In order, a document goes from `OPEN` to `READY` to `DELETING` and its bytes do not go down.
Three updates can break this, when they come late enough: the runtime's `READY`, whose
filter is the `id` alone; any upsert that finds the document already deleted; and a live
watermark that is applied after a newer one. `Timely` says that none of them does.
-/

namespace CameraLogs.Logs

open CameraLogs.Lib
open Relation (ReflTransGen)

/-- The catalog, and a memory of the files that retention has claimed. -/
structure CatalogStore where
  files : Catalog
  claimed : CatalogId → Bool

inductive CatalogUpdate
  | publish (entry : CatalogEntry)
  | register (entry : CatalogEntry) (upsert : Bool)
  | claim (id : CatalogId) (now : Nat)
  | delete (path : String)
  | protect (id : CatalogId) (executionExpires : Nat)
  deriving DecidableEq

def CatalogUpdate.apply : CatalogUpdate → CatalogStore → CatalogStore
  | .publish entry, store => { store with files := publishEntry store.files entry }
  | .register entry upsert, store => { store with files := registerEntry store.files entry upsert }
  | .claim id now, store =>
    { files := claimFile store.files id now
      claimed := Function.update store.claimed id
        (store.claimed id || (store.files.find id).any (claimable now)) }
  | .delete path, store => { store with files := deleteGroup store.files path }
  | .protect id executionExpires, store =>
    { store with files := protectFile store.files id executionExpires }

/-- What a runtime remembers of one segment: `paths`, `catalog_dirty` and `catalog_ready`. -/
structure LiveFile where
  watermark : Option Nat
  dirty : Option CatalogEntry
  ready : Bool
  deriving DecidableEq

/-- A member of an archive and the document `_register_archive_members` has read for it. -/
structure Examined where
  entry : CatalogEntry
  existing : Option CatalogFile
  deriving DecidableEq

structure CatalogState where
  db : InFlight CatalogStore CatalogUpdate
  live : CatalogId → LiveFile
  examined : List Examined

/-- Where a segment is and who writes it. -/
structure SegmentPlace where
  owner : FileOwner
  hour : Nat
  path : String
  deriving DecidableEq

def SegmentPlace.entry (place : SegmentPlace) (id : CatalogId) (bytes : Nat)
    (status : FileStatus) : CatalogEntry :=
  { id, owner := place.owner, hour := place.hour, path := place.path, bytes, status }

/-- `on_log`, for one chunk. -/
def onLog (id : CatalogId) (place : SegmentPlace) (offset length : Nat) (live : LiveFile) :
    LiveFile :=
  let watermark := max (live.watermark.getD offset) (offset + length)
  { live with
    watermark := some watermark
    dirty := if live.ready then live.dirty else some (place.entry id watermark .writing) }

/-- `on_archive`: the archived entry takes the place of the live one. -/
def onArchive (id : CatalogId) (place : SegmentPlace) (rawSize : Nat) (live : LiveFile) :
    LiveFile :=
  { live with ready := true, dirty := some (place.entry id rawSize .ready) }

/-- The entry `_publish_catalog` sends: a live one with the watermark of the moment. -/
def LiveFile.publishing (live : LiveFile) : Option CatalogEntry :=
  live.dirty.map fun entry =>
    if entry.status = .writing then { entry with bytes := live.watermark.getD entry.bytes }
    else entry

/-- What it does once it knows the outcome: the entry is done with, except for a duplicate
key that is not explained by the segment having been archived. -/
def LiveFile.published (live : LiveFile) (c : Catalog) (entry : CatalogEntry) : LiveFile :=
  match c.find entry.id with
  | none => { live with dirty := none }
  | some file =>
    if entry.status = .writing ∧ file.status ≠ .writing then
      if file.owner = entry.owner then { live with dirty := none, ready := true } else live
    else { live with dirty := none }

inductive CatalogAct
  | log (id : CatalogId) (place : SegmentPlace) (offset length : Nat)
  | archive (id : CatalogId) (place : SegmentPlace)
  | publish (id : CatalogId) (o : Outcome)
  | examine (id : CatalogId) (place : SegmentPlace)
  | register (index : Nat) (o : Outcome)
  | claim (id : CatalogId) (now : Nat) (o : Outcome)
  | delete (path : String) (o : Outcome)
  | protect (id : CatalogId) (executionExpires : Nat) (o : Outcome)
  | land (index : Nat)
  deriving DecidableEq

def CatalogState.send (s : CatalogState) (update : CatalogUpdate) (o : Outcome) : CatalogState :=
  { s with db := InFlight.send CatalogUpdate.apply update o s.db }

def CatalogState.setLive (s : CatalogState) (id : CatalogId) (live : LiveFile) : CatalogState :=
  { s with live := Function.update s.live id live }

def publishAct (id : CatalogId) (o : Outcome) (s : CatalogState) : Option CatalogState := do
  let entry ← (s.live id).publishing
  let sent := s.send (.publish entry) o
  match o with
  | .performed => return sent.setLive id ((s.live id).published s.db.store.files entry)
  | .lost => return sent

/-- The decision of `_register_archive_members` for one member. -/
def Examined.update (e : Examined) : Option CatalogUpdate :=
  match e.existing with
  | none => some (.register e.entry true)
  | some file => if registerable e.entry file then some (.register e.entry false) else none

def registerAct (index : Nat) (o : Outcome) (s : CatalogState) : Option CatalogState := do
  let e ← s.examined[index]?
  let update ← e.update
  let s := s.send update o
  return { s with examined := s.examined.eraseIdx index }

/-- `rawSize` is what the archive's manifest says of a segment. -/
def CatalogAct.apply (rawSize : CatalogId → Nat) :
    CatalogAct → CatalogState → Option CatalogState
  | .log id place offset length, s => some (s.setLive id (onLog id place offset length (s.live id)))
  | .archive id place, s => some (s.setLive id (onArchive id place (rawSize id) (s.live id)))
  | .publish id o, s => publishAct id o s
  | .examine id place, s =>
    let e := { entry := place.entry id (rawSize id) .ready, existing := s.db.store.files.find id }
    some { s with examined := s.examined ++ [e] }
  | .register index o, s => registerAct index o s
  | .claim id now o, s => some (s.send (.claim id now) o)
  | .delete path o, s => some (s.send (.delete path) o)
  | .protect id executionExpires o, s => some (s.send (.protect id executionExpires) o)
  | .land index, s =>
    (InFlight.land CatalogUpdate.apply index s.db).map fun db => { s with db }

structure CatalogInitial (s : CatalogState) : Prop where
  files : s.db.store = { files := Catalog.empty, claimed := fun _ => false }
  late : s.db.late = []
  live : ∀ id, s.live id = { watermark := none, dirty := none, ready := false }
  examined : s.examined = []

def CatalogStep (rawSize : CatalogId → Nat) (s t : CatalogState) : Prop :=
  ∃ act : CatalogAct, act.apply rawSize s = some t

/-! ## Updates that come too late -/

/-- An upsert is not applied to a file whose document has been deleted, nor the runtime's
`READY` to one that has been claimed. -/
def CatalogUpdate.BeforeDeletion (store : CatalogStore) : CatalogUpdate → Prop
  | .publish entry =>
    store.claimed entry.id = true → entry.status = .writing ∧ store.files.find entry.id ≠ none
  | .register entry upsert =>
    upsert = true → store.claimed entry.id = true → store.files.find entry.id ≠ none
  | _ => True

/-- A live watermark is not applied after a newer one. -/
def CatalogUpdate.Advances (store : CatalogStore) : CatalogUpdate → Prop
  | .publish entry => entry.status = .writing →
    ∀ file, store.files.find entry.id = some file → file.status = .writing →
      file.bytes ≤ entry.bytes
  | _ => True

/-- The condition on a step. That watermarks advance is only asked of updates that land late. -/
def Timely (s : CatalogState) : CatalogAct → Prop
  | .publish id .performed =>
    ∀ entry, (s.live id).publishing = some entry →
      (CatalogUpdate.publish entry).BeforeDeletion s.db.store
  | .register index .performed =>
    ∀ e update, s.examined[index]? = some e → e.update = some update →
      update.BeforeDeletion s.db.store
  | .land index =>
    ∀ update, s.db.late[index]? = some update →
      update.BeforeDeletion s.db.store ∧ update.Advances s.db.store
  | _ => True

def TimelyStep (rawSize : CatalogId → Nat) (s t : CatalogState) : Prop :=
  ∃ act : CatalogAct, Timely s act ∧ act.apply rawSize s = some t

/-! ## The invariant -/

variable {rawSize : CatalogId → Nat} {s t : CatalogState} {store store' : CatalogStore}
  {id : CatalogId} {entry : CatalogEntry} {update : CatalogUpdate} {file file' : CatalogFile}
  {live live' : CatalogId → LiveFile} {o : Outcome}

/-- An entry that someone may publish: a watermark that has been reached, or the archive's. -/
def EntryOk (rawSize : CatalogId → Nat) (live : CatalogId → LiveFile) (entry : CatalogEntry) :
    Prop :=
  (entry.status = .writing ∧ ∃ w, (live entry.id).watermark = some w ∧ entry.bytes ≤ w) ∨
    (entry.status = .ready ∧ entry.bytes = rawSize entry.id)

def UpdateOk (rawSize : CatalogId → Nat) (live : CatalogId → LiveFile) : CatalogUpdate → Prop
  | .publish entry => EntryOk rawSize live entry
  | .register entry _ => entry.status = .ready ∧ entry.bytes = rawSize entry.id
  | _ => True

structure StoreOk (rawSize : CatalogId → Nat) (live : CatalogId → LiveFile)
    (store : CatalogStore) : Prop where
  writing : ∀ id file, store.files.find id = some file → file.status = .writing →
    ∃ w, (live id).watermark = some w ∧ file.bytes ≤ w
  archived : ∀ id file, store.files.find id = some file → file.status ≠ .writing →
    file.bytes = rawSize id
  deleting : ∀ id file, store.files.find id = some file → file.status = .deleting →
    store.claimed id = true
  claimed : ∀ id file, store.files.find id = some file → store.claimed id = true →
    file.status = .deleting

structure CatalogSafe (rawSize : CatalogId → Nat) (s : CatalogState) : Prop where
  files : StoreOk rawSize s.live s.db.store
  late : ∀ update ∈ s.db.late, UpdateOk rawSize s.live update
  dirty : ∀ id entry, (s.live id).dirty = some entry → entry.id = id ∧ EntryOk rawSize s.live entry
  examined : ∀ e ∈ s.examined, e.entry.status = .ready ∧ e.entry.bytes = rawSize e.entry.id

/-- What a step may do to a document. -/
structure Forward (store store' : CatalogStore) : Prop where
  status : ∀ id file file', store.files.find id = some file → store'.files.find id = some file' →
    file.status.rank ≤ file'.status.rank ∧ (file.status = file'.status → file.bytes ≤ file'.bytes)
  claimed : ∀ id, store.claimed id = true → store'.claimed id = true

theorem forward_refl (store : CatalogStore) : Forward store store := by
  refine ⟨fun id file file' hf hf' => ?_, fun id hc => hc⟩
  rw [hf, Option.some.injEq] at hf'
  exact hf' ▸ ⟨Nat.le_refl _, fun _ => Nat.le_refl _⟩

theorem FileStatus.rank_le_of {a b : FileStatus} (h : a = .deleting → b = .deleting)
    (h' : b = .writing → a = .writing) : a.rank ≤ b.rank := by
  cases a <;> cases b <;> simp_all [FileStatus.rank]

/-! ## One update -/

/-- What an update that is not too late does to one document. -/
inductive DocStep (rawSize : CatalogId → Nat) (live : CatalogId → LiveFile)
    (store store' : CatalogStore) (id : CatalogId) : Prop
  | same (hfind : store'.files.find id = store.files.find id)
      (hclaimed : store'.claimed id = store.claimed id)
  | written (entry : CatalogEntry) (retainUntil : Option Nat) (hid : entry.id = id)
      (hok : EntryOk rawSize live entry) (hbefore : store.claimed id = false)
      (hold : ∀ file, store.files.find id = some file → entry.status = .writing →
        file.status = .writing ∧ file.bytes ≤ entry.bytes)
      (hfind : store'.files.find id = some (entry.file retainUntil))
      (hclaimed : store'.claimed id = store.claimed id)
  | claimed (file : CatalogFile) (hfile : store.files.find id = some file)
      (hready : file.status = .ready)
      (hfind : store'.files.find id = some { file with status := .deleting })
      (hclaimed : store'.claimed id = true)
  | deleted (hfind : store'.files.find id = none)
      (hclaimed : store'.claimed id = store.claimed id)
  | extended (file : CatalogFile) (retainUntil : Option Nat)
      (hfile : store.files.find id = some file)
      (hfind : store'.files.find id = some { file with retainUntil })
      (hclaimed : store'.claimed id = store.claimed id)

theorem DocStep.ok (hstep : ∀ id, DocStep rawSize live store store' id)
    (h : StoreOk rawSize live store) : StoreOk rawSize live store' where
  writing := by
    intro id file' hf' hw
    cases hstep id with
    | same hfind _ => exact h.writing id file' (hfind ▸ hf') hw
    | written entry retainUntil hid hok _ _ hfind _ =>
      rw [hfind, Option.some.injEq] at hf'
      subst hf'
      rcases hok with ⟨-, hwater⟩ | ⟨hst, -⟩
      · exact hid ▸ hwater
      · exact absurd (hst.symm.trans hw) (by decide)
    | claimed file _ _ hfind _ =>
      rw [hfind, Option.some.injEq] at hf'
      subst hf'
      cases hw
    | deleted hfind _ =>
      rw [hfind] at hf'
      cases hf'
    | extended file _ hfile hfind _ =>
      rw [hfind, Option.some.injEq] at hf'
      subst hf'
      exact h.writing id file hfile hw
  archived := by
    intro id file' hf' hw
    cases hstep id with
    | same hfind _ => exact h.archived id file' (hfind ▸ hf') hw
    | written entry retainUntil hid hok _ _ hfind _ =>
      rw [hfind, Option.some.injEq] at hf'
      subst hf'
      rcases hok with ⟨hst, -⟩ | ⟨-, hraw⟩
      · exact absurd hst hw
      · exact hid ▸ hraw
    | claimed file hfile hready hfind _ =>
      rw [hfind, Option.some.injEq] at hf'
      subst hf'
      exact h.archived id file hfile (by simp [hready])
    | deleted hfind _ =>
      rw [hfind] at hf'
      cases hf'
    | extended file _ hfile hfind _ =>
      rw [hfind, Option.some.injEq] at hf'
      subst hf'
      exact h.archived id file hfile hw
  deleting := by
    intro id file' hf' hd
    cases hstep id with
    | same hfind hclaimed => exact hclaimed.trans (h.deleting id file' (hfind ▸ hf') hd)
    | written entry retainUntil hid hok _ _ hfind _ =>
      rw [hfind, Option.some.injEq] at hf'
      subst hf'
      have hst : entry.status = .deleting := hd
      rcases hok with ⟨he, -⟩ | ⟨he, -⟩ <;> rw [he] at hst <;> cases hst
    | claimed file _ _ _ hclaimed => exact hclaimed
    | deleted hfind _ =>
      rw [hfind] at hf'
      cases hf'
    | extended file _ hfile hfind hclaimed =>
      rw [hfind, Option.some.injEq] at hf'
      subst hf'
      exact hclaimed.trans (h.deleting id file hfile hd)
  claimed := by
    intro id file' hf' hc
    cases hstep id with
    | same hfind hclaimed => exact h.claimed id file' (hfind ▸ hf') (hclaimed ▸ hc)
    | written entry retainUntil _ _ hbefore _ _ hclaimed =>
      rw [hclaimed, hbefore] at hc
      cases hc
    | claimed file _ _ hfind _ =>
      rw [hfind, Option.some.injEq] at hf'
      exact hf' ▸ rfl
    | deleted hfind _ =>
      rw [hfind] at hf'
      cases hf'
    | extended file _ hfile hfind hclaimed =>
      rw [hfind, Option.some.injEq] at hf'
      subst hf'
      exact h.claimed id file hfile (hclaimed ▸ hc)

theorem DocStep.forward (hstep : ∀ id, DocStep rawSize live store store' id)
    (h : StoreOk rawSize live store) : Forward store store' where
  status := by
    intro id file file' hf hf'
    cases hstep id with
    | same hfind _ =>
      rw [hfind, hf, Option.some.injEq] at hf'
      exact hf' ▸ ⟨Nat.le_refl _, fun _ => Nat.le_refl _⟩
    | written entry retainUntil hid hok hbefore hold hfind _ =>
      rw [hfind, Option.some.injEq] at hf'
      subst hf'
      have hnot : file.status ≠ .deleting := by
        intro hd
        rw [h.deleting id file hf hd] at hbefore
        cases hbefore
      refine ⟨FileStatus.rank_le_of (fun hd => absurd hd hnot) (fun hw => (hold file hf hw).1), ?_⟩
      intro hsame
      rcases hok with ⟨hw, -⟩ | ⟨hr, hraw⟩
      · exact (hold file hf hw).2
      · -- two archived documents carry the size of the archive
        have hst : file.status ≠ .writing :=
          fun hw => absurd (hr.symm.trans (hsame.symm.trans hw)) (by decide)
        exact Nat.le_of_eq ((h.archived id file hf hst).trans (hid ▸ hraw.symm))
    | claimed old hfile hready hfind _ =>
      rw [hfile, Option.some.injEq] at hf
      subst hf
      rw [hfind, Option.some.injEq] at hf'
      subst hf'
      refine ⟨by simp [hready, FileStatus.rank], fun hsame => ?_⟩
      have heq : FileStatus.ready = .deleting := hready.symm.trans hsame
      cases heq
    | deleted hfind _ =>
      rw [hfind] at hf'
      cases hf'
    | extended old _ hfile hfind _ =>
      rw [hfile, Option.some.injEq] at hf
      subst hf
      rw [hfind, Option.some.injEq] at hf'
      exact hf' ▸ ⟨Nat.le_refl _, fun _ => Nat.le_refl _⟩
  claimed := by
    intro id hc
    cases hstep id with
    | same _ hclaimed => exact hclaimed.trans hc
    | written _ _ _ _ _ _ _ hclaimed => exact hclaimed.trans hc
    | claimed _ _ _ _ hclaimed => exact hclaimed
    | deleted _ hclaimed => exact hclaimed.trans hc
    | extended _ _ _ _ hclaimed => exact hclaimed.trans hc

theorem docStep_apply (h : StoreOk rawSize live store) (hu : UpdateOk rawSize live update)
    (hb : update.BeforeDeletion store) (ha : update.Advances store) (id : CatalogId) :
    DocStep rawSize live store (update.apply store) id := by
  -- a document that is there and not being deleted has not been claimed
  have hopen : ∀ {file}, store.files.find id = some file → file.status ≠ .deleting →
      store.claimed id = false := by
    intro file hf hnot
    exact Bool.eq_false_iff.mpr fun hc => hnot (h.claimed id file hf hc)
  cases update with
  | publish entry =>
    rcases publishEntry_find store.files entry id with
      hsame | ⟨hid, ⟨hnone, hfind⟩ | ⟨file, hfile, hwrite, hfind⟩⟩
    · exact .same hsame rfl
    · have hbefore : store.claimed id = false := by
        refine Bool.eq_false_iff.mpr fun hc => ?_
        exact (hb (hid ▸ hc)).2 (hid ▸ hnone)
      refine .written entry none hid.symm hu hbefore ?_ hfind rfl
      intro file hfile
      rw [hnone] at hfile
      cases hfile
    · have hbefore : store.claimed id = false := by
        refine Bool.eq_false_iff.mpr fun hc => ?_
        have hw := hwrite (hb (hid ▸ hc)).1
        exact absurd (hw.symm.trans (h.claimed id file hfile hc)) (by decide)
      refine .written entry file.retainUntil hid.symm hu hbefore ?_ hfind rfl
      intro file' hfile' hst
      rw [hfile, Option.some.injEq] at hfile'
      subst hfile'
      exact ⟨hwrite hst, ha hst file (hid ▸ hfile) (hwrite hst)⟩
  | register entry upsert =>
    have hst : entry.status = .ready := hu.1
    have hold : ∀ file, store.files.find id = some file → entry.status = .writing →
        file.status = .writing ∧ file.bytes ≤ entry.bytes := by
      intro file _ hw
      rw [hst] at hw
      cases hw
    rcases registerEntry_find store.files entry upsert id with
      hsame | ⟨hid, ⟨hnone, hup, hfind⟩ | ⟨file, hfile, hnot, hfind⟩⟩
    · exact .same hsame rfl
    · have hbefore : store.claimed id = false := by
        refine Bool.eq_false_iff.mpr fun hc => ?_
        exact hb hup (hid ▸ hc) (hid ▸ hnone)
      exact .written entry none hid.symm (Or.inr hu) hbefore hold hfind rfl
    · exact .written entry file.retainUntil hid.symm (Or.inr hu) (hopen hfile hnot) hold hfind rfl
  | claim other now =>
    by_cases hid : id = other
    · subst hid
      have hfind := claimFile_find_self store.files id now
      cases hfile : store.files.find id with
      | none =>
        rw [hfile, Option.map_none] at hfind
        exact .same (hfind.trans hfile.symm) (by simp [CatalogUpdate.apply, hfile])
      | some file =>
        rw [hfile, Option.map_some] at hfind
        by_cases hclaim : claimable now file = true
        · rw [if_pos hclaim] at hfind
          exact .claimed file hfile (claimable_ready hclaim) hfind
            (by simp [CatalogUpdate.apply, hfile, hclaim])
        · rw [if_neg hclaim] at hfind
          exact .same (hfind.trans hfile.symm) (by simp [CatalogUpdate.apply, hfile, hclaim])
    · exact .same (claimFile_find_ne hid) (Function.update_of_ne hid ..)
  | delete path =>
    rcases deleteGroup_find store.files path id with
      hsame | ⟨file, -, -, -, hnone⟩
    · exact .same hsame rfl
    · exact .deleted hnone rfl
  | protect other executionExpires =>
    rcases protectFile_find store.files other executionExpires id with
      hsame | ⟨rfl, file, until_, hfile, -, -, -, hfind⟩
    · exact .same hsame rfl
    · exact .extended file (some until_) hfile hfind rfl

/-! ## One step -/

/-- A runtime's watermarks only grow. -/
def WatermarksGrow (live live' : CatalogId → LiveFile) : Prop :=
  ∀ id w, (live id).watermark = some w → ∃ w', (live' id).watermark = some w' ∧ w ≤ w'

theorem WatermarksGrow.entryOk (hg : WatermarksGrow live live') (h : EntryOk rawSize live entry) :
    EntryOk rawSize live' entry := by
  rcases h with ⟨hst, w, hw, hle⟩ | h
  · obtain ⟨w', hw', hle'⟩ := hg entry.id w hw
    exact Or.inl ⟨hst, w', hw', Nat.le_trans hle hle'⟩
  · exact Or.inr h

theorem WatermarksGrow.updateOk (hg : WatermarksGrow live live') (h : UpdateOk rawSize live update) :
    UpdateOk rawSize live' update := by
  cases update with
  | publish entry => exact hg.entryOk h
  | _ => exact h

/-- The runtime of one segment goes on, with an entry it may publish. -/
theorem CatalogSafe.setLive {next : LiveFile} (h : CatalogSafe rawSize s)
    (hg : ∀ w, (s.live id).watermark = some w → ∃ w', next.watermark = some w' ∧ w ≤ w')
    (hdirty : ∀ entry, next.dirty = some entry →
      entry.id = id ∧ EntryOk rawSize (Function.update s.live id next) entry) :
    CatalogSafe rawSize (s.setLive id next) := by
  have hgrows : WatermarksGrow s.live (Function.update s.live id next) := by
    intro other w hw
    by_cases ho : other = id
    · subst ho
      rw [Function.update_self]
      exact hg w hw
    · rw [Function.update_of_ne ho]
      exact ⟨w, hw, Nat.le_refl _⟩
  exact {
    files := {
      writing := by
        intro other file hf hst
        obtain ⟨w, hw, hle⟩ := h.files.writing other file hf hst
        obtain ⟨w', hw', hle'⟩ := hgrows other w hw
        exact ⟨w', hw', Nat.le_trans hle hle'⟩
      archived := h.files.archived
      deleting := h.files.deleting
      claimed := h.files.claimed }
    late := fun update hu => hgrows.updateOk (h.late update hu)
    dirty := by
      intro other entry he
      by_cases ho : other = id
      · subst ho
        simp only [CatalogState.setLive, Function.update_self] at he
        exact hdirty entry he
      · simp only [CatalogState.setLive, Function.update_of_ne ho] at he
        exact ⟨(h.dirty other entry he).1, hgrows.entryOk (h.dirty other entry he).2⟩
    examined := h.examined }

/-- An update goes out; where it is applied at once it is not too late. -/
theorem CatalogSafe.send (h : CatalogSafe rawSize s) (hu : UpdateOk rawSize s.live update)
    (htimely : o = .performed → update.BeforeDeletion s.db.store ∧ update.Advances s.db.store) :
    CatalogSafe rawSize (s.send update o) ∧ Forward s.db.store (s.send update o).db.store := by
  cases o with
  | lost =>
    refine ⟨⟨h.files, ?_, h.dirty, h.examined⟩, forward_refl _⟩
    intro v hv
    rcases InFlight.mem_late_send hv with rfl | hv
    · exact hu
    · exact h.late v hv
  | performed =>
    obtain ⟨hb, ha⟩ := htimely rfl
    have hstep := docStep_apply h.files hu hb ha
    exact ⟨⟨DocStep.ok hstep h.files, h.late, h.dirty, h.examined⟩, DocStep.forward hstep h.files⟩

theorem publishing_ok (h : CatalogSafe rawSize s) (he : (s.live id).publishing = some entry) :
    entry.id = id ∧ EntryOk rawSize s.live entry := by
  obtain ⟨dirty, hd, rfl⟩ := Option.map_eq_some_iff.mp he
  obtain ⟨hid, hok⟩ := h.dirty id dirty hd
  split
  next hst =>
    refine ⟨hid, Or.inl ⟨hst, ?_⟩⟩
    rcases hok with ⟨-, w, hw, hle⟩ | ⟨hr, -⟩
    · rw [hid] at hw
      exact ⟨w, hid ▸ hw, by simp [hw]⟩
    · exact absurd (hr.symm.trans hst) (by decide)
  next => exact ⟨hid, hok⟩

/-- A live watermark that is written at once is the newest one. -/
theorem publishing_advances (h : CatalogSafe rawSize s)
    (he : (s.live id).publishing = some entry) :
    (CatalogUpdate.publish entry).Advances s.db.store := by
  intro hst file hf hfile
  have hid := (publishing_ok h he).1
  obtain ⟨w, hw, hle⟩ := h.files.writing entry.id file hf hfile
  obtain ⟨dirty, hd, rfl⟩ := Option.map_eq_some_iff.mp he
  split at hst
  next hwrite =>
    rw [if_pos hwrite] at hid hf hw ⊢
    rw [hid] at hw
    simp only [hw, Option.getD_some]
    exact hle
  next hwrite => exact absurd hst hwrite

theorem onLog_safe {place : SegmentPlace} {offset length : Nat} (h : CatalogSafe rawSize s) :
    CatalogSafe rawSize (s.setLive id (onLog id place offset length (s.live id))) := by
  have hg : ∀ w, (s.live id).watermark = some w → ∃ w', (onLog id place offset length
      (s.live id)).watermark = some w' ∧ w ≤ w' := by
    intro w hw
    refine ⟨_, rfl, ?_⟩
    rw [hw]
    exact Nat.le_max_left _ _
  refine h.setLive hg ?_
  intro entry he
  unfold onLog at he
  simp only at he
  split at he
  next =>
    -- the segment has been archived: its dirty entry stays
    obtain ⟨hid, hok⟩ := h.dirty id entry he
    refine ⟨hid, ?_⟩
    rcases hok with ⟨hst, w, hw, hle⟩ | hr
    · obtain ⟨w', hw', hle'⟩ := hg w (hid ▸ hw)
      refine Or.inl ⟨hst, w', ?_, Nat.le_trans hle hle'⟩
      rw [hid, Function.update_self]
      exact hw'
    · exact Or.inr hr
  next =>
    cases he
    refine ⟨rfl, Or.inl ⟨rfl, _, ?_, Nat.le_refl _⟩⟩
    simp [SegmentPlace.entry, onLog]

theorem onArchive_safe {place : SegmentPlace} (h : CatalogSafe rawSize s) :
    CatalogSafe rawSize (s.setLive id (onArchive id place (rawSize id) (s.live id))) := by
  refine h.setLive (fun w hw => ⟨w, hw, Nat.le_refl _⟩) ?_
  intro entry he
  cases he
  exact ⟨rfl, Or.inr ⟨rfl, rfl⟩⟩

/-- After a publish that has been written the entry is gone, or still the same. -/
theorem published_cases (live : LiveFile) (c : Catalog) (entry : CatalogEntry) :
    (live.published c entry).watermark = live.watermark ∧
      ((live.published c entry).dirty = none ∨ (live.published c entry).dirty = live.dirty) := by
  unfold LiveFile.published
  split
  next => exact ⟨rfl, Or.inl rfl⟩
  next =>
    split
    next =>
      split
      next => exact ⟨rfl, Or.inl rfl⟩
      next => exact ⟨rfl, Or.inr rfl⟩
    next => exact ⟨rfl, Or.inl rfl⟩

theorem publishAct_safe (h : CatalogSafe rawSize s) (ht : Timely s (.publish id o))
    (ha : publishAct id o s = some t) :
    CatalogSafe rawSize t ∧ Forward s.db.store t.db.store := by
  simp only [publishAct, bind, Option.bind_eq_some_iff, pure] at ha
  obtain ⟨entry, he, ha⟩ := ha
  have htimely : o = .performed → (CatalogUpdate.publish entry).BeforeDeletion s.db.store ∧
      (CatalogUpdate.publish entry).Advances s.db.store := by
    intro ho
    subst ho
    exact ⟨ht entry he, publishing_advances h he⟩
  have hok : UpdateOk rawSize s.live (.publish entry) := (publishing_ok h he).2
  have hsent := h.send hok htimely
  cases o with
  | lost =>
    cases ha
    exact hsent
  | performed =>
    cases ha
    obtain ⟨hw, hd⟩ := published_cases (s.live id) s.db.store.files entry
    refine ⟨hsent.1.setLive (fun w hw' => ⟨w, hw.trans hw', Nat.le_refl _⟩) ?_, hsent.2⟩
    intro dirty hdirty
    rcases hd with hd | hd
    · rw [hd] at hdirty
      cases hdirty
    · obtain ⟨hid, hok⟩ := h.dirty id dirty (hd ▸ hdirty)
      refine ⟨hid, ?_⟩
      rcases hok with ⟨hst, w, hw', hle⟩ | hr
      · refine Or.inl ⟨hst, w, ?_, hle⟩
        rw [hid] at hw' ⊢
        rw [Function.update_self]
        exact hw.trans hw'
      · exact Or.inr hr

theorem examined_update (live : CatalogId → LiveFile) {e : Examined}
    (he : e.entry.status = .ready ∧ e.entry.bytes = rawSize e.entry.id) (hu : e.update = some update) :
    UpdateOk rawSize live update ∧ ∀ store, update.Advances store := by
  unfold Examined.update at hu
  split at hu
  next =>
    cases hu
    exact ⟨he, fun _ => trivial⟩
  next =>
    split at hu
    next =>
      cases hu
      exact ⟨he, fun _ => trivial⟩
    next => cases hu

theorem registerAct_safe {index : Nat} (h : CatalogSafe rawSize s)
    (ht : Timely s (.register index o)) (ha : registerAct index o s = some t) :
    CatalogSafe rawSize t ∧ Forward s.db.store t.db.store := by
  simp only [registerAct, bind, Option.bind_eq_some_iff, pure] at ha
  obtain ⟨e, he, update, hu, ha⟩ := ha
  cases ha
  obtain ⟨hok, hadv⟩ := examined_update s.live (h.examined e (List.mem_of_getElem? he)) hu
  obtain ⟨hsafe, hforward⟩ := h.send (o := o) hok (by
    intro ho
    subst ho
    exact ⟨ht e update he hu, hadv _⟩)
  refine ⟨⟨hsafe.files, hsafe.late, hsafe.dirty, ?_⟩, hforward⟩
  exact fun e' he' => h.examined e' (List.mem_of_mem_eraseIdx he')

theorem TimelyStep.safe (hst : TimelyStep rawSize s t) (h : CatalogSafe rawSize s) :
    CatalogSafe rawSize t ∧ Forward s.db.store t.db.store := by
  obtain ⟨act, ht, ha⟩ := hst
  cases act with
  | log id place offset length =>
    cases ha
    exact ⟨onLog_safe h, forward_refl _⟩
  | archive id place =>
    cases ha
    exact ⟨onArchive_safe h, forward_refl _⟩
  | publish id o => exact publishAct_safe h ht ha
  | examine id place =>
    cases ha
    refine ⟨⟨h.files, h.late, h.dirty, ?_⟩, forward_refl _⟩
    intro e he
    rcases List.mem_append.mp he with he | he
    · exact h.examined e he
    · exact List.mem_singleton.mp he ▸ ⟨rfl, rfl⟩
  | register index o => exact registerAct_safe h ht ha
  | claim id now o =>
    cases ha
    exact h.send trivial fun _ => ⟨trivial, trivial⟩
  | delete path o =>
    cases ha
    exact h.send trivial fun _ => ⟨trivial, trivial⟩
  | protect id executionExpires o =>
    cases ha
    exact h.send trivial fun _ => ⟨trivial, trivial⟩
  | land index =>
    obtain ⟨db, hdb, rfl⟩ := Option.map_eq_some_iff.mp ha
    obtain ⟨update, hu, rfl⟩ := InFlight.land_eq_some.mp hdb
    obtain ⟨hb, hadv⟩ := ht update hu
    have hstep := docStep_apply h.files (h.late update (List.mem_of_getElem? hu)) hb hadv
    exact ⟨⟨DocStep.ok hstep h.files, fun v hv => h.late v (List.mem_of_mem_eraseIdx hv), h.dirty,
      h.examined⟩, DocStep.forward hstep h.files⟩

theorem catalogInitial_safe (h : CatalogInitial s) : CatalogSafe rawSize s := by
  have hnone : ∀ id file, s.db.store.files.find id ≠ some file := by
    intro id file hf
    rw [h.files] at hf
    cases hf
  exact {
    files := {
      writing := fun id file hf => absurd hf (hnone id file)
      archived := fun id file hf => absurd hf (hnone id file)
      deleting := fun id file hf => absurd hf (hnone id file)
      claimed := fun id file hf => absurd hf (hnone id file) }
    late := fun update hu => by simp [h.late] at hu
    dirty := fun id entry he => by simp [h.live] at he
    examined := fun e he => by simp [h.examined] at he }

theorem catalog_safe (h : Reachable CatalogInitial (TimelyStep rawSize) s) :
    CatalogSafe rawSize s :=
  h.invariant (fun _ h₀ => catalogInitial_safe h₀) (fun _ _ hst hs => (hst.safe hs).1)

/-! ## The result -/

/-- In every run whose updates are in time: no step takes a document back along `OPEN`,
`READY`, `DELETING`, or its bytes down under the same status, and once a document is
`DELETING` there never is another document of that file in any other status. -/
theorem catalog_monotone (rawSize : CatalogId → Nat) (s : CatalogState)
    (h : Reachable CatalogInitial (TimelyStep rawSize) s) :
    (∀ t, TimelyStep rawSize s t → ∀ id file file', s.db.store.files.find id = some file →
      t.db.store.files.find id = some file' → file.status.rank ≤ file'.status.rank ∧
        (file.status = file'.status → file.bytes ≤ file'.bytes)) ∧
    (∀ id file, s.db.store.files.find id = some file → file.status = .deleting →
      ∀ t, ReflTransGen (TimelyStep rawSize) s t →
        ∀ file', t.db.store.files.find id = some file' → file'.status = .deleting) := by
  have hs := catalog_safe h
  refine ⟨?_, ?_⟩
  · intro t hst
    exact (hst.safe hs).2.status
  · intro id file hf hd t hrun file' hf'
    have hkept : CatalogSafe rawSize t ∧ t.db.store.claimed id = true := by
      refine sticky (I := fun s => CatalogSafe rawSize s ∧ s.db.store.claimed id = true) ?_ hrun
        ⟨hs, hs.files.deleting id file hf hd⟩
      intro s t hst h
      obtain ⟨hsafe, hforward⟩ := hst.safe h.1
      exact ⟨hsafe, hforward.claimed id h.2⟩
    exact hkept.1.files.claimed id file' hf' hkept.2

def someOwner : FileOwner := { taskId := "t", runId := "r", sessionId := "s", nodeId := "n" }

def somePlace : SegmentPlace := { owner := someOwner, hour := 3, path := "03.tar.gz" }

def catalogStart : CatalogState where
  db := { store := { files := Catalog.empty, claimed := fun _ => false }, late := [] }
  live := fun _ => { watermark := none, dirty := none, ready := false }
  examined := []

theorem catalogStart_initial : CatalogInitial catalogStart where
  files := rfl
  late := rfl
  live := fun _ => rfl
  examined := rfl

/-- A segment is published, archived and claimed. -/
theorem catalog_monotone_claimed : ∃ s file, Reachable CatalogInitial (TimelyStep fun _ => 8) s ∧
    s.db.store.files.find 0 = some file ∧ file.status = .deleting ∧
    ∀ t, ReflTransGen (TimelyStep fun _ => 8) s t →
      ∀ file', t.db.store.files.find 0 = some file' → file'.status = .deleting := by
  have hreach : ∃ s file, runActs (CatalogAct.apply fun _ => 8)
        [.log 0 somePlace 0 5, .publish 0 .performed, .log 0 somePlace 5 3, .archive 0 somePlace,
          .publish 0 .performed, .claim 0 4 .performed] catalogStart = some s ∧
      s.db.store.files.find 0 = some file ∧ file.status = .deleting ∧
      ReflTransGen (TimelyStep fun _ => 8) catalogStart s := by
    refine ⟨_, _, rfl, rfl, rfl, ?_⟩
    -- both publications find the file unclaimed
    refine .head ⟨.log 0 somePlace 0 5, trivial, rfl⟩ ?_
    refine .head ⟨.publish 0 .performed, fun _ he hc => ?_, rfl⟩ ?_
    · cases he
      cases hc
    refine .head ⟨.log 0 somePlace 5 3, trivial, rfl⟩ ?_
    refine .head ⟨.archive 0 somePlace, trivial, rfl⟩ ?_
    refine .head ⟨.publish 0 .performed, fun _ he hc => ?_, rfl⟩ ?_
    · cases he
      cases hc
    exact .head ⟨.claim 0 4 .performed, trivial, rfl⟩ .refl
  obtain ⟨s, file, -, hfile, hd, hrun⟩ := hreach
  have hs : Reachable CatalogInitial (TimelyStep fun _ => 8) s :=
    ⟨catalogStart, catalogStart_initial, hrun⟩
  exact ⟨s, file, hs, hfile, hd, (catalog_monotone (fun _ => 8) s hs).2 0 file hfile hd⟩

/-- A runtime archives a segment and does not get to publish it; the maintenance of the node
registers it, retention claims it, and then the runtime publishes it. -/
theorem claimed_file_ready_again : ¬ ∀ (rawSize : CatalogId → Nat) (s : CatalogState),
    Reachable CatalogInitial (CatalogStep rawSize) s →
    (∀ t, CatalogStep rawSize s t → ∀ id file file', s.db.store.files.find id = some file →
      t.db.store.files.find id = some file' → file.status.rank ≤ file'.status.rank ∧
        (file.status = file'.status → file.bytes ≤ file'.bytes)) ∧
    (∀ id file, s.db.store.files.find id = some file → file.status = .deleting →
      ∀ t, ReflTransGen (CatalogStep rawSize) s t →
        ∀ file', t.db.store.files.find id = some file' → file'.status = .deleting) := by
  intro hclaim
  have hrun : ∃ s file, runActs (CatalogAct.apply fun _ => 8)
        [.log 0 somePlace 0 8, .archive 0 somePlace, .examine 0 somePlace,
          .register 0 .performed, .claim 0 4 .performed] catalogStart = some s ∧
      s.db.store.files.find 0 = some file ∧ file.status = .deleting ∧
      ∃ t file', (CatalogAct.publish 0 .performed).apply (fun _ => 8) s = some t ∧
        t.db.store.files.find 0 = some file' ∧ file'.status = .ready :=
    ⟨_, _, rfl, rfl, rfl, _, _, rfl, rfl, rfl⟩
  obtain ⟨s, file, hs, hfile, hd, t, file', ht, hfile', hr⟩ := hrun
  have hreach : Reachable CatalogInitial (CatalogStep fun _ => 8) s :=
    ⟨catalogStart, catalogStart_initial, runActs_steps hs⟩
  have hback := ((hclaim _ s hreach).1 t ⟨_, ht⟩ 0 file file' hfile hfile').1
  rw [hd, hr] at hback
  exact absurd hback (by decide)

end CameraLogs.Logs
