import CameraLogs.Lib.Dict

/-!
# The catalog of log files

One document of the collection `files` for each log segment: who wrote it, where its bytes
are, how many of them are published, and whether it is still written (`OPEN`), archived and
readable (`READY`) or taken by retention (`DELETING`). The unique index on `id` is a field
of `Catalog`.

What follows are the single updates the components make, each with the filter it carries.
The session times and the sequence numbers of a document are left out: no filter reads them.
-/

namespace CameraLogs.Logs

open CameraLogs.Lib

abbrev CatalogId := Nat

inductive FileStatus
  | writing
  | ready
  | deleting
  deriving DecidableEq

/-- The position of a status along `OPEN`, `READY`, `DELETING`. -/
def FileStatus.rank : FileStatus → Nat
  | .writing => 0
  | .ready => 1
  | .deleting => 2

structure FileOwner where
  taskId : String
  runId : String
  sessionId : String
  nodeId : String
  deriving DecidableEq

structure CatalogFile where
  id : CatalogId
  owner : FileOwner
  hour : Nat
  path : String
  bytes : Nat
  status : FileStatus
  /-- The latest time a job has protected the file until. -/
  retainUntil : Option Nat
  deriving DecidableEq

structure Catalog where
  files : List CatalogFile
  distinct : (files.map CatalogFile.id).Nodup

namespace Catalog

variable {c : Catalog} {id : CatalogId} {file file' : CatalogFile} {path : String}

def empty : Catalog := ⟨[], List.nodup_nil⟩

def find (c : Catalog) (id : CatalogId) : Option CatalogFile :=
  Dict.lookup CatalogFile.id id c.files

/-- `find({"path": path})` -/
def group (c : Catalog) (path : String) : List CatalogFile :=
  c.files.filter fun file => file.path = path

/-- Put a document in the place of the one with its `id`, or insert it. -/
def put (c : Catalog) (file : CatalogFile) : Catalog :=
  ⟨Dict.upsert CatalogFile.id file c.files, Dict.nodup_upsert c.distinct⟩

def remove (c : Catalog) (condition : CatalogFile → Bool) : Catalog :=
  ⟨c.files.filter fun file => !condition file,
    c.distinct.sublist (List.filter_sublist.map CatalogFile.id)⟩

theorem find_put : (c.put file).find id = if file.id = id then some file else c.find id :=
  Dict.lookup_upsert

theorem find_put_self : (c.put file).find file.id = some file := by simp [find_put]

theorem find_put_ne (h : file.id ≠ id) : (c.put file).find id = c.find id := by
  simp [find_put, h]

theorem find_remove (condition : CatalogFile → Bool) :
    (c.remove condition).find id = (c.find id).filter fun file => !condition file :=
  Dict.lookup_filter c.distinct _ _

theorem find_id (h : c.find id = some file) : file.id = id := (Dict.lookup_some h).2

theorem find_eq_some : c.find id = some file ↔ file ∈ c.files ∧ file.id = id := by
  refine ⟨Dict.lookup_some, fun h => ?_⟩
  rw [← h.2]
  exact Dict.lookup_eq_some c.distinct h.1

theorem mem_group : file ∈ c.group path ↔ c.find file.id = some file ∧ file.path = path := by
  simp [group, find_eq_some]

end Catalog

/-! ## The updates -/

/-- An entry that is to be published: a document without what others have written in it. -/
structure CatalogEntry where
  id : CatalogId
  owner : FileOwner
  hour : Nat
  path : String
  bytes : Nat
  status : FileStatus
  deriving DecidableEq

/-- The document after `$set` with the fields of an entry. -/
def CatalogEntry.file (entry : CatalogEntry) (retainUntil : Option Nat) : CatalogFile :=
  { id := entry.id, owner := entry.owner, hour := entry.hour, path := entry.path,
    bytes := entry.bytes, status := entry.status, retainUntil }

/-- The upsert of `_publish_catalog`. The filter of an `OPEN` entry asks for an `OPEN`
document, that of a `READY` entry for no status at all. -/
def publishEntry (c : Catalog) (entry : CatalogEntry) : Catalog :=
  match c.find entry.id with
  | none => c.put (entry.file none)
  | some file =>
    if entry.status = .writing ∧ file.status ≠ .writing then c  -- duplicate key
    else c.put (entry.file file.retainUntil)

/-- The filter of `_register_archive_members`. -/
def registerable (entry : CatalogEntry) (file : CatalogFile) : Bool :=
  (file.status = .writing ∨ file.status = .ready) ∧ file.owner = entry.owner

/-- Its update, with `upsert` where no document was found before. -/
def registerEntry (c : Catalog) (entry : CatalogEntry) (upsert : Bool) : Catalog :=
  match c.find entry.id with
  | none => if upsert then c.put (entry.file none) else c
  | some file => if registerable entry file then c.put (entry.file file.retainUntil) else c

/-- The filter under which retention claims a file. -/
def claimable (now : Nat) (file : CatalogFile) : Bool :=
  file.status = .ready ∧ file.retainUntil.all fun retainUntil => retainUntil ≤ now

def claimFile (c : Catalog) (id : CatalogId) (now : Nat) : Catalog :=
  match c.find id with
  | none => c
  | some file => if claimable now file then c.put { file with status := .deleting } else c

/-- `delete_many({"path": path, "status": "DELETING"})` -/
def deleteGroup (c : Catalog) (path : String) : Catalog :=
  c.remove fun file => file.path = path ∧ file.status = .deleting

/-- `{"$max": {"retainUntil": until}}` on an `OPEN` or `READY` document. -/
def protectFile (c : Catalog) (id : CatalogId) (executionExpires : Nat) : Catalog :=
  match c.find id with
  | none => c
  | some file =>
    if file.status = .deleting then c
    else
      let retainUntil := max (file.retainUntil.getD executionExpires) executionExpires
      c.put { file with retainUntil := some retainUntil }

/-! ## What each of them does to one document -/

variable {c : Catalog} {id : CatalogId} {entry : CatalogEntry} {file : CatalogFile}

theorem publishEntry_find (c : Catalog) (entry : CatalogEntry) (id : CatalogId) :
    (publishEntry c entry).find id = c.find id ∨
      id = entry.id ∧ (c.find id = none ∧ (publishEntry c entry).find id = some (entry.file none) ∨
        ∃ file, c.find id = some file ∧ (entry.status = .writing → file.status = .writing) ∧
          (publishEntry c entry).find id = some (entry.file file.retainUntil)) := by
  by_cases hid : id = entry.id
  · subst hid
    unfold publishEntry
    split
    next hnone => exact Or.inr ⟨rfl, Or.inl ⟨hnone, Catalog.find_put_self⟩⟩
    next file hfile =>
      split
      next => exact Or.inl rfl
      next hguard =>
        exact Or.inr ⟨rfl, Or.inr ⟨file, hfile, fun he => by tauto, Catalog.find_put_self⟩⟩
  · refine Or.inl ?_
    unfold publishEntry
    split
    · exact Catalog.find_put_ne (Ne.symm hid)
    · split
      · rfl
      · exact Catalog.find_put_ne (Ne.symm hid)

theorem registerEntry_find (c : Catalog) (entry : CatalogEntry) (upsert : Bool) (id : CatalogId) :
    (registerEntry c entry upsert).find id = c.find id ∨
      id = entry.id ∧ (c.find id = none ∧ upsert = true ∧
          (registerEntry c entry upsert).find id = some (entry.file none) ∨
        ∃ file, c.find id = some file ∧ file.status ≠ .deleting ∧
          (registerEntry c entry upsert).find id = some (entry.file file.retainUntil)) := by
  by_cases hid : id = entry.id
  · subst hid
    unfold registerEntry
    split
    next hnone =>
      split
      next hup => exact Or.inr ⟨rfl, Or.inl ⟨hnone, hup, Catalog.find_put_self⟩⟩
      next => exact Or.inl rfl
    next file hfile =>
      split
      next hreg =>
        refine Or.inr ⟨rfl, Or.inr ⟨file, hfile, ?_, Catalog.find_put_self⟩⟩
        intro hdel
        simp [registerable, hdel] at hreg
      next => exact Or.inl rfl
  · refine Or.inl ?_
    unfold registerEntry
    split
    · split
      · exact Catalog.find_put_ne (Ne.symm hid)
      · rfl
    · split
      · exact Catalog.find_put_ne (Ne.symm hid)
      · rfl

theorem claimFile_find_self (c : Catalog) (id : CatalogId) (now : Nat) :
    (claimFile c id now).find id =
    (c.find id).map fun file =>
      if claimable now file then { file with status := .deleting } else file := by
  unfold claimFile
  split
  next hnone => simp [hnone]
  next file hfile =>
    rw [hfile]
    by_cases hclaim : claimable now file = true
    · simp only [hclaim, if_true, Option.map_some]
      exact Catalog.find_put.trans (if_pos (Catalog.find_id hfile))
    · simp only [hclaim, Bool.false_eq_true, if_false, Option.map_some]
      exact hfile

theorem claimFile_find_ne {now : Nat} {other : CatalogId} (h : other ≠ id) :
    (claimFile c id now).find other = c.find other := by
  unfold claimFile
  split
  next => rfl
  next file hfile =>
    have hid := Catalog.find_id hfile
    split
    next => exact Catalog.find_put_ne fun he => h (he.symm.trans hid)
    next => rfl

theorem claimable_ready {now : Nat} (h : claimable now file = true) : file.status = .ready := by
  simp only [claimable, decide_eq_true_eq] at h
  exact h.1

theorem deleteGroup_find (c : Catalog) (path : String) (id : CatalogId) :
    (deleteGroup c path).find id = c.find id ∨
      ∃ file, c.find id = some file ∧ file.status = .deleting ∧ file.path = path ∧
        (deleteGroup c path).find id = none := by
  unfold deleteGroup
  rw [Catalog.find_remove]
  cases hfile : c.find id with
  | none => exact Or.inl rfl
  | some file =>
    by_cases hdel : file.path = path ∧ file.status = .deleting
    · exact Or.inr ⟨file, rfl, hdel.2, hdel.1, by simp [Option.filter, hdel]⟩
    · exact Or.inl (by simp [Option.filter, hdel])

theorem protectFile_find (c : Catalog) (id : CatalogId) (executionExpires : Nat) (other : CatalogId) :
    (protectFile c id executionExpires).find other = c.find other ∨
      other = id ∧ ∃ file until_, c.find id = some file ∧ file.status ≠ .deleting ∧
        executionExpires ≤ until_ ∧ (∀ u, file.retainUntil = some u → u ≤ until_) ∧
        (protectFile c id executionExpires).find other =
          some { file with retainUntil := some until_ } := by
  unfold protectFile
  split
  next => exact Or.inl rfl
  next file hfile =>
    have hid := Catalog.find_id hfile
    split
    next => exact Or.inl rfl
    next hst =>
      by_cases ho : other = id
      · refine Or.inr ⟨ho, file, max (file.retainUntil.getD executionExpires) executionExpires,
          hfile, hst, Nat.le_max_right _ _, ?_, ?_⟩
        · intro u hu
          rw [hu]
          exact Nat.le_max_left _ _
        · rw [ho, ← hid]
          exact Catalog.find_put.trans (if_pos rfl)
      · refine Or.inl (Catalog.find_put_ne ?_)
        exact fun he => ho (he.symm.trans hid)

end CameraLogs.Logs
