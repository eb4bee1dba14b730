import CameraLogs.Logs.Catalog

/-!
# Submitting a download or a search

`submit_job` reads the documents a request selects, protects each that is `OPEN` or `READY`
until the job can no longer run, and stores the job with a copy of all of them, in one
transaction. A document that is being deleted is passed over, which only a download that
allows partial results may do.

The replay of an idempotent request, the audit and the texts of the answers are left out.
-/

namespace CameraLogs.Logs

open CameraLogs.Lib

abbrev JobId := Nat

inductive JobStatus
  | queued
  | running
  | succeeded
  | failed
  | cancelled
  | expired
  deriving DecidableEq

/-- `QUEUED` or `RUNNING` -/
def JobStatus.active : JobStatus → Bool
  | .queued | .running => true
  | _ => false

inductive JobBody
  | download (hourIds : List Nat) (allowPartial : Bool)
  | search (first last : Nat)
  deriving DecidableEq

/-- The condition of `_file_query` on the hour of a document. -/
def JobBody.selects : JobBody → Nat → Bool
  | .download hourIds _, hour => hour ∈ hourIds
  | .search first last, hour => first ≤ hour ∧ hour ≤ last

structure LogJob where
  id : JobId
  taskId : String
  nodeId : String
  body : JobBody
  status : JobStatus
  files : List CatalogFile
  executionExpires : Nat
  deriving DecidableEq

inductive SubmitError
  | noFiles
  | unavailable
  | missingHours
  | tooLarge
  | beingCleaned
  deriving DecidableEq

/-- `_validate_files`; `archiveSize` is the estimate it makes of the size of the download. -/
def validateFiles (files : List CatalogFile) (archiveSize : Nat) :
    JobBody → Except SubmitError Unit
  | .download hourIds allowPartial =>
    if files = [] then .error .noFiles
    else if !allowPartial && files.any (fun file => file.status = .deleting) then
      .error .unavailable
    else if !allowPartial && hourIds.any (fun hour => hour ∉ files.map CatalogFile.hour) then
      .error .missingHours
    else if 20000000000 < archiveSize then .error .tooLarge
    else .ok ()
  | .search _ _ =>
    if files = [] then .error .noFiles
    else if files.any (fun file => file.status = .deleting) then .error .unavailable
    else .ok ()

/-- The loop of `submit_job` over the files. -/
def protectFiles (executionExpires : Nat) : List CatalogFile → Catalog → Except SubmitError Catalog
  | [], c => .ok c
  | file :: files, c =>
    if file.status = .deleting then protectFiles executionExpires files c
    else if (c.find file.id).any (fun document => document.status ≠ .deleting) then
      protectFiles executionExpires files (protectFile c file.id executionExpires)
    else .error .beingCleaned

/-- Twenty-four hours. -/
def executionSeconds : Nat := 86400

/-- The transaction of `submit_job`, for a job of the node of the task, or of the first file. -/
def submitJob (c : Catalog) (id : JobId) (taskId nodeId : String) (body : JobBody)
    (archiveSize timestamp : Nat) : Except SubmitError (Catalog × LogJob) := do
  let files := c.files.filter fun file => file.owner.taskId = taskId ∧ body.selects file.hour
  validateFiles files archiveSize body
  let executionExpires := timestamp + executionSeconds
  let c ← protectFiles executionExpires files c
  return (c, { id, taskId, nodeId, body, status := .queued, files, executionExpires })

/-! ## What a submission does to the documents -/

variable {c c' c'' : Catalog} {id : CatalogId} {file : CatalogFile} {files : List CatalogFile}
  {executionExpires : Nat}

/-- `c'` is `c` with some documents protected for longer. -/
structure Protects (c c' : Catalog) : Prop where
  none : ∀ id, c.find id = none → c'.find id = none
  some : ∀ id file, c.find id = some file → ∃ retainUntil,
    c'.find id = some { file with retainUntil } ∧
      ∀ u, file.retainUntil = some u → ∃ u', retainUntil = some u' ∧ u ≤ u'

theorem protects_refl (c : Catalog) : Protects c c where
  none := fun _ h => h
  some := fun _ file h => ⟨file.retainUntil, h, fun u hu => ⟨u, hu, Nat.le_refl u⟩⟩

theorem Protects.trans (h : Protects c c') (h' : Protects c' c'') : Protects c c'' where
  none := fun id hid => h'.none id (h.none id hid)
  some := by
    intro id file hf
    obtain ⟨r, hr, hle⟩ := h.some id file hf
    obtain ⟨r', hr', hle'⟩ := h'.some id _ hr
    refine ⟨r', hr', fun u hu => ?_⟩
    obtain ⟨v, hv, huv⟩ := hle u hu
    obtain ⟨w, hw, hvw⟩ := hle' v hv
    exact ⟨w, hw, by omega⟩

theorem protects_protectFile (c : Catalog) (id : CatalogId) (executionExpires : Nat) :
    Protects c (protectFile c id executionExpires) where
  none := by
    intro other hnone
    rcases protectFile_find c id executionExpires other with hsame | ⟨rfl, file, _, hf, -⟩
    · exact hsame.trans hnone
    · rw [hnone] at hf
      cases hf
  some := by
    intro other file hf
    rcases protectFile_find c id executionExpires other with
      hsame | ⟨rfl, file', u, hf', -, -, hle, hfind⟩
    · exact ⟨file.retainUntil, hsame.trans hf, fun u hu => ⟨u, hu, Nat.le_refl u⟩⟩
    · rw [hf, Option.some.injEq] at hf'
      subst hf'
      exact ⟨some u, hfind, fun w hw => ⟨u, rfl, hle w hw⟩⟩

/-- A document that is there and that no one may claim before `executionExpires`. -/
def ProtectedUntil (c : Catalog) (file : CatalogFile) (executionExpires : Nat) : Prop :=
  ∃ u, c.find file.id = some { file with retainUntil := some u } ∧ executionExpires ≤ u

theorem Protects.protectedUntil (h : Protects c c') (hp : ProtectedUntil c file executionExpires) :
    ProtectedUntil c' file executionExpires := by
  obtain ⟨u, hfind, hle⟩ := hp
  obtain ⟨r, hr, hkeep⟩ := h.some _ _ hfind
  obtain ⟨u', rfl, hle'⟩ := hkeep u rfl
  exact ⟨u', hr, by omega⟩

theorem protectFile_protectedUntil {r : Option Nat}
    (h : c.find file.id = some { file with retainUntil := r }) (hst : file.status ≠ .deleting) :
    ProtectedUntil (protectFile c file.id executionExpires) file executionExpires := by
  unfold ProtectedUntil protectFile
  simp only [h]
  rw [if_neg hst]
  exact ⟨_, Catalog.find_put_self, Nat.le_max_right _ _⟩

/-- Every file of the loop that was not being deleted is protected in the end. -/
theorem protectFiles_ok (h : protectFiles executionExpires files c = .ok c') :
    Protects c c' ∧ ∀ file ∈ files, file.status ≠ .deleting →
      (∃ r, c.find file.id = some { file with retainUntil := r }) →
        ProtectedUntil c' file executionExpires := by
  induction files generalizing c with
  | nil =>
    cases h
    exact ⟨protects_refl _, fun file hf => by cases hf⟩
  | cons head files ih =>
    unfold protectFiles at h
    split at h
    next hdel =>
      obtain ⟨hprotects, hall⟩ := ih h
      refine ⟨hprotects, fun file hf hst => ?_⟩
      rcases List.mem_cons.mp hf with rfl | hf
      · exact absurd hdel hst
      · exact hall file hf hst
    next =>
      split at h
      next =>
        obtain ⟨hprotects, hall⟩ := ih h
        have hhead := protects_protectFile c head.id executionExpires
        refine ⟨hhead.trans hprotects, fun file hf hst hfind => ?_⟩
        obtain ⟨r, hr⟩ := hfind
        rcases List.mem_cons.mp hf with rfl | hf
        · exact hprotects.protectedUntil (protectFile_protectedUntil hr hst)
        · -- the head may have been this very file, with another protection
          obtain ⟨r', hr', -⟩ := hhead.some _ _ hr
          exact hall file hf hst ⟨r', hr'⟩
      next => cases h

variable {jobId : JobId} {taskId nodeId : String} {body : JobBody} {archiveSize timestamp : Nat}
  {job : LogJob}

/-- What a committed submission leaves: its files are those of the catalog it has read, and
those that were not being deleted are protected until the job expires. -/
theorem submitJob_ok
    (h : submitJob c jobId taskId nodeId body archiveSize timestamp = .ok (c', job)) :
    Protects c c' ∧ (∀ file ∈ job.files, c.find file.id = some file) ∧
      job.executionExpires = timestamp + executionSeconds ∧
      ∀ file ∈ job.files, file.status ≠ .deleting →
        ProtectedUntil c' file job.executionExpires := by
  unfold submitJob at h
  simp only [bind, Except.bind] at h
  split at h
  next => cases h
  split at h
  next => cases h
  next c₁ hc₁ =>
    cases h
    obtain ⟨hprotects, hall⟩ := protectFiles_ok hc₁
    have hread : ∀ file ∈ c.files.filter
        (fun file => file.owner.taskId = taskId ∧ body.selects file.hour),
        c.find file.id = some file := by
      intro file hf
      exact Catalog.find_eq_some.mpr ⟨(List.mem_filter.mp hf).1, rfl⟩
    exact ⟨hprotects, hread, rfl,
      fun file hf hst => hall file hf hst ⟨file.retainUntil, hread file hf⟩⟩

end CameraLogs.Logs
