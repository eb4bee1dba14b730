import CameraLogs.Lib.InFlight
import CameraLogs.Lib.Run
import CameraLogs.Logs.JobSubmission
import Mathlib.Data.Option.Basic

/-!
# Retention

A pass of `apply_retention` goes over the documents of its node that are old enough or
already `DELETING`. For each it reads the group, the documents that share its archive, and
checks every one of them; then it claims the `READY` ones, one update each; then it reads
the group once more, and only where all of it is `DELETING` it unlinks the archive and
deletes the documents. Any number of passes run beside submissions and the ends of jobs, and
every read and every update is a step of its own.

`attempt` numbers the groups a pass has taken up. What is claimed, with the protection the
claim has found, and which attempts have given up because a claim did not succeed, is
remembered; nothing reads it.
-/

namespace CameraLogs.Logs

open CameraLogs.Lib

abbrev PassId := Nat

structure Attempt where
  pass : PassId
  number : Nat
  deriving DecidableEq

structure RetentionClaim where
  attempt : Attempt
  id : CatalogId
  path : String
  retainUntil : Option Nat
  now : Nat
  deriving DecidableEq

structure RetentionStore where
  files : Catalog
  claims : List RetentionClaim

inductive RetentionUpdate
  | claim (attempt : Attempt) (id : CatalogId) (now : Nat)
  | delete (path : String)
  deriving DecidableEq

/-- The claim of a document, if it is made. -/
def RetentionStore.claim? (store : RetentionStore) (attempt : Attempt) (id : CatalogId)
    (now : Nat) : Option RetentionClaim := do
  let file ← store.files.find id
  if claimable now file then
    return { attempt, id, path := file.path, retainUntil := file.retainUntil, now }
  else none

def RetentionUpdate.apply : RetentionUpdate → RetentionStore → RetentionStore
  | .claim attempt id now, store =>
    { files := claimFile store.files id now
      claims := (store.claim? attempt id now).toList ++ store.claims }
  | .delete path, store => { store with files := deleteGroup store.files path }

/-- What a pass is given: its node, the time before which an hour is old enough, and, for the
cleaning of a development server, the documents it is confined to. -/
structure RetentionRules where
  nodeId : String
  cutoff : Nat
  development : Option (List CatalogId)
  deriving DecidableEq

inductive PassStage
  | scanning
  | reading (path : String)
  | checking (path : String) (group rest : List CatalogFile)
  | claiming (path : String) (rest : List CatalogFile)
  | rereading (path : String)
  | unlinking (path : String)
  | deleting (path : String)
  | over
  deriving DecidableEq

structure RetentionPass where
  rules : RetentionRules
  /-- The paths of the documents the cursor has fetched. -/
  fetched : List String
  number : Nat
  stage : PassStage
  deriving DecidableEq

structure RetentionState where
  db : InFlight RetentionStore RetentionUpdate
  jobs : List LogJob
  clock : Nat
  passes : PassId → Option RetentionPass
  unlinked : String → Bool
  gaveUp : List Attempt

/-- The query of a pass. -/
def RetentionRules.selects (rules : RetentionRules) (file : CatalogFile) : Bool :=
  file.owner.nodeId = rules.nodeId ∧
    (file.status = .ready ∧ file.hour < rules.cutoff ∨ file.status = .deleting) ∧
    rules.development.all fun ids => file.id ∈ ids

/-- The check of one member; `retired` is whether its task has been stopped for good, and
`active` whether a job that still runs has frozen it. -/
def RetentionRules.eligible (rules : RetentionRules) (retired active : Bool) (now : Nat)
    (file : CatalogFile) : Bool :=
  (rules.development.all fun ids => file.id ∈ ids && retired) ∧
    file.owner.nodeId = rules.nodeId ∧ file.status ≠ .writing ∧
    (file.status = .ready → file.hour < rules.cutoff ∧
      (file.retainUntil.all fun retainUntil => retainUntil ≤ now) ∧ !active)

def frozenByActive (jobs : List LogJob) (id : CatalogId) : Bool :=
  jobs.any fun job => job.status.active && job.files.any fun file => file.id = id

/-- The claims a group still needs. -/
def claimStage (path : String) : List CatalogFile → PassStage
  | [] => .rereading path
  | file :: rest => .claiming path (file :: rest)

/-- The checks a group still needs. -/
def checkStage (path : String) (group : List CatalogFile) : List CatalogFile → PassStage
  | [] => claimStage path (group.filter fun file => file.status = .ready)
  | file :: rest => .checking path group (file :: rest)

/-- A group without documents is skipped. -/
def groupStage (path : String) : List CatalogFile → PassStage
  | [] => .scanning
  | file :: rest => checkStage path (file :: rest) (file :: rest)

inductive RetentionAct
  | tick
  | submit (id : JobId) (taskId nodeId : String) (body : JobBody) (archiveSize timestamp : Nat)
  | settle (id : JobId) (status : JobStatus)
  | start (p : PassId) (rules : RetentionRules)
  | fetch (p : PassId) (id : CatalogId)
  | next (p : PassId) (pending : Bool)
  | read (p : PassId)
  | check (p : PassId) (now : Nat) (retired : Bool)
  | claim (p : PassId) (now : Nat) (o : Outcome)
  | reread (p : PassId)
  | unlink (p : PassId)
  | delete (p : PassId) (o : Outcome)
  | fail (p : PassId)
  | abort (p : PassId)
  | land (index : Nat)
  deriving DecidableEq

namespace RetentionState

def setPass (s : RetentionState) (p : PassId) (pass : RetentionPass) : RetentionState :=
  { s with passes := Function.update s.passes p (some pass) }

def setStage (s : RetentionState) (p : PassId) (pass : RetentionPass) (stage : PassStage) :
    RetentionState :=
  s.setPass p { pass with stage }

def send (s : RetentionState) (update : RetentionUpdate) (o : Outcome) : RetentionState :=
  { s with db := InFlight.send RetentionUpdate.apply update o s.db }

end RetentionState

def RetentionPass.attempt (pass : RetentionPass) (p : PassId) : Attempt := ⟨p, pass.number⟩

/-- A submission whose transaction commits. -/
def submitAct (id : JobId) (taskId nodeId : String) (body : JobBody) (archiveSize timestamp : Nat)
    (s : RetentionState) : Option RetentionState := do
  guard (timestamp ≤ s.clock)
  match submitJob s.db.store.files id taskId nodeId body archiveSize timestamp with
  | .ok (files, job) =>
    let store := { s.db.store with files }
    return { s with db := { s.db with store }, jobs := job :: s.jobs }
  | .error _ => none

/-- A job gets its terminal status. -/
def settleAct (id : JobId) (status : JobStatus) (s : RetentionState) : Option RetentionState := do
  guard (!status.active)
  let settle (job : LogJob) : LogJob :=
    if job.id = id ∧ job.status.active then { job with status } else job
  return { s with jobs := s.jobs.map settle }

def startAct (p : PassId) (rules : RetentionRules) (s : RetentionState) :
    Option RetentionState := do
  guard (s.passes p = none)
  return s.setPass p { rules, fetched := [], number := 0, stage := .scanning }

/-- The cursor of the pass fetches a document. -/
def fetchAct (p : PassId) (id : CatalogId) (s : RetentionState) : Option RetentionState := do
  let pass ← s.passes p
  let file ← s.db.store.files.find id
  guard (pass.stage = .scanning ∧ pass.rules.selects file)
  return s.setPass p { pass with fetched := pass.fetched ++ [file.path] }

/-- The next document; it is skipped while a sidecar says that its archive is pending. -/
def nextAct (p : PassId) (pending : Bool) (s : RetentionState) : Option RetentionState := do
  let pass ← s.passes p
  match pass.stage, pass.fetched with
  | .scanning, path :: fetched =>
    let stage := if pending then .scanning else .reading path
    return s.setPass p { pass with fetched, stage }
  | _, _ => none

def readAct (p : PassId) (s : RetentionState) : Option RetentionState := do
  let pass ← s.passes p
  match pass.stage with
  | .reading path =>
    let stage := groupStage path (s.db.store.files.group path)
    return s.setPass p { pass with number := pass.number + 1, stage }
  | _ => none

def checkAct (p : PassId) (now : Nat) (retired : Bool) (s : RetentionState) :
    Option RetentionState := do
  let pass ← s.passes p
  guard (now ≤ s.clock)
  match pass.stage with
  | .checking path group (file :: rest) =>
    let eligible := pass.rules.eligible retired (frozenByActive s.jobs file.id) now file
    return s.setStage p pass (if eligible then checkStage path group rest else .scanning)
  | _ => none

/-- One claim. The attempt gives up where the document is not to be claimed, and the pass is
over where the call raises. -/
def claimAct (p : PassId) (now : Nat) (o : Outcome) (s : RetentionState) :
    Option RetentionState := do
  let pass ← s.passes p
  guard (now ≤ s.clock)
  match pass.stage with
  | .claiming path (file :: rest) =>
    let attempt := pass.attempt p
    let sent := s.send (.claim attempt file.id now) o
    match o, s.db.store.claim? attempt file.id now with
    | .performed, some _ => return sent.setStage p pass (claimStage path rest)
    | .performed, none =>
      let sent := sent.setStage p pass .scanning
      return { sent with gaveUp := attempt :: s.gaveUp }
    | .lost, _ =>
      let sent := sent.setStage p pass .over
      return { sent with gaveUp := attempt :: s.gaveUp }
  | _ => none

def rereadAct (p : PassId) (s : RetentionState) : Option RetentionState := do
  let pass ← s.passes p
  match pass.stage with
  | .rereading path =>
    let group := s.db.store.files.group path
    let gone := group ≠ [] ∧ ∀ file ∈ group, file.status = .deleting
    return s.setStage p pass (if gone then .unlinking path else .scanning)
  | _ => none

def unlinkAct (p : PassId) (s : RetentionState) : Option RetentionState := do
  let pass ← s.passes p
  match pass.stage with
  | .unlinking path =>
    let s := s.setStage p pass (.deleting path)
    return { s with unlinked := Function.update s.unlinked path true }
  | _ => none

def deleteAct (p : PassId) (o : Outcome) (s : RetentionState) : Option RetentionState := do
  let pass ← s.passes p
  match pass.stage with
  | .deleting path => return (s.send (.delete path) o).setStage p pass .scanning
  | _ => none

/-- An archive or a sidecar cannot be unlinked; the pass goes on. -/
def failAct (p : PassId) (s : RetentionState) : Option RetentionState := do
  let pass ← s.passes p
  match pass.stage with
  | .unlinking _ | .deleting _ => return s.setStage p pass .scanning
  | _ => none

/-- The pass ends, or its process. -/
def abortAct (p : PassId) (s : RetentionState) : Option RetentionState := do
  let pass ← s.passes p
  return s.setStage p pass .over

def RetentionAct.apply : RetentionAct → RetentionState → Option RetentionState
  | .tick, s => some { s with clock := s.clock + 1 }
  | .submit id taskId nodeId body archiveSize timestamp, s =>
    submitAct id taskId nodeId body archiveSize timestamp s
  | .settle id status, s => settleAct id status s
  | .start p rules, s => startAct p rules s
  | .fetch p id, s => fetchAct p id s
  | .next p pending, s => nextAct p pending s
  | .read p, s => readAct p s
  | .check p now retired, s => checkAct p now retired s
  | .claim p now o, s => claimAct p now o s
  | .reread p, s => rereadAct p s
  | .unlink p, s => unlinkAct p s
  | .delete p o, s => deleteAct p o s
  | .fail p, s => failAct p s
  | .abort p, s => abortAct p s
  | .land index, s => (InFlight.land RetentionUpdate.apply index s.db).map fun db => { s with db }

/-- Any documents that no pass has claimed, before the first pass and the first job. -/
structure RetentionInitial (s : RetentionState) : Prop where
  unclaimed : ∀ id file, s.db.store.files.find id = some file → file.status ≠ .deleting
  claims : s.db.store.claims = []
  late : s.db.late = []
  jobs : s.jobs = []
  passes : ∀ p, s.passes p = none
  unlinked : ∀ path, s.unlinked path = false
  gaveUp : s.gaveUp = []

def RetentionStep (s t : RetentionState) : Prop := ∃ act : RetentionAct, act.apply s = some t

/-! ## What a step can do -/

/-- No group is taken up. -/
def PassStage.waiting : PassStage → Bool
  | .scanning | .reading _ | .over => true
  | _ => false

variable {s t : RetentionState} {p : PassId} {path : String}

/-- A pass goes on without touching a document or an archive. -/
structure Moves (s : RetentionState) (p : PassId) (pass : RetentionPass) : Prop where
  unlinking : ∀ path, pass.stage ≠ .unlinking path
  number : ∀ old, s.passes p = some old → old.number < pass.number ∨
    old.number = pass.number ∧ (old.stage.waiting = true → pass.stage.waiting = true)

/-- Neither a claim nor an update that is applied late. -/
def RetentionAct.claimFree : RetentionAct → Bool
  | .claim .. | .land _ => false
  | _ => true

inductive RetentionEffect (s : RetentionState) : RetentionAct → RetentionState → Prop
  | ticked : RetentionEffect s .tick { s with clock := s.clock + 1 }
  | submitted {id taskId nodeId body archiveSize timestamp files job}
      (h : submitJob s.db.store.files id taskId nodeId body archiveSize timestamp = .ok (files, job)) :
      RetentionEffect s (.submit id taskId nodeId body archiveSize timestamp)
        { s with db := { s.db with store := { s.db.store with files } }, jobs := job :: s.jobs }
  | settled {id status} (jobs : List LogJob)
      (hjobs : ∀ job ∈ jobs, ∃ old ∈ s.jobs, old.files = job.files ∧
        old.executionExpires = job.executionExpires) :
      RetentionEffect s (.settle id status) { s with jobs }
  | moved {act} (p : PassId) (pass : RetentionPass) (hact : act.claimFree = true)
      (h : Moves s p pass) :
      RetentionEffect s act (s.setPass p pass)
  | claimed {p now pass path file rest claim} (hpass : s.passes p = some pass)
      (hstage : pass.stage = .claiming path (file :: rest)) (hnow : now ≤ s.clock)
      (hclaim : s.db.store.claim? (pass.attempt p) file.id now = some claim) :
      RetentionEffect s (.claim p now .performed)
        ((s.send (.claim (pass.attempt p) file.id now) .performed).setStage p pass
          (claimStage path rest))
  | refused {p now pass path file rest} (hpass : s.passes p = some pass)
      (hstage : pass.stage = .claiming path (file :: rest)) (hnow : now ≤ s.clock)
      (hclaim : s.db.store.claim? (pass.attempt p) file.id now = none) :
      RetentionEffect s (.claim p now .performed)
        { (s.send (.claim (pass.attempt p) file.id now) .performed).setStage p pass .scanning with
          gaveUp := pass.attempt p :: s.gaveUp }
  | raised {p now pass path file rest} (hpass : s.passes p = some pass)
      (hstage : pass.stage = .claiming path (file :: rest)) (hnow : now ≤ s.clock) :
      RetentionEffect s (.claim p now .lost)
        { (s.send (.claim (pass.attempt p) file.id now) .lost).setStage p pass .over with
          gaveUp := pass.attempt p :: s.gaveUp }
  | confirmed {p pass path} (hpass : s.passes p = some pass)
      (hstage : pass.stage = .rereading path)
      (hall : ∀ file ∈ s.db.store.files.group path, file.status = .deleting) :
      RetentionEffect s (.reread p) (s.setStage p pass (.unlinking path))
  | unlinked {p pass path} (hpass : s.passes p = some pass)
      (hstage : pass.stage = .unlinking path) :
      RetentionEffect s (.unlink p)
        { s.setStage p pass (.deleting path) with
          unlinked := Function.update s.unlinked path true }
  | deleted {p pass path o} (hpass : s.passes p = some pass)
      (hstage : pass.stage = .deleting path) :
      RetentionEffect s (.delete p o) ((s.send (.delete path) o).setStage p pass .scanning)
  | landed {index update} (hu : s.db.late[index]? = some update) :
      RetentionEffect s (.land index)
        { s with db := ⟨update.apply s.db.store, s.db.late.eraseIdx index⟩ }

theorem claimStage_ne (path path' : String) (rest : List CatalogFile) :
    claimStage path rest ≠ .unlinking path' := by
  cases rest <;> exact nofun

theorem checkStage_ne (path path' : String) (group rest : List CatalogFile) :
    checkStage path group rest ≠ .unlinking path' := by
  cases rest with
  | nil => exact claimStage_ne path path' _
  | cons file rest => exact nofun

theorem groupStage_ne (path path' : String) (group : List CatalogFile) :
    groupStage path group ≠ .unlinking path' := by
  cases group with
  | nil => exact nofun
  | cons file rest => exact checkStage_ne path path' (file :: rest) (file :: rest)

/-- A pass in the middle of a group may go to any stage but the last ones. -/
theorem moves_of_taken {pass : RetentionPass} {stage : PassStage} (hpass : s.passes p = some pass)
    (htaken : pass.stage.waiting = false) (hne : ∀ path, stage ≠ .unlinking path) :
    Moves s p { pass with stage } where
  unlinking := hne
  number := by
    intro old hold
    rw [hpass, Option.some.injEq] at hold
    subst hold
    exact Or.inr ⟨rfl, fun hw => by rw [htaken] at hw; cases hw⟩

theorem moves_of_waiting {pass pass' : RetentionPass} (hpass : s.passes p = some pass)
    (hnumber : pass'.number = pass.number) (hwaiting : pass'.stage.waiting = true) :
    Moves s p pass' where
  unlinking := fun path h => by rw [h] at hwaiting; cases hwaiting
  number := by
    intro old hold
    rw [hpass, Option.some.injEq] at hold
    subst hold
    exact Or.inr ⟨hnumber.symm, fun _ => hwaiting⟩

theorem RetentionAct.effect {act : RetentionAct} (h : act.apply s = some t) :
    RetentionEffect s act t := by
  cases act with
  | tick =>
    cases h
    exact .ticked
  | submit id taskId nodeId body archiveSize timestamp =>
    simp only [RetentionAct.apply, submitAct, bind, Option.bind_eq_some_iff] at h
    obtain ⟨_, -, h⟩ := h
    split at h
    next hok =>
      cases h
      exact .submitted hok
    next => cases h
  | settle id status =>
    simp only [RetentionAct.apply, settleAct, bind, Option.bind_eq_some_iff] at h
    obtain ⟨_, -, h⟩ := h
    cases h
    refine .settled _ fun job hjob => ?_
    obtain ⟨old, hold, rfl⟩ := List.mem_map.mp hjob
    refine ⟨old, hold, ?_⟩
    split <;> exact ⟨rfl, rfl⟩
  | start p rules =>
    simp only [RetentionAct.apply, startAct, bind, Option.bind_eq_some_iff] at h
    obtain ⟨_, hg, h⟩ := h
    cases h
    have hnone : s.passes p = none := by
      by_contra hne
      simp [hne] at hg
    exact .moved p _ rfl ⟨fun _ h => (by cases h), fun old hold => by rw [hnone] at hold; cases hold⟩
  | fetch p id =>
    simp only [RetentionAct.apply, fetchAct, bind, Option.bind_eq_some_iff] at h
    obtain ⟨pass, hpass, file, -, _, hg, h⟩ := h
    cases h
    have hstage : pass.stage = .scanning := by
      by_contra hne
      simp [hne] at hg
    refine .moved p _ rfl (moves_of_waiting hpass rfl ?_)
    show pass.stage.waiting = true
    rw [hstage]
    rfl
  | next p pending =>
    simp only [RetentionAct.apply, nextAct, bind, Option.bind_eq_some_iff] at h
    obtain ⟨pass, hpass, h⟩ := h
    split at h
    next =>
      cases h
      exact .moved p _ rfl (moves_of_waiting hpass rfl (by cases pending <;> rfl))
    next => cases h
  | read p =>
    simp only [RetentionAct.apply, readAct, bind, Option.bind_eq_some_iff] at h
    obtain ⟨pass, hpass, h⟩ := h
    split at h
    next path _ =>
      cases h
      refine .moved p _ rfl ⟨fun path' => groupStage_ne path path' _, fun old hold => Or.inl ?_⟩
      rw [hpass, Option.some.injEq] at hold
      subst hold
      exact Nat.lt_succ_self _
    next => cases h
  | check p now retired =>
    simp only [RetentionAct.apply, checkAct, bind, Option.bind_eq_some_iff] at h
    obtain ⟨pass, hpass, _, -, h⟩ := h
    split at h
    next path group file rest hstage =>
      cases h
      refine .moved p _ rfl (moves_of_taken hpass (by rw [hstage]; rfl) fun path' => ?_)
      split
      · exact checkStage_ne path path' group rest
      · exact fun h => by cases h
    next => cases h
  | claim p now o =>
    simp only [RetentionAct.apply, claimAct, bind, Option.bind_eq_some_iff] at h
    obtain ⟨pass, hpass, _, hg, h⟩ := h
    have hnow : now ≤ s.clock := by
      by_contra hne
      simp [hne] at hg
    split at h
    next path file rest hstage =>
      split at h
      next hclaim =>
        cases h
        exact .claimed hpass hstage hnow hclaim
      next hclaim =>
        cases h
        exact .refused hpass hstage hnow hclaim
      next =>
        cases h
        exact .raised hpass hstage hnow
    next => cases h
  | reread p =>
    simp only [RetentionAct.apply, rereadAct, bind, Option.bind_eq_some_iff] at h
    obtain ⟨pass, hpass, h⟩ := h
    split at h
    next path hstage =>
      cases h
      split
      next hgone => exact .confirmed hpass hstage hgone.2
      next =>
        exact .moved p _ rfl (moves_of_taken hpass (by rw [hstage]; rfl) fun _ h => by cases h)
    next => cases h
  | unlink p =>
    simp only [RetentionAct.apply, unlinkAct, bind, Option.bind_eq_some_iff] at h
    obtain ⟨pass, hpass, h⟩ := h
    split at h
    next path hstage =>
      cases h
      exact .unlinked hpass hstage
    next => cases h
  | delete p o =>
    simp only [RetentionAct.apply, deleteAct, bind, Option.bind_eq_some_iff] at h
    obtain ⟨pass, hpass, h⟩ := h
    split at h
    next path hstage =>
      cases h
      exact .deleted hpass hstage
    next => cases h
  | fail p =>
    simp only [RetentionAct.apply, failAct, bind, Option.bind_eq_some_iff] at h
    obtain ⟨pass, hpass, h⟩ := h
    split at h
    next hstage =>
      cases h
      exact .moved p _ rfl (moves_of_taken hpass (by rw [hstage]; rfl) fun _ h => by cases h)
    next hstage =>
      cases h
      exact .moved p _ rfl (moves_of_taken hpass (by rw [hstage]; rfl) fun _ h => by cases h)
    next => cases h
  | abort p =>
    simp only [RetentionAct.apply, abortAct, bind, Option.bind_eq_some_iff] at h
    obtain ⟨pass, hpass, h⟩ := h
    cases h
    exact .moved p _ rfl (moves_of_waiting hpass rfl rfl)
  | land index =>
    obtain ⟨db, hdb, rfl⟩ := Option.map_eq_some_iff.mp h
    obtain ⟨update, hu, rfl⟩ := InFlight.land_eq_some.mp hdb
    exact .landed hu

end CameraLogs.Logs
