import CameraLogs.Common.RecordPurge

/-!
# Rounds of the purge

A round reads its rows, makes a transaction for each and moves the bookmark of its collection.
A transaction that is aborted is tried again; one that raises ends the round, and so does the end
of the process. Between two transactions the lease may go to another owner, and records and what
refers to them may be written.

`PurgeHistory` is what has happened; no act reads it.
-/

namespace CameraLogs.Common

open Lib Administration

variable {β : Type}

/-- What the rounds have done, dry runs apart. -/
structure PurgeHistory where
  /-- The records that were removed, in order. -/
  removed : Growth → List Record
  /-- The rows a transaction was made for, in order. -/
  examined : Growth → List Candidate
  /-- The batch sizes of the rounds that came to their end, and the cutoff of the last of them. -/
  batches : Growth → List Nat
  cutoff : Growth → Option Int
  /-- How often the bookmark was reset. -/
  resets : Growth → Nat

structure PurgeSystem (β : Type) where
  store : PurgeStore β
  /-- The owner of the maintenance lease. -/
  owner : String
  cursors : Growth → Option Candidate
  round : Option PurgeRound
  history : PurgeHistory

inductive PurgeAct where
  | start (collection : Growth) (cutoff batchSize : Int) (owner : String) (dryRun : Bool)
  /-- The next transaction, with the lease unexpired or not. -/
  | transact (unexpired : Bool) (now : Int)
  /-- A transaction that is not committed and will be tried again. -/
  | abort
  | finish (unexpired : Bool)
  /-- The end of the process. -/
  | crash
  | takeover (owner : String)
  /-- What everything else writes. -/
  | write (records : Growth → List Record) (references : References)

/-- The database has one document of each `_id`; the archived fields of audit records are texts
and times. -/
def Writable (records : Growth → List Record) : Prop :=
  (∀ collection, ((records collection).map Record.id).Nodup) ∧
    ∀ record ∈ records .audit, ∀ key ∈ ARCHIVE_FIELDS, (record.document.get key).plain = true

variable (codec : Codec β)

/-- The round's query; an owner that has lost the lease finds no bookmark. -/
def startRound (s : PurgeSystem β) (collection : Growth) (cutoff batchSize : Int) (owner : String)
    (dryRun : Bool) : PurgeRound :=
  let bookmark := if owner = s.owner then s.cursors collection else none
  let rows := findRows (s.store.records collection) cutoff bookmark (clampBatch batchSize)
  { collection, cutoff, owner, batchSize := clampBatch batchSize, dryRun, rows, todo := rows
    removed := 0, kept := 0 }

/-- One entry of a family. -/
def setAt {α : Type} (family : Growth → α) (collection : Growth) (x : α) : Growth → α :=
  fun collection' => if collection' = collection then x else family collection'

@[simp] theorem setAt_self {α : Type} (family : Growth → α) (collection : Growth) (x : α) :
    setAt family collection x collection = x := if_pos rfl

@[simp] theorem setAt_other {α : Type} (family : Growth → α) {collection collection' : Growth}
    (x : α) (h : collection' ≠ collection) : setAt family collection x collection' =
      family collection' := if_neg h

def noteExamined (history : PurgeHistory) (collection : Growth) (row : Candidate)
    (removed : Option Record) : PurgeHistory :=
  { history with
    examined := setAt history.examined collection (history.examined collection ++ [row])
    removed := setAt history.removed collection (history.removed collection ++ removed.toList) }

/-- The round behind a transaction. -/
def stepRound (round : PurgeRound) (rest : List Candidate) (removed : Bool) : PurgeRound :=
  { round with
    todo := rest
    removed := round.removed + removed.toNat
    kept := round.kept + (!removed).toNat }

def transactRow (s : PurgeSystem β) (round : PurgeRound) (row : Candidate)
    (rest : List Candidate) (unexpired : Bool) (now : Int) : PurgeSystem β :=
  match commit codec s.store round row (round.owner = s.owner && unexpired) now with
  | .error _ => { s with round := none }
  | .ok (store, removed) =>
    { s with
      store
      round := some (stepRound round rest removed.isSome)
      history := if round.dryRun then s.history
        else noteExamined s.history round.collection row removed }

def noteFinished (history : PurgeHistory) (round : PurgeRound) (reset : Bool) : PurgeHistory :=
  { history with
    batches := setAt history.batches round.collection
      (history.batches round.collection ++ [round.batchSize])
    cutoff := setAt history.cutoff round.collection (some round.cutoff)
    resets := setAt history.resets round.collection
      (history.resets round.collection + reset.toNat) }

/-- The bookmark behind the round. -/
def nextBookmark (round : PurgeRound) : Option Candidate :=
  if round.rows.length = round.batchSize then round.rows.getLast? else none

def moveBookmark (s : PurgeSystem β) (round : PurgeRound) : PurgeSystem β :=
  { s with
    cursors := setAt s.cursors round.collection (nextBookmark round)
    round := none
    history := noteFinished s.history round (nextBookmark round).isNone }

def finishRound (s : PurgeSystem β) (round : PurgeRound) (unexpired : Bool) : PurgeSystem β :=
  if round.dryRun then { s with round := none }
  else if round.owner = s.owner ∧ unexpired then moveBookmark s round
  else { s with round := none, history := noteFinished s.history round false }

/-- The state behind an act, if it is possible. -/
def PurgeAct.apply : PurgeAct → PurgeSystem β → Option (PurgeSystem β)
  | .start collection cutoff batchSize owner dryRun, s =>
    match s.round with
    | some _ => none
    | none => some { s with
        round := some (startRound s collection cutoff batchSize owner dryRun) }
  | .transact unexpired now, s =>
    match s.round with
    | none => none
    | some round =>
      match round.todo with
      | [] => none
      | row :: rest => some (transactRow codec s round row rest unexpired now)
  | .abort, s => some s
  | .finish unexpired, s =>
    match s.round with
    | none => none
    | some round => if round.todo = [] then some (finishRound s round unexpired) else none
  | .crash, s => some { s with round := none }
  | .takeover owner, s => some { s with owner }
  | .write records references, s =>
    some { s with store := { s.store with records, references } }

end CameraLogs.Common
