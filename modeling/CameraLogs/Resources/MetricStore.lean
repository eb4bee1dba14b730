import CameraLogs.Lib.Dict
import CameraLogs.Lib.Run
import Mathlib.Data.List.Sort
import Mathlib.Data.Int.Order.Basic

/-!
# The hourly store of resource metrics

Samples of a resource are kept in one document an hour, one sample a minute: a sample
overwrites what is stored of its minute unless that is later. A save reads the document,
works out the new list and writes it if the revision is still the one it read; otherwise it
tries again, five times in all. Saves of several callers interleave.

The history of a range goes through the documents from the latest on and hands out pages.
Instants are microseconds of UTC, and the store keeps milliseconds of them.
-/

namespace CameraLogs.Resources

open CameraLogs.Lib

def MINUTE_MICROS : Int := 60000000
def HOUR_MICROS : Int := 3600000000

/-- `_bucket_start`: the instant with minute, second and microsecond zero. -/
def bucketStart (value : Int) : Int := value - value % HOUR_MICROS

/-- `_minute_key`: the minutes are numbered, as the key spells them out. -/
def minuteKey (value : Int) : Int := value / MINUTE_MICROS

/-- An instant as a document keeps it. -/
def storedTime (value : Int) : Int := value - value % 1000

structure MetricSample (ν : Type) where
  sampledAt : Int
  fields : List (String × ν)
  deriving DecidableEq

/-- An element of the array `samples`. -/
structure MetricEntry (ν : Type) where
  minute : Int
  sampledAt : Int
  fields : List (String × ν)
  deriving DecidableEq

/-- The keys of a sample that are written beside `sampledAt`. -/
def SAMPLE_KEYS : List String :=
  ["status", "values", "errorCode", "errors", "configVersion", "identity"]

variable {ν : Type}

/-- `item` with its minute, as it is stored. -/
def MetricSample.entry (sample : MetricSample ν) : MetricEntry ν where
  minute := minuteKey sample.sampledAt
  sampledAt := storedTime sample.sampledAt
  fields := sample.fields.filter fun field => field.1 ∈ SAMPLE_KEYS

/-- A document of `resource_metric_hours`; its id is the resource and the hour. -/
structure MetricBucket (ν : Type) where
  resourceId : Nat
  bucketStart : Int
  expiresAt : Int
  samples : List (MetricEntry ν)
  revision : Nat

def MetricBucket.id (bucket : MetricBucket ν) : Nat × Int :=
  (bucket.resourceId, bucket.bucketStart)

/-! ## Saving a sample -/

inductive Placed (ν : Type)
  /-- What is stored of the minute is later. -/
  | newer
  | full
  | samples (samples : List (MetricEntry ν))

/-- The loop over `samples`: the entry of the minute is replaced in place, or the sample
goes to the end. -/
def placeSample (samples : List (MetricEntry ν)) (sample : MetricSample ν) : Placed ν :=
  match Dict.lookup MetricEntry.minute (minuteKey sample.sampledAt) samples with
  | some existing =>
    if sample.sampledAt < existing.sampledAt then .newer
    else .samples (Dict.upsert MetricEntry.minute sample.entry samples)
  | none =>
    if 60 ≤ samples.length then .full
    else .samples (Dict.upsert MetricEntry.minute sample.entry samples)

/-- Where a save stands: before a read, or before the write that follows from it. -/
inductive SavePhase (ν : Type)
  | find
  | insert
  | update (revision : Nat) (samples : List (MetricEntry ν))
  | returned
  | raised (error : String)

/-- A call of `save`. -/
structure SaveCall (ν : Type) where
  resourceId : Nat
  sample : MetricSample ν
  retentionDays : Nat
  attempts : Nat
  phase : SavePhase ν

def SaveCall.bucketId (call : SaveCall ν) : Nat × Int :=
  (call.resourceId, Resources.bucketStart call.sample.sampledAt)

structure MetricStore (ν : Type) where
  resourceMetricHours : List (MetricBucket ν)
  calls : List (SaveCall ν)
  /-- The saves that have returned, in the order in which they took effect; nothing reads it. -/
  saved : List (Nat × MetricSample ν)

namespace MetricStore

variable (store : MetricStore ν)

def findBucket (id : Nat × Int) : Option (MetricBucket ν) :=
  Dict.lookup MetricBucket.id id store.resourceMetricHours

def setPhase (k : Nat) (call : SaveCall ν) (phase : SavePhase ν) : MetricStore ν :=
  { store with calls := store.calls.set k { call with phase := phase } }

/-- The save returns; this is where it takes effect. -/
def returned (k : Nat) (call : SaveCall ν) : MetricStore ν :=
  { store.setPhase k call .returned with
    saved := store.saved ++ [(call.resourceId, call.sample)] }

/-- The compare-and-swap has failed: the next round of the loop. -/
def again (k : Nat) (call : SaveCall ν) : MetricStore ν :=
  { store with
    calls := store.calls.set k { call with attempts := call.attempts + 1, phase := .find } }

def writeBucket (bucket : MetricBucket ν) : MetricStore ν :=
  { store with
    resourceMetricHours := Dict.upsert MetricBucket.id bucket store.resourceMetricHours }

/-- `find_one` and what follows up to the next write. -/
def readBucket (k : Nat) (call : SaveCall ν) : MetricStore ν :=
  if call.attempts = 5 then store.setPhase k call (.raised "资源监控样本并发写入冲突")
  else
    match store.findBucket call.bucketId with
    | none => store.setPhase k call .insert
    | some row =>
      match placeSample row.samples call.sample with
      | .newer => store.returned k call
      | .full => store.setPhase k call (.raised "资源监控小时桶已达到60个样本上限")
      | .samples samples => store.setPhase k call (.update row.revision samples)

/-- `insert_one` of the first sample of the hour, or `DuplicateKeyError`. -/
def insertBucket (k : Nat) (call : SaveCall ν) : MetricStore ν :=
  match store.findBucket call.bucketId with
  | some _ => store.again k call
  | none =>
    (store.writeBucket
      { resourceId := call.resourceId
        bucketStart := Resources.bucketStart call.sample.sampledAt
        expiresAt := Resources.bucketStart call.sample.sampledAt +
          call.retentionDays * (24 * HOUR_MICROS)
        samples := [call.sample.entry]
        revision := 1 }).returned k call

/-- `update_one` under the revision that was read. -/
def updateBucket (k : Nat) (call : SaveCall ν) (revision : Nat) (samples : List (MetricEntry ν)) :
    MetricStore ν :=
  match store.findBucket call.bucketId with
  | none => store.again k call
  | some bucket =>
    if bucket.revision = revision then
      (store.writeBucket { bucket with samples := samples, revision := revision + 1 }).returned
        k call
    else store.again k call

end MetricStore

inductive MetricAct (ν : Type)
  | save (resourceId : Nat) (sample : MetricSample ν) (retentionDays : Nat)
  /-- The next step of a save. -/
  | advance (k : Nat)

def MetricAct.apply (act : MetricAct ν) (store : MetricStore ν) : Option (MetricStore ν) :=
  match act with
  | .save resourceId sample retentionDays =>
    some { store with
      calls := store.calls ++
        [{ resourceId, sample, retentionDays, attempts := 0, phase := .find }] }
  | .advance k =>
    match store.calls[k]? with
    | none => none
    | some call =>
      match call.phase with
      | .find => some (store.readBucket k call)
      | .insert => some (store.insertBucket k call)
      | .update revision samples => some (store.updateBucket k call revision samples)
      | .returned | .raised _ => none

def MetricStep (store store' : MetricStore ν) : Prop :=
  ∃ act : MetricAct ν, act.apply store = some store'

/-- Nothing is stored and nobody saves. -/
def MetricStart (store : MetricStore ν) : Prop :=
  store = { resourceMetricHours := [], calls := [], saved := [] }

/-! ## The history -/

/-- An item of a page: an entry without its minute. -/
structure HistoryItem (ν : Type) where
  sampledAt : Int
  fields : List (String × ν)
  deriving DecidableEq

def MetricEntry.item (entry : MetricEntry ν) : HistoryItem ν := ⟨entry.sampledAt, entry.fields⟩

/-- The items of a document that are in the range and behind the cursor, the latest first. -/
def historyItems (start finish : Int) (after : Option Int)
    (row : MetricBucket ν) : List (HistoryItem ν) :=
  ((row.samples.insertionSort fun a b => b.sampledAt ≤ a.sampledAt).filter fun entry =>
    start ≤ entry.sampledAt ∧ entry.sampledAt < finish ∧
    after.all fun after => entry.sampledAt < after).map (·.item)

namespace MetricStore

variable (store : MetricStore ν)

/-- `rows`: the documents of the query, the latest hour first. -/
def historyRows (resourceId : Nat) (start finish now : Int) (after : Option Int) :
    List (MetricBucket ν) :=
  (store.resourceMetricHours.filter fun bucket =>
    bucket.resourceId = resourceId ∧ Resources.bucketStart start ≤ bucket.bucketStart ∧
    bucket.bucketStart ≤ Resources.bucketStart (after.getD finish) ∧
    now < bucket.expiresAt).insertionSort fun a b => b.bucketStart ≤ a.bucketStart

/-- `history`: the loops stop at the first item beyond the limit. -/
def history (resourceId : Nat) (start finish now : Int) (limit : Nat)
    (after : Option Int) : List (HistoryItem ν) × Option Int :=
  let items := ((store.historyRows resourceId start finish now after).flatMap
    (historyItems start finish after)).take (limit + 1)
  (items.take limit,
    if limit < items.length then (items.take limit).getLast?.map (·.sampledAt) else none)

end MetricStore

end CameraLogs.Resources
