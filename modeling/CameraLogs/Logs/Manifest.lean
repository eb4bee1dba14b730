import Mathlib.Data.List.Basic

/-!
# Segment manifests

The record a writer leaves for one sealed log segment, and the same record as a
member of an hour archive. The archive's metadata holds the manifest without the
path of the raw log, which publication removes.

Digests are values of an arbitrary type `δ`, computed by a function on bytes
that every statement takes as a parameter: nothing below depends on which digest
it is, nor on its being free of collisions.
-/

namespace CameraLogs.Logs

abbrev Bytes := List UInt8

/-- An instant, in microseconds since the epoch. -/
abbrev Instant := Int

/-- A member of an hour archive, as its metadata lists it. -/
structure Member (δ : Type) where
  taskId : String
  runId : String
  sessionId : String
  hourStart : Instant
  rawSize : Nat
  sha256 : δ
  firstSequence : Option Nat
  lastSequence : Option Nat
  sourceLogName : String
  logName : String
  indexName : String
  indexSha256 : δ
  indexBytes : Nat
  firstReceivedAt : Option Instant
  lastReceivedAt : Option Instant
  deriving DecidableEq

/-- A sealed segment handed to publication: a member, and where its raw log is. -/
structure Segment (δ : Type) extends Member δ where
  logPath : String
  deriving DecidableEq

/-- The member a segment becomes: every key but `logPath`. -/
abbrev Segment.member {δ : Type} (segment : Segment δ) : Member δ := segment.toMember

/-- The suffix every raw log carries, in the directory and in the archive. -/
def IsLogName (name : String) : Prop := ".log".toList <:+ name.toList

instance (name : String) : Decidable (IsLogName name) :=
  inferInstanceAs (Decidable (".log".toList <:+ name.toList))

end CameraLogs.Logs
