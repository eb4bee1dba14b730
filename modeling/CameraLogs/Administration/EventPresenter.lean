import CameraLogs.Lib.Bson

/-!
# Results and levels of events

What is shown of an event is derived from its document, also for old documents that have no
result of their own. Looking a value up that cannot be hashed raises: `none`.
-/

namespace CameraLogs.Administration

open Lib

def COREDUMP_MOUNT_OUTCOMES : Table :=
  [("MOUNTED", "SUCCEEDED"), ("REMOUNTING", "PENDING"), ("FAILED", "FAILED"),
    ("UNMOUNTED", "SUCCEEDED"), ("UNMOUNT_SKIPPED", "UNKNOWN"), ("UNMOUNT_FAILED", "FAILED")]

def DEBUG_MODE_OUTCOMES : Table :=
  [("ALREADY_ASH", "SUCCEEDED"), ("STARTED", "PENDING"), ("CHALLENGE_RECEIVED", "PENDING"),
    ("ASH_READY", "SUCCEEDED"), ("FAILED", "FAILED"), ("RECOVERED", "SUCCEEDED"),
    ("BLOCKED", "UNKNOWN")]

def ACTION_OUTCOMES : Table :=
  [("login_failed", "FAILED"), ("coredump_export_failed", "FAILED"),
    ("coredump_export_cancelled", "CANCELLED"),
    ("authenticate_resource_credentials_rejected", "FAILED"),
    ("authenticate_resource_device_error", "FAILED"),
    ("slave-ssh-bootstrap-host-attempt", "UNKNOWN"),
    ("slave-ssh-bootstrap-temporary-attempt", "UNKNOWN")]

/-- `_PRESSURE_EVENTS` -/
def pressureEvents : Table := textSet ["DISK_PRESSURE_CHANGED", "WRITE_PRESSURE_CHANGED"]

def outcomes : List String := ["PENDING", "SUCCEEDED", "FAILED", "CANCELLED", "UNKNOWN"]

/-- `_TERMINAL_OUTCOMES` -/
def terminalOutcomes : Table := textSet outcomes

def interruptions : Table :=
  textSet ["CONNECTION_GAP", "CLOCK_ROLLBACK", "IDLE_TIMEOUT", "READ_ERROR"]

def levels : List String := ["DEBUG", "INFO", "WARNING", "ERROR"]

/-- The result of an event of a debugging session. -/
def debugOutcome (item : Document) : Option String :=
  tableOr DEBUG_MODE_OUTCOMES (item.get "phase") <|
    some (if (item.get "debugError").truthy then "FAILED" else "SUCCEEDED")

/-- What the type of an event says of its result. -/
def typeOutcome (item : Document) : Option String := do
  let event_type := item.get "type"
  if ← inTable interruptions event_type then some "UNKNOWN"
  else if ← inTable pressureEvents event_type then
    some (if (item.get "level").isText "NORMAL" then "SUCCEEDED" else "UNKNOWN")
  else if event_type.isText "DEBUG_MODE" then debugOutcome item
  else some "SUCCEEDED"

/-- What the answer to a request says of its result. -/
def httpOutcome (status : Int) : String :=
  if status = 202 then "PENDING" else if 400 ≤ status then "FAILED" else "SUCCEEDED"

/-- `event_outcome` -/
def eventOutcome (item : Document) : Option String :=
  tableOr terminalOutcomes (item.get "outcome") <|
  tableOr ACTION_OUTCOMES (item.get "action") <|
  (if (item.get "type").isText "COREDUMP_MOUNT" then
    tableOr COREDUMP_MOUNT_OUTCOMES (item.get "status") else id) <|
  if (item.get "responseComplete").isFalse then some "UNKNOWN" else
  tableOr terminalOutcomes (item.get "status") <|
  match (item.get "httpStatus").asInt with
  | some status => some (httpOutcome status)
  | none => typeOutcome item

/-- The level of a result. -/
def outcomeLevel (outcome : String) : String :=
  if outcome = "FAILED" then "ERROR"
  else if outcome = "UNKNOWN" ∨ outcome = "CANCELLED" then "WARNING" else "INFO"

/-- The level of an event of a pressure. -/
def pressureLevel (pressure : BsonValue) : String :=
  if pressure.isText "CRITICAL" then "ERROR"
  else if pressure.isText "NORMAL" then "INFO" else "WARNING"

/-- `event_level`, with the result of the event where the caller has it. -/
def eventLevel (item : Document) (outcome : Option String) : Option String := do
  let outcome ← match outcome with
    | some outcome => if outcome = "" then eventOutcome item else some outcome
    | none => eventOutcome item
  if ← inTable pressureEvents (item.get "type") then some (pressureLevel (item.get "level"))
  else tableOr (textSet levels) (item.get "level") (some (outcomeLevel outcome))

end CameraLogs.Administration
