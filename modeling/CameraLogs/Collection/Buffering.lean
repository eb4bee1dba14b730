import CameraLogs.Collection.LinePrefix
import CameraLogs.Lib.Ledger
import CameraLogs.Lib.Run

/-!
# The receive buffers of a node

All sessions of a node share a budget. A reader takes the worst case of a read from it
before it reads; the read is settled with what it brought, times in front of the lines
included, and the session holds that until its batch is written.

A session runs from one `await` to the next without anything between. What it waits for
there is its `Point`, and an event lets it run on: the call came back, or raised, or the
session was cancelled. Calls that do not touch the budget and stand next to each other
are one point.
-/

namespace CameraLogs.Collection

open Lib Logs

/-- The most a read brings. -/
def readBytes : Nat := 4096

/-- What is taken from the budget before a read. -/
def reservationBytes : Int := 4096 * 32

/-- The bytes of a MiB. -/
def mebibyte : Int := 1024 * 1024

/-- What goes on when a batch is written. -/
inductive Next
  | read
  | timeout
  | loop
  | close
  deriving DecidableEq

/-- Where a session waits. -/
inductive Point
  | loop
  | waiting
  | reading
  | received (data : Bytes)
  | writing (next : Next)
  | publishing (next : Next)
  | idle
  | closing
  | finishing
  | closed
  deriving DecidableEq

/-- A session: its `BufferReservation`, what is pending in its reader, and its prefixer. -/
structure Session where
  point : Point
  held : Int
  readPending : Bool
  pending : List Bytes
  atLineStart : Bool
  deriving DecidableEq

/-- What happens at the point where a session waits. -/
inductive Event
  /-- The loop condition, where the loop begins again. -/
  | check (go : Bool)
  | wake
  | cancelled
  | data (data : Bytes)
  | timeout
  | ended
  /-- The callback came back; the batch is written now or later. -/
  | accepted (time : LocalTime) (flush : Bool)
  /-- The calls of this point came back. -/
  | done
  /-- One of them raised. -/
  | failed

/-! ## The budget -/

/-- `available`. -/
def available (limit used : Int) : Bool := used + reservationBytes ≤ limit

/-- `release`: an error when more is given back than is taken. -/
def release (size used : Int) : Option Int := if 0 ≤ size ∧ size ≤ used then some (used - size) else none

/-- The end of `acquire_read`, once the budget has given what was asked for. -/
def Session.granted (session : Session) : Session :=
  { session with held := session.held + reservationBytes, readPending := true, point := .reading }

/-- `settle_read`. -/
def Session.settleRead (session : Session) (size used : Int) : Option (Int × Session) :=
  if session.readPending = false ∨ ¬ (0 ≤ size ∧ size ≤ reservationBytes) then none
  else do
    let returned := reservationBytes - size
    let used ← release returned used
    return (used, { session with held := session.held - returned, readPending := false })

/-- `release_all`. -/
def Session.releaseAll (session : Session) (used : Int) : Option (Int × Session) := do
  let used ← release session.held used
  return (used, { session with held := 0, readPending := false })

/-! ## A session -/

def Session.start : Session :=
  { point := .loop, held := 0, readPending := false, pending := [], atLineStart := true }

/-- An error goes to the end of the loop, which closes the session. -/
def Session.raise (session : Session) : Session := { session with point := .closing }

/-- `_read_budgeted` up to its first `await`. -/
def Session.acquireRead (limit used : Int) (session : Session) : Int × Session :=
  if session.readPending then (used, session.raise)
  else if available limit used then (used + reservationBytes, session.granted)
  else (used, { session with point := .waiting })

/-- The batch goes to the writer. -/
def Session.flush (session : Session) (next : Next) : Session :=
  { session with pending := [], point := .writing next }

/-- A read that brought nothing is settled; then the session goes on at a point. -/
def Session.settleNothing (used : Int) (session : Session) (next : Session → Session) : Int × Session :=
  match session.settleRead 0 used with
  | none => (used, session.raise)
  | some (used, session) => (used, next session)

/-- Where a session goes on when giving back raises on the way to a point. -/
def Point.afterError : Point → Point
  | .publishing .close => .finishing
  | .publishing _ => .closing
  | point => point

/-- The session after all it holds is given back, at a point. -/
def Session.give (used : Int) (session : Session) (point : Point) : Int × Session :=
  match session.releaseAll used with
  | none => (used, { session with point := point.afterError })
  | some (used, session) => (used, { session with point })

/-- How a session runs on from where it waits, with the budget. -/
def Session.resume (limit used : Int) (session : Session) : Event → Option (Int × Session)
  | .check go =>
    match session.point with
    | .loop =>
      if !go then some (used, session.raise)
      -- what is held goes out before the reader waits for more
      else if session.pending ≠ [] ∧ !available limit used then some (used, session.flush .read)
      else some (session.acquireRead limit used)
    | _ => none
  | .wake =>
    match session.point with
    | .waiting =>
      if available limit used then some (used + reservationBytes, session.granted)
      else some (used, session)
    | _ => none
  | .data data =>
    match session.point with
    | .reading => if data = [] then none else some (used, { session with point := .received data })
    | _ => none
  | .timeout =>
    match session.point with
    | .reading =>
      some (session.settleNothing used fun session =>
        if session.pending = [] then { session with point := .idle } else session.flush .timeout)
    | _ => none
  | .ended =>
    match session.point with
    | .reading => some (session.settleNothing used Session.raise)
    | _ => none
  | .accepted time flush =>
    match session.point with
    | .received data =>
      let (prefixed, atLineStart) := prefixLines session.atLineStart data time.stamp
      match { session with atLineStart }.settleRead prefixed.length used with
      | none => some (used, { session with atLineStart }.raise)
      | some (used, session) =>
        let session := { session with pending := session.pending ++ [prefixed] }
        some (used, if flush then session.flush .loop else { session with point := .loop })
    | _ => none
  | .done =>
    match session.point with
    | .writing next => some (session.give used (.publishing next))
    | .publishing .read => some (session.acquireRead limit used)
    | .publishing .timeout => some (used, { session with point := .idle })
    | .publishing .loop => some (used, { session with point := .loop })
    | .publishing .close => some (used, { session with point := .finishing })
    | .idle => some (used, { session with point := .loop })
    | .closing =>
      if session.pending = [] then some (used, { session with point := .finishing })
      else some (used, session.flush .close)
    | .finishing => some (session.give used .closed)
    | _ => none
  | .failed =>
    match session.point with
    | .loop | .waiting | .received _ | .publishing .read | .publishing .timeout | .publishing .loop
    | .idle => some (used, session.raise)
    | .reading => some (session.settleNothing used Session.raise)
    | .writing .close => some (session.give used .finishing)
    | .writing _ => some (session.give used .closing)
    -- an error of the end is reported before the rest is given back
    | .closing | .publishing .close => some (used, { session with point := .finishing })
    | .finishing => some (session.give used .closed)
    | .closed => none
  | .cancelled =>
    match session.point with
    | .loop | .waiting | .received _ | .publishing .read | .publishing .timeout | .publishing .loop
    | .idle => some (used, session.raise)
    | .reading => some (session.settleNothing used Session.raise)
    | .writing .close =>
      let (used, session) := session.give used .finishing
      some (session.give used .closed)
    | .writing _ => some (session.give used .closing)
    | .closing | .publishing .close | .finishing => some (session.give used .closed)
    | .closed => none

/-! ## The node -/

structure Node where
  limit : Int
  used : Int
  sessions : List Session
  deriving DecidableEq

inductive NodeAct
  | configure (bufferMiB : Int)
  | openSession
  | resume (i : Nat) (event : Event)

def nodeAct (node : Node) : NodeAct → Option Node
  | .configure bufferMiB => some { node with limit := bufferMiB * mebibyte }
  | .openSession => some { node with sessions := node.sessions ++ [Session.start] }
  | .resume i event => do
    let session ← node.sessions[i]?
    let (used, session) ← session.resume node.limit node.used event
    return { node with used, sessions := node.sessions.set i session }

def Node.start : Node := { limit := 64 * mebibyte, used := 0, sessions := [] }

end CameraLogs.Collection
