import CameraLogs.Lib.Run
import CameraLogs.Logs.Naming
import Mathlib.Data.List.Sort
import Mathlib.Data.Prod.Lex
import Mathlib.Order.Lattice

/-!
# The command dispatcher

The commands of one session go through a queue, by priority and arrival, to a sender that takes
one at a time: it asks the command's guard, recovers a blocked channel, asks the guard again and
then the budget, writes the command and waits for what it waits for. The caller waits for the
future of its command.

The sender runs without interruption from one wait to the next; a step of the model is such a
stretch, and what the session, the callers, the callbacks and the device do in between are the
acts of the environment. The dialogue of a debug command, and that of the recovery, write what
they like.
-/

namespace CameraLogs.Collection

inductive ErrorKind
  | connection | channelBlocked | budgetExhausted | capture | pshSwitch | other
  deriving DecidableEq

structure CommandError where
  kind : ErrorKind
  message : String
  deriving DecidableEq

def connectionClosed : CommandError := ⟨.connection, "connection closed"⟩
def connectionStopping : CommandError := ⟨.connection, "connection is stopping"⟩
def channelUnconfirmed : CommandError :=
  ⟨.channelBlocked, "PSH 命令通道尚未确认，跳过诊断恢复命令"⟩
def recoveryUnconfirmed : CommandError :=
  ⟨.channelBlocked, "PSH 调试恢复未确认，当前会话暂不可发送命令"⟩
def budgetExhausted : CommandError :=
  ⟨.budgetExhausted, "scheduled command budget is exhausted"⟩
def captureBusy : CommandError := ⟨.capture, "已有监控响应正在捕获"⟩
def slaveQueued : CommandError := ⟨.connection, "从机身份确认失败，取消本会话排队命令"⟩
def slaveUnconfirmed : CommandError :=
  ⟨.connection, "从机调试确认失败，必须重新验证连接身份"⟩

/-- What `enqueue` is called with; of its callbacks, whether there is one. -/
structure CommandRequest where
  command : String
  newline : String
  priority : Int
  prompt : Option String := none
  beforeSend : Bool := false
  sessionGuard : Bool := false
  allowDuringShutdown : Bool := false
  requireSafeChannel : Bool := false
  captures : Bool := false
  deriving DecidableEq

/-- An item of the queue; its future is named by its counter. -/
structure CommandItem extends CommandRequest where
  counter : Nat
  deriving DecidableEq

namespace CommandItem

/-- The order of the queue. -/
def key (item : CommandItem) : Int ×ₗ Nat := toLex (item.priority, item.counter)

def isDebug (item : CommandItem) : Bool :=
  Logs.strip Logs.isSpace item.command.toList = "debug".toList

def prompted (item : CommandItem) : Bool := item.prompt.any (· ≠ "")

/-- The bytes of the command. -/
def text (item : CommandItem) : String := item.command ++ item.newline

end CommandItem

/-- What a future is completed with. -/
inductive FutureOutcome
  | result (captured : Option (List UInt8))
  | failed (error : CommandError)
  | cancelled
  deriving DecidableEq

/-- Where the sender waits with a command. -/
inductive SendingStage
  | guarding | recovering | guardingAgain | reserving
  /-- In the dialogue of a debug command. -/
  | debugging
  | writing
  /-- In `on_command_written`. -/
  | observing
  | prompting | capturing
  /-- The connection of a slave is closed whose dialogue has failed. -/
  | closingSlave
  deriving DecidableEq

inductive Sender
  | waiting
  | busy (item : CommandItem) (stage : SendingStage)
  | ended
  deriving DecidableEq

inductive WriteKind
  /-- The command itself. -/
  | business
  /-- In the dialogue of a debug command. -/
  | debug
  | recovery
  deriving DecidableEq

/-- What has happened; nothing reads it. -/
inductive CommandEvent
  | enqueued (item : CommandItem)
  | taken (item : CommandItem)
  | guardRefused (counter : Nat)
  | budgetRefused (counter : Nat)
  /-- The dialogue of a debug command begins. -/
  | dialogue (counter : Nat)
  | wrote (counter : Nat) (kind : WriteKind) (data : String)
  | completed (counter : Nat) (outcome : FutureOutcome)
  /-- Taken out of the queue unsent. -/
  | dropped (counter : Nat)
  | closed
  deriving DecidableEq

/-- What the dispatcher asks of its session. -/
structure SessionFlags where
  accepting : Bool
  stopping : Bool
  closed : Bool
  connected : Bool
  deriving DecidableEq

structure Dispatcher where
  flags : SessionFlags
  /-- `command_safe` of the dialogue. -/
  commandSafe : Bool
  commandBlocked : Bool
  queue : List CommandItem
  counter : Nat
  /-- The command whose response is captured. -/
  capture : Option Nat
  sender : Sender
  /-- The task of the sender has been cancelled and has not run since. -/
  cancelling : Bool
  futures : Nat → Option FutureOutcome
  /-- The newest first. -/
  history : List CommandEvent

namespace Dispatcher

variable (s : Dispatcher) (item : CommandItem)

def canSendShellKeepalive : Bool := !s.commandBlocked && s.commandSafe

/-- Where it is not done, a future is completed. -/
def settle (counter : Nat) (outcome : FutureOutcome) : Dispatcher :=
  match s.futures counter with
  | some _ => s
  | none =>
    { s with
      futures := Function.update s.futures counter (some outcome)
      history := .completed counter outcome :: s.history }

/-- `enqueue`, up to the wait for the future; a refused request leaves no future. -/
def enqueue (request : CommandRequest) : Dispatcher :=
  if request.allowDuringShutdown = false ∧
      (s.flags.accepting = false ∨ s.flags.stopping = true ∨ s.flags.closed = true) then s
  else
    let item : CommandItem := { toCommandRequest := request, counter := s.counter + 1 }
    { s with
      counter := s.counter + 1
      queue := s.queue.orderedInsert (fun x y => x.key ≤ y.key) item
      history := .enqueued item :: s.history }

/-- One turn of the loop of `fail_queued`. -/
def drop (error : CommandError) (s : Dispatcher) (item : CommandItem) : Dispatcher :=
  let s := s.settle item.counter (.failed error)
  { s with history := .dropped item.counter :: s.history }

/-- The future of the command that is sent fails. -/
def failSending (error : CommandError) : Dispatcher :=
  match s.sender with
  | .busy item _ => s.settle item.counter (.failed error)
  | _ => s

/-- `fail_queued` -/
def failQueued (error : CommandError) : Dispatcher :=
  let s := s.failSending error
  s.queue.foldl (drop error) { s with queue := [] }

/-- The `finally` of the loop: on to the next command. -/
def finish : Dispatcher :=
  { s with
    sender := .waiting
    capture := if s.capture = some item.counter then none else s.capture }

/-! ## From one wait to the next -/

/-- How a stretch of the sender ends. -/
inductive Exit
  /-- The command is passed over, its future is done. -/
  | skip
  | raise (error : CommandError)
  | wait (stage : SendingStage)
  | debug
  | write
  | done
  deriving DecidableEq

def cancelled : Bool := s.futures item.counter = some .cancelled

def afterPrompt : Exit := if item.captures then .wait .capturing else .done

def afterWrite : Exit :=
  if item.prompted && !item.isDebug then .wait .prompting else afterPrompt item

def afterBudget : Exit :=
  if s.cancelled item then .skip
  else if s.flags.stopping && !item.allowDuringShutdown then .raise connectionStopping
  else if item.isDebug then .debug
  else if item.captures && s.capture.isSome then .raise captureBusy
  else .write

def afterSecondGuard : Exit :=
  if s.cancelled item then .skip
  else if s.flags.stopping && !item.allowDuringShutdown then .raise connectionStopping
  else if item.beforeSend then .wait .reserving
  else s.afterBudget item

def afterRecovery : Exit :=
  if s.cancelled item then .skip
  else if item.sessionGuard then .wait .guardingAgain
  else s.afterSecondGuard item

def afterGuard : Exit :=
  if s.cancelled item then .skip
  else if s.flags.stopping && !item.allowDuringShutdown then .raise connectionStopping
  else if item.requireSafeChannel && !s.canSendShellKeepalive then .raise channelUnconfirmed
  else if s.commandBlocked then .wait .recovering
  else s.afterRecovery item

/-- A command has been taken from the queue. -/
def afterTake : Exit :=
  if s.cancelled item then .skip
  else if !s.flags.connected || s.flags.closed ||
      ((!s.flags.accepting || s.flags.stopping) && !item.allowDuringShutdown) then
    .raise connectionClosed
  else if item.sessionGuard then .wait .guarding
  else s.afterGuard item

/-! ## The sender -/

variable (slave : Bool)

/-- The `except` of the loop; `slave` says whether the task logs in to a slave. -/
def fail (error : CommandError) : Dispatcher :=
  if slave = true ∧ error.kind = .pshSwitch then
    { s with commandBlocked := true, sender := .busy item .closingSlave }
  else
    let s := s.settle item.counter (.failed error)
    let blocked := if error.kind = .pshSwitch then !s.commandSafe else s.commandBlocked
    { s with commandBlocked := blocked }.finish item

/-- The connection of the slave is closed, or could not be: the sender ends. -/
def endSlave : Dispatcher :=
  let s := s.failQueued slaveQueued
  let s := s.settle item.counter (.failed slaveUnconfirmed)
  { s.finish item with sender := .ended }

/-- The command is in the capture's slot, if its response is captured. -/
def openCapture : Dispatcher :=
  { s with capture := if item.captures then some item.counter else s.capture }

def perform : Exit → Dispatcher
  | .skip => s.finish item
  | .raise error => s.fail item slave error
  | .wait stage => { s with sender := .busy item stage }
  | .debug =>
    { s with sender := .busy item .debugging, history := .dialogue item.counter :: s.history }
  | .write =>
    let s := s.openCapture item
    { s with
      sender := .busy item .writing
      history := .wrote item.counter .business item.text :: s.history }
  | .done => (s.settle item.counter (.result none)).finish item

/-- The command the sender waits with at a stage. -/
def busyAt (stage : SendingStage) : Option CommandItem :=
  match s.cancelling, s.sender with
  | false, .busy item stage' => if stage' = stage then some item else none
  | _, _ => none

/-- `write_debug`, as a step of a dialogue of one kind. -/
def handshake (kind : WriteKind) (data : String) : Dispatcher :=
  if s.flags.stopping = false ∧ s.flags.accepting = true ∧ s.flags.closed = false ∧
      s.flags.connected = true then
    { s with history := .wrote item.counter kind data :: s.history }
  else s

/-- The end of a debug command's dialogue. -/
def afterDialogue : Dispatcher :=
  let s := { s with commandBlocked := false }
  if item.captures && s.capture.isSome then s.fail item slave captureBusy
  else (s.openCapture item).perform item slave (afterWrite item)

end Dispatcher

/-! ## Acts -/

inductive DispatcherAct
  | enqueue (request : CommandRequest)
  /-- The caller's wait for a future is cancelled. -/
  | cancel (counter : Nat)
  | session (flags : SessionFlags)
  | take
  /-- What a callback or a dialogue has ended with: none where it has returned. -/
  | guarded (error : Option CommandError)
  | recovered (safe : Bool) (error : Option CommandError)
  | guardedAgain (error : Option CommandError)
  | reserved (answer : Except CommandError Bool)
  | debugged (safe : Bool) (error : Option CommandError)
  /-- A write in a dialogue. -/
  | handshake (data : String)
  | written (error : Option CommandError)
  | observed (error : Option CommandError)
  | prompted (error : Option CommandError)
  | captured (response : Except CommandError (List UInt8))
  | slaveClosed
  /-- `fail_queued`, and the sender's task is cancelled. -/
  | close (error : CommandError)
  /-- The cancelled sender comes to its end, unless a callback of the dialogue raises there. -/
  | unwind (error : Option CommandError)

open Dispatcher in
def DispatcherAct.apply (slave : Bool) : DispatcherAct → Dispatcher → Option Dispatcher
  | .enqueue request, s => some (s.enqueue request)
  | .cancel counter, s =>
    if 0 < counter ∧ counter ≤ s.counter then some (s.settle counter .cancelled) else none
  | .session flags, s => some { s with flags }
  | .take, s =>
    match s.cancelling, s.sender, s.queue with
    | false, .waiting, item :: queue =>
      some ({ s with queue, history := .taken item :: s.history }.perform item slave
        (s.afterTake item))
    | _, _, _ => none
  | .guarded error, s => (s.busyAt .guarding).map fun item =>
    match error with
    | none => s.perform item slave (s.afterGuard item)
    | some error => { s with history := .guardRefused item.counter :: s.history }.fail item slave error
  | .recovered safe error, s => (s.busyAt .recovering).map fun item =>
    let s := { s with commandSafe := safe }
    match error with
    | none =>
      if safe then { s with commandBlocked := false }.perform item slave (s.afterRecovery item)
      else s.fail item slave recoveryUnconfirmed
    | some error => s.fail item slave error
  | .guardedAgain error, s => (s.busyAt .guardingAgain).map fun item =>
    match error with
    | none => s.perform item slave (s.afterSecondGuard item)
    | some error => { s with history := .guardRefused item.counter :: s.history }.fail item slave error
  | .reserved answer, s => (s.busyAt .reserving).map fun item =>
    match answer with
    | .ok true => s.perform item slave (s.afterBudget item)
    | .ok false =>
      { s with history := .budgetRefused item.counter :: s.history }.fail item slave budgetExhausted
    | .error error =>
      { s with history := .budgetRefused item.counter :: s.history }.fail item slave error
  | .debugged safe error, s => (s.busyAt .debugging).map fun item =>
    let s := { s with commandSafe := safe }
    match error with
    | none => s.afterDialogue item slave
    | some error => s.fail item slave error
  | .handshake data, s =>
    match s.busyAt .debugging, s.busyAt .recovering with
    | some item, _ => some (s.handshake item .debug data)
    | _, some item => some (s.handshake item .recovery data)
    | _, _ => none
  | .written error, s => (s.busyAt .writing).map fun item =>
    match error with
    | none => s.perform item slave (.wait .observing)
    | some error => s.fail item slave error
  | .observed error, s => (s.busyAt .observing).map fun item =>
    match error with
    | none => s.perform item slave (afterWrite item)
    | some error => s.fail item slave error
  | .prompted error, s => (s.busyAt .prompting).map fun item =>
    match error with
    | none => s.perform item slave (afterPrompt item)
    | some error => s.fail item slave error
  | .captured response, s => (s.busyAt .capturing).map fun item =>
    match response with
    | .ok data => (s.settle item.counter (.result (some data))).finish item
    | .error error => s.fail item slave error
  | .slaveClosed, s => (s.busyAt .closingSlave).map fun item => s.endSlave item
  | .close error, s =>
    let s := s.failQueued error
    some { s with cancelling := s.sender ≠ .ended, history := .closed :: s.history }
  | .unwind error, s =>
    match s.cancelling, s.sender, error with
    | true, .busy item .closingSlave, _ => some ({ s with cancelling := false }.endSlave item)
    | true, .busy item .debugging, some error =>
      some ({ s with cancelling := false }.fail item slave error)
    | true, .busy item _, _ => some { s.finish item with sender := .ended, cancelling := false }
    | true, .waiting, _ => some { s with sender := .ended, cancelling := false }
    | _, _, _ => none

def DispatcherStep (slave : Bool) (s t : Dispatcher) : Prop :=
  ∃ act : DispatcherAct, act.apply slave s = some t

/-- A new dispatcher, in a session with these flags. -/
def newDispatcher (flags : SessionFlags) : Dispatcher :=
  { flags, commandSafe := true, commandBlocked := false, queue := [], counter := 0
    capture := none, sender := .waiting, cancelling := false, futures := fun _ => none
    history := [] }

def DispatcherStart (s : Dispatcher) : Prop := ∃ flags, s = newDispatcher flags

end CameraLogs.Collection
