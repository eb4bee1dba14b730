import CameraLogs.Lib.Run
import Mathlib.Data.List.Count
import Mathlib.Tactic.Linarith

/-!
# The gate of physical writes

Writes go through threads, and no more of them at a time than a limit that can be changed. A call
that finds no slot waits for an event that is shared by all: who waits clears it, who gives a slot
back sets it, and it is replaced while nobody uses it (`WriteGate`).

Calls run between the points where they are suspended. The event is broadcast, so that a set event
has woken everybody who waits for it; and who waits without having been woken waits because there
is no slot (`GateInv`). A wake-up is therefore never lost.
-/

namespace CameraLogs.Logs

open Lib

/-! ## The model -/

/-- Where a call of `write_thread` is. -/
inductive WriteCall
  /-- Suspended in `wait` of an event. -/
  | waiting (event : Nat) (woken cancelled : Bool)
  /-- It has a slot, and is suspended until its thread has ended. -/
  | writing (ended cancelled : Bool)
  /-- It runs, or has returned or raised. -/
  | finished
  deriving DecidableEq

/-- The module's variables, and the calls by the order in which they came. -/
structure WriteGate where
  limit : Int
  active : Int
  waiters : Int
  closed : Bool
  /-- Which event `_changed` is. -/
  changed : Nat
  /-- Whether it is set. -/
  isSet : Bool
  calls : List WriteCall
  deriving DecidableEq

def maxWorkers : Int := 32

/-- `set` of an event wakes those who wait for it. -/
def WriteCall.wake (event : Nat) : WriteCall → WriteCall
  | .waiting observed woken cancelled => .waiting observed (woken || observed = event) cancelled
  | call => call

namespace WriteGate

def initial : WriteGate :=
  { limit := 4, active := 0, waiters := 0, closed := false, changed := 0, isSet := false, calls := [] }

variable (s : WriteGate)

/-- `_changed.set()`; to set an event that is set does nothing. -/
def setChanged : WriteGate :=
  if s.isSet then s else { s with isSet := true, calls := s.calls.map (WriteCall.wake s.changed) }

/-- `_reset_gate_if_idle` -/
def resetGateIfIdle : WriteGate :=
  if s.active = 0 ∧ s.waiters = 0 then { s with changed := s.changed + 1, isSet := false } else s

/-- `_release` -/
def release : WriteGate := setChanged { s with active := s.active - 1 }

def put (index : Nat) (call : WriteCall) : WriteGate := { s with calls := s.calls.set index call }

/-- A call goes on with `_acquire`, and with the submission of its operation, which may fail. -/
def acquire (index : Nat) (submits : Bool) : WriteGate :=
  if s.closed then s
  else if s.active < s.limit then
    let s := { s with active := s.active + 1 }
    if submits then s.put index (.writing false false) else s.release
  -- a set event does not suspend: it is cleared, and the next round waits
  else put { s with isSet := false, waiters := s.waiters + 1 } index (.waiting s.changed false false)

/-- The call goes on behind `observed.wait()`. -/
def wakeUp (index event : Nat) (submits : Bool) : WriteGate :=
  let s := put { s with waiters := s.waiters - 1 } index .finished
  let s := if event = s.changed then { s with isSet := false } else s
  s.acquire index submits

end WriteGate

/-- What happens between two points where calls are suspended. -/
inductive GateAct
  | enter (submits : Bool)
  | resume (index : Nat) (submits : Bool)
  | cancel (index : Nat)
  | threadEnds (index : Nat)
  | configure (writeConcurrency : Int)
  /-- `shutdown`, to the point where it waits for the threads. -/
  | close
  | reopen

/-- A call is resumed when it has been woken or is cancelled, or when its thread has ended. -/
def WriteGate.resume (s : WriteGate) (index : Nat) (submits : Bool) : Option WriteGate :=
  match s.calls[index]? with
  | some (.waiting event woken cancelled) =>
    if cancelled then some (({ s with waiters := s.waiters - 1 } : WriteGate).put index .finished)
    else if woken then some (s.wakeUp index event submits)
    else none
  | some (.writing ended cancelled) =>
    if ended then some (s.put index .finished).release
    -- a cancelled call goes on waiting for its thread
    else if cancelled then some s
    else none
  | _ => none

def WriteGate.cancel (s : WriteGate) (index : Nat) : Option WriteGate :=
  match s.calls[index]? with
  | some (.waiting event woken _) => some (s.put index (.waiting event woken true))
  | some (.writing ended _) => some (s.put index (.writing ended true))
  | _ => none

def WriteGate.threadEnds (s : WriteGate) (index : Nat) : Option WriteGate :=
  match s.calls[index]? with
  | some (.writing false cancelled) => some (s.put index (.writing true cancelled))
  | _ => none

def WriteGate.apply : GateAct → WriteGate → Option WriteGate
  | .enter submits, s =>
    some (WriteGate.acquire { s with calls := s.calls ++ [.finished] } s.calls.length submits)
  | .resume index submits, s => s.resume index submits
  | .cancel index, s => s.cancel index
  | .threadEnds index, s => s.threadEnds index
  | .configure writeConcurrency, s =>
    if 1 ≤ writeConcurrency ∧ writeConcurrency ≤ maxWorkers then
      some (WriteGate.setChanged { s with limit := writeConcurrency, closed := false }).resetGateIfIdle
    else none
  | .close, s => some (WriteGate.setChanged { s with closed := true })
  | .reopen, s => some (WriteGate.resetGateIfIdle { s with closed := false })

/-- Any act, at any point where the calls are suspended. -/
def GateStep (s t : WriteGate) : Prop := ∃ act, WriteGate.apply act s = some t

def GateStart (s : WriteGate) : Prop := s = .initial

/-! ## The invariant -/

def WriteCall.isWriting : WriteCall → Bool
  | .writing _ _ => true
  | _ => false

def WriteCall.isWaiting : WriteCall → Bool
  | .waiting _ _ _ => true
  | _ => false

/-- The counters are right, everybody waits for the event that is there, and a set event has woken
everybody. -/
structure GateCore (s : WriteGate) : Prop where
  active : s.active = s.calls.countP WriteCall.isWriting
  waiters : s.waiters = s.calls.countP WriteCall.isWaiting
  current : ∀ event woken cancelled, .waiting event woken cancelled ∈ s.calls → event = s.changed
  awake : s.isSet = true → ∀ event woken cancelled,
    .waiting event woken cancelled ∈ s.calls → woken = true

/-- Who has not been woken waits because there is no slot. -/
structure GateInv (s : WriteGate) : Prop extends GateCore s where
  asleep : ∀ event cancelled, .waiting event false cancelled ∈ s.calls → s.limit ≤ s.active

variable {s t : WriteGate} {index : Nat} {call new : WriteCall}

/-- One call is counted as another one. -/
theorem countP_put (p : WriteCall → Bool) {calls : List WriteCall} (h : calls[index]? = some call) :
    ((calls.set index new).countP p : Int) + (if p call then 1 else 0) =
      calls.countP p + (if p new then 1 else 0) := by
  obtain ⟨hlt, rfl⟩ := List.getElem?_eq_some_iff.mp h
  have hcount := List.countP_set hlt (p := p) (a := new)
  have hpos : p calls[index] = true → 0 < calls.countP p :=
    fun hp => List.countP_pos_iff.mpr ⟨_, List.getElem_mem hlt, hp⟩
  rw [hcount]
  cases hp : p calls[index] with
  | true =>
    have hpos' := hpos hp
    simp only [if_true]
    split <;> omega
  | false =>
    simp only [Bool.false_eq_true, if_false]
    split <;> omega

theorem mem_put {calls : List WriteCall} {x : WriteCall} (h : x ∈ calls.set index new) :
    x = new ∨ x ∈ calls := (List.mem_or_eq_of_mem_set h).symm

/-- An event that is cleared says nothing. -/
theorem GateInv.clear (h : GateInv s) : GateInv { s with isSet := false } :=
  { h with awake := fun hset => by cases hset }

/-- To set the event wakes all who wait. -/
theorem GateCore.setChanged (h : GateCore s) : GateInv s.setChanged := by
  unfold WriteGate.setChanged
  split
  next hset =>
    refine { h with asleep := fun event cancelled hmem => ?_ }
    cases h.awake hset event false cancelled hmem
  next =>
    have hwoken : ∀ event woken cancelled,
        .waiting event woken cancelled ∈ s.calls.map (WriteCall.wake s.changed) →
        event = s.changed ∧ woken = true := by
      intro event woken cancelled hmem
      obtain ⟨call, hcall, hwake⟩ := List.mem_map.mp hmem
      cases call with
      | waiting observed before cancelled' =>
        have hcurrent := h.current _ _ _ hcall
        cases hwake
        exact ⟨hcurrent, by simp [hcurrent]⟩
      | writing ended cancelled' => cases hwake
      | finished => cases hwake
    have hsame : ∀ p : WriteCall → Bool, (∀ call, p (call.wake s.changed) = p call) →
        (s.calls.map (WriteCall.wake s.changed)).countP p = s.calls.countP p := by
      intro p hp
      rw [List.countP_map]
      exact List.countP_congr fun call _ => by rw [Function.comp_apply, hp]
    refine ⟨⟨?_, ?_, fun event woken cancelled hmem => (hwoken _ _ _ hmem).1,
      fun _ event woken cancelled hmem => (hwoken _ _ _ hmem).2⟩, fun event cancelled hmem => ?_⟩
    · rw [hsame]
      · exact h.active
      · intro call
        cases call <;> rfl
    · rw [hsame]
      · exact h.waiters
      · intro call
        cases call <;> rfl
    · cases (hwoken _ _ _ hmem).2

/-- A new event has nobody who waits for another one. -/
theorem GateInv.resetGateIfIdle (h : GateInv s) : GateInv s.resetGateIfIdle := by
  unfold WriteGate.resetGateIfIdle
  split
  next hidle =>
    have hnone : ∀ event woken cancelled, .waiting event woken cancelled ∉ s.calls := by
      intro event woken cancelled hmem
      have hzero := h.waiters
      rw [hidle.2] at hzero
      have hpos : 0 < s.calls.countP WriteCall.isWaiting :=
        List.countP_pos_iff.mpr ⟨_, hmem, rfl⟩
      omega
    exact {
      active := h.active
      waiters := h.waiters
      current := fun event woken cancelled hmem => absurd hmem (hnone _ _ _)
      awake := fun _ event woken cancelled hmem => absurd hmem (hnone _ _ _)
      asleep := fun event cancelled hmem => absurd hmem (hnone _ _ _) }
  next => exact h

/-- A call is marked, and waits or writes as before. -/
theorem GateInv.mark (h : GateInv s) (hcall : s.calls[index]? = some call)
    (hwriting : new.isWriting = call.isWriting) (hwaiting : new.isWaiting = call.isWaiting)
    (hsame : ∀ event woken cancelled, new = .waiting event woken cancelled →
      ∃ before, call = .waiting event woken before) : GateInv (s.put index new) := by
  have hmem : ∀ event woken cancelled, .waiting event woken cancelled ∈ s.calls.set index new →
      ∃ before, .waiting event woken before ∈ s.calls := by
    intro event woken cancelled hx
    obtain hnew | hold := mem_put hx
    · obtain ⟨before, rfl⟩ := hsame _ _ _ hnew.symm
      exact ⟨before, List.mem_of_getElem? hcall⟩
    · exact ⟨cancelled, hold⟩
  have hactive := @countP_put index call new WriteCall.isWriting _ hcall
  have hwaiters := @countP_put index call new WriteCall.isWaiting _ hcall
  rw [hwriting] at hactive
  rw [hwaiting] at hwaiters
  refine ⟨⟨?_, ?_, ?_, ?_⟩, ?_⟩
  · show s.active = ((s.calls.set index new).countP WriteCall.isWriting : Int)
    rw [h.active]
    omega
  · show s.waiters = ((s.calls.set index new).countP WriteCall.isWaiting : Int)
    rw [h.waiters]
    omega
  · intro event woken cancelled hx
    obtain ⟨before, hbefore⟩ := hmem _ _ _ hx
    exact h.current _ _ _ hbefore
  · intro hset event woken cancelled hx
    obtain ⟨before, hbefore⟩ := hmem _ _ _ hx
    exact h.awake hset _ _ _ hbefore
  · intro event cancelled hx
    obtain ⟨before, hbefore⟩ := hmem _ _ _ hx
    exact h.asleep _ _ hbefore

/-- A call waits no longer. -/
theorem GateInv.leave (h : GateInv s) {event : Nat} {woken cancelled : Bool}
    (hcall : s.calls[index]? = some (.waiting event woken cancelled)) :
    GateInv (WriteGate.put { s with waiters := s.waiters - 1 } index .finished) := by
  have hmem : ∀ observed waked gone, .waiting observed waked gone ∈ s.calls.set index .finished →
      .waiting observed waked gone ∈ s.calls := by
    intro observed waked gone hx
    obtain hnew | hold := mem_put hx
    · cases hnew
    · exact hold
  have hactive := @countP_put index _ .finished WriteCall.isWriting _ hcall
  have hwaiters := @countP_put index _ .finished WriteCall.isWaiting _ hcall
  simp only [WriteCall.isWriting, WriteCall.isWaiting, Bool.false_eq_true, if_true, if_false]
    at hactive hwaiters
  refine ⟨⟨?_, ?_, fun _ _ _ hx => h.current _ _ _ (hmem _ _ _ hx),
    fun hset _ _ _ hx => h.awake hset _ _ _ (hmem _ _ _ hx)⟩,
    fun _ _ hx => h.asleep _ _ (hmem _ _ _ hx)⟩
  · show s.active = ((s.calls.set index .finished).countP WriteCall.isWriting : Int)
    rw [h.active]
    omega
  · show s.waiters - 1 = ((s.calls.set index .finished).countP WriteCall.isWaiting : Int)
    rw [h.waiters]
    omega

/-- A call gives its slot back. -/
theorem GateInv.release (h : GateInv s) {ended cancelled : Bool}
    (hcall : s.calls[index]? = some (.writing ended cancelled)) :
    GateInv (s.put index .finished).release := by
  have hmem : ∀ event woken gone, .waiting event woken gone ∈ s.calls.set index .finished →
      .waiting event woken gone ∈ s.calls := by
    intro event woken gone hx
    obtain hnew | hold := mem_put hx
    · cases hnew
    · exact hold
  have hactive := @countP_put index _ .finished WriteCall.isWriting _ hcall
  have hwaiters := @countP_put index _ .finished WriteCall.isWaiting _ hcall
  simp only [WriteCall.isWriting, WriteCall.isWaiting, Bool.false_eq_true, if_true, if_false]
    at hactive hwaiters
  refine GateCore.setChanged ⟨?_, ?_, fun _ _ _ hx => h.current _ _ _ (hmem _ _ _ hx),
    fun hset _ _ _ hx => h.awake hset _ _ _ (hmem _ _ _ hx)⟩
  · show s.active - 1 = ((s.calls.set index .finished).countP WriteCall.isWriting : Int)
    rw [h.active]
    omega
  · show s.waiters = ((s.calls.set index .finished).countP WriteCall.isWaiting : Int)
    rw [h.waiters]
    omega

/-- A call that runs gets a slot, or waits because there is none. -/
theorem GateInv.acquire (h : GateInv s) (hcall : s.calls[index]? = some .finished) (submits : Bool) :
    GateInv (s.acquire index submits) := by
  unfold WriteGate.acquire
  split
  next => exact h
  next =>
    split
    next hslot =>
      dsimp only
      split
      next =>
        have hactive := @countP_put index _ (.writing false false) WriteCall.isWriting _ hcall
        have hwaiters := @countP_put index _ (.writing false false) WriteCall.isWaiting _ hcall
        simp only [WriteCall.isWriting, WriteCall.isWaiting, Bool.false_eq_true, if_true, if_false]
          at hactive hwaiters
        have hmem : ∀ event woken gone,
            .waiting event woken gone ∈ s.calls.set index (.writing false false) →
            .waiting event woken gone ∈ s.calls := by
          intro event woken gone hx
          obtain hnew | hold := mem_put hx
          · cases hnew
          · exact hold
        refine ⟨⟨?_, ?_, fun _ _ _ hx => h.current _ _ _ (hmem _ _ _ hx),
          fun hset _ _ _ hx => h.awake hset _ _ _ (hmem _ _ _ hx)⟩, fun event cancelled hx => ?_⟩
        · show s.active + 1 =
            ((s.calls.set index (.writing false false)).countP WriteCall.isWriting : Int)
          rw [h.active]
          omega
        · show s.waiters =
            ((s.calls.set index (.writing false false)).countP WriteCall.isWaiting : Int)
          rw [h.waiters]
          omega
        · have hfull := h.asleep _ _ (hmem _ _ _ hx)
          exact absurd hslot (Int.not_lt.mpr hfull)
      next =>
        refine GateCore.setChanged ⟨?_, h.waiters, h.current, h.awake⟩
        show s.active + 1 - 1 = (s.calls.countP WriteCall.isWriting : Int)
        rw [Int.add_sub_cancel]
        exact h.active
    next hfull =>
      have hactive := @countP_put index _ (.waiting s.changed false false) WriteCall.isWriting _ hcall
      have hwaiters := @countP_put index _ (.waiting s.changed false false) WriteCall.isWaiting _ hcall
      simp only [WriteCall.isWriting, WriteCall.isWaiting, Bool.false_eq_true, if_true, if_false]
        at hactive hwaiters
      refine ⟨⟨?_, ?_, ?_, fun hset => (by cases hset)⟩, fun event cancelled _ => Int.not_lt.mp hfull⟩
      · show s.active =
          ((s.calls.set index (.waiting s.changed false false)).countP WriteCall.isWriting : Int)
        rw [h.active]
        omega
      · show s.waiters + 1 =
          ((s.calls.set index (.waiting s.changed false false)).countP WriteCall.isWaiting : Int)
        rw [h.waiters]
        omega
      · intro event woken cancelled hx
        obtain hnew | hold := mem_put hx
        · cases hnew
          rfl
        · exact h.current _ _ _ hold

theorem GateInv.wakeUp (h : GateInv s) {event : Nat} {woken cancelled : Bool}
    (hcall : s.calls[index]? = some (.waiting event woken cancelled)) (submits : Bool) :
    GateInv (s.wakeUp index event submits) := by
  have hleft := h.leave hcall
  have hlt := (List.getElem?_eq_some_iff.mp hcall).1
  have hover : (s.calls.set index .finished)[index]? = some .finished := List.getElem?_set_self hlt
  unfold WriteGate.wakeUp
  dsimp only
  split
  next => exact hleft.clear.acquire hover submits
  next => exact hleft.acquire hover submits

/-- A call comes in. -/
theorem GateInv.enter (h : GateInv s) :
    GateInv { s with calls := s.calls ++ [.finished] } := by
  have hmem : ∀ event woken gone, .waiting event woken gone ∈ s.calls ++ [WriteCall.finished] →
      .waiting event woken gone ∈ s.calls := by
    intro event woken gone hx
    obtain hold | hnew := List.mem_append.mp hx
    · exact hold
    · cases List.mem_singleton.mp hnew
  have hcount : ∀ p : WriteCall → Bool, p .finished = false →
      (s.calls ++ [WriteCall.finished]).countP p = s.calls.countP p := by
    intro p hp
    rw [List.countP_append, List.countP_singleton, hp]
    rfl
  refine ⟨⟨?_, ?_, fun _ _ _ hx => h.current _ _ _ (hmem _ _ _ hx),
    fun hset _ _ _ hx => h.awake hset _ _ _ (hmem _ _ _ hx)⟩,
    fun _ _ hx => h.asleep _ _ (hmem _ _ _ hx)⟩
  · dsimp only
    rw [hcount _ rfl]
    exact h.active
  · dsimp only
    rw [hcount _ rfl]
    exact h.waiters

theorem gateInv_initial : GateInv .initial := by
  refine ⟨⟨rfl, rfl, fun _ _ _ hx => ?_, fun _ _ _ _ hx => ?_⟩, fun _ _ hx => ?_⟩
  all_goals cases hx

/-- What a call that is resumed may do. -/
theorem resume_cases {submits : Bool} (h : s.resume index submits = some t) :
    (∃ event woken, s.calls[index]? = some (.waiting event woken true) ∧
      t = WriteGate.put { s with waiters := s.waiters - 1 } index .finished) ∨
    (∃ event, s.calls[index]? = some (.waiting event true false) ∧ t = s.wakeUp index event submits) ∨
    (∃ cancelled, s.calls[index]? = some (.writing true cancelled) ∧
      t = (s.put index .finished).release) ∨
    t = s := by
  unfold WriteGate.resume at h
  split at h
  next event woken cancelled hcall =>
    cases cancelled with
    | true =>
      cases h
      exact .inl ⟨event, woken, hcall, rfl⟩
    | false =>
      cases woken with
      | true =>
        cases h
        exact .inr (.inl ⟨event, hcall, rfl⟩)
      | false => cases h
  next ended cancelled hcall =>
    cases ended with
    | true =>
      cases h
      exact .inr (.inr (.inl ⟨cancelled, hcall, rfl⟩))
    | false =>
      cases cancelled with
      | true =>
        cases h
        exact .inr (.inr (.inr rfl))
      | false => cases h
  next => cases h

theorem cancel_cases (h : s.cancel index = some t) :
    (∃ event woken cancelled, s.calls[index]? = some (.waiting event woken cancelled) ∧
      t = s.put index (.waiting event woken true)) ∨
    ∃ ended cancelled, s.calls[index]? = some (.writing ended cancelled) ∧
      t = s.put index (.writing ended true) := by
  unfold WriteGate.cancel at h
  split at h
  next event woken cancelled hcall =>
    cases h
    exact .inl ⟨event, woken, cancelled, hcall, rfl⟩
  next ended cancelled hcall =>
    cases h
    exact .inr ⟨ended, cancelled, hcall, rfl⟩
  next => cases h

theorem threadEnds_cases (h : s.threadEnds index = some t) :
    ∃ cancelled, s.calls[index]? = some (.writing false cancelled) ∧
      t = s.put index (.writing true cancelled) := by
  unfold WriteGate.threadEnds at h
  split at h
  next cancelled hcall =>
    cases h
    exact ⟨cancelled, hcall, rfl⟩
  next => cases h

/-- Each act keeps the invariant. -/
theorem GateInv.apply (h : GateInv s) {act : GateAct} (hact : WriteGate.apply act s = some t) :
    GateInv t := by
  cases act with
  | enter submits =>
    cases hact
    refine h.enter.acquire ?_ submits
    exact List.getElem?_concat_length
  | resume index submits =>
    obtain ⟨event, woken, hcall, rfl⟩ | ⟨event, hcall, rfl⟩ | ⟨cancelled, hcall, rfl⟩ | rfl :=
      resume_cases hact
    · exact h.leave hcall
    · exact h.wakeUp hcall submits
    · exact h.release hcall
    · exact h
  | cancel index =>
    obtain ⟨event, woken, cancelled, hcall, rfl⟩ | ⟨ended, cancelled, hcall, rfl⟩ := cancel_cases hact
    · refine h.mark hcall rfl rfl fun observed waked gone hsame => ⟨cancelled, ?_⟩
      cases hsame
      rfl
    · exact h.mark hcall rfl rfl fun _ _ _ hsame => (by cases hsame)
  | threadEnds index =>
    obtain ⟨cancelled, hcall, rfl⟩ := threadEnds_cases hact
    exact h.mark hcall rfl rfl fun _ _ _ hsame => (by cases hsame)
  | configure writeConcurrency =>
    simp only [WriteGate.apply] at hact
    split at hact
    next =>
      cases hact
      have hcore : GateCore { s with limit := writeConcurrency, closed := false } :=
        ⟨h.active, h.waiters, h.current, h.awake⟩
      exact hcore.setChanged.resetGateIfIdle
    next => cases hact
  | close =>
    cases hact
    have hcore : GateCore { s with closed := true } := ⟨h.active, h.waiters, h.current, h.awake⟩
    exact hcore.setChanged
  | reopen =>
    cases hact
    have hopen : GateInv { s with closed := false } :=
      ⟨⟨h.active, h.waiters, h.current, h.awake⟩, h.asleep⟩
    exact hopen.resetGateIfIdle

theorem gateInv (h : Reachable GateStart GateStep s) : GateInv s := by
  refine h.invariant (fun s hs => ?_) ?_
  · rw [show s = .initial from hs]
    exact gateInv_initial
  · rintro s t ⟨act, hact⟩ hs
    exact hs.apply hact

/-! ## Slots -/

/-- A call has a slot, and its thread has ended or not. -/
def Writes (s : WriteGate) (index : Nat) (ended cancelled : Bool) : Prop :=
  s.calls[index]? = some (.writing ended cancelled)

variable {other : Nat} {ended cancelled : Bool}

/-- To wake the others leaves the slots alone. -/
theorem writes_setChanged : Writes s.setChanged other ended cancelled ↔ Writes s other ended cancelled := by
  unfold Writes WriteGate.setChanged
  split
  next => rfl
  next =>
    rw [List.getElem?_map]
    cases s.calls[other]? with
    | none => exact Iff.rfl
    | some call =>
      cases call with
      | waiting event woken gone => exact ⟨fun h => (by cases h), fun h => (by cases h)⟩
      | writing done gone => exact Iff.rfl
      | finished => exact Iff.rfl

theorem writes_resetGateIfIdle :
    Writes s.resetGateIfIdle other ended cancelled ↔ Writes s other ended cancelled := by
  unfold WriteGate.resetGateIfIdle
  split
  next => exact Iff.rfl
  next => exact Iff.rfl

/-- Another call keeps its slot. -/
theorem writes_put_ne (h : index ≠ other) :
    Writes (s.put index new) other ended cancelled ↔ Writes s other ended cancelled := by
  unfold Writes WriteGate.put
  dsimp only
  rw [List.getElem?_set_ne h]

theorem writes_put_self (h : Writes (s.put index new) index ended cancelled) :
    new = .writing ended cancelled := by
  unfold Writes WriteGate.put at h
  dsimp only at h
  have hlt : index < s.calls.length := by
    rw [← List.length_set (i := index) (a := new)]
    exact (List.getElem?_eq_some_iff.mp h).1
  rw [List.getElem?_set_self hlt] at h
  exact Option.some.inj h

/-- The slots of a step: none is given but where there is room, and none given back before the
thread has ended. -/
structure SlotStep (s t : WriteGate) : Prop where
  granted : ∀ index ended cancelled, Writes t index ended cancelled →
    (∃ done gone, Writes s index done gone) ∨ s.active < s.limit
  kept : ∀ index cancelled, Writes s index false cancelled →
    ∃ done gone, Writes t index done gone

theorem SlotStep.of_same (h : ∀ index ended cancelled,
    Writes t index ended cancelled ↔ Writes s index ended cancelled) : SlotStep s t :=
  ⟨fun _ _ _ hwrites => .inl ⟨_, _, (h _ _ _).mp hwrites⟩,
    fun _ _ hwrites => ⟨_, _, (h _ _ _).mpr hwrites⟩⟩

/-- A call that has no slot, or whose thread has ended, becomes another one that has none. -/
theorem SlotStep.put (hcall : ¬ ∃ gone, Writes s index false gone)
    (hnew : new.isWriting = false) : SlotStep s (s.put index new) := by
  refine ⟨fun other ended cancelled hwrites => .inl ?_, fun other cancelled hwrites => ?_⟩
  · by_cases hother : index = other
    · subst hother
      rw [writes_put_self hwrites] at hnew
      cases hnew
    · exact ⟨_, _, (writes_put_ne hother).mp hwrites⟩
  · have hother : index ≠ other := by
      rintro rfl
      exact hcall ⟨_, hwrites⟩
    exact ⟨_, _, (writes_put_ne hother).mpr hwrites⟩

/-- A call that runs gets a slot only where there is room. -/
theorem slotStep_acquire (hcall : s.calls[index]? = some .finished) (submits : Bool) :
    SlotStep s (s.acquire index submits) := by
  have hnone : ¬ ∃ gone, Writes s index false gone := by
    rintro ⟨gone, hwrites⟩
    cases hcall.symm.trans hwrites
  unfold WriteGate.acquire
  split
  next => exact .of_same fun _ _ _ => Iff.rfl
  next =>
    split
    next hslot =>
      dsimp only
      split
      next =>
        refine ⟨fun _ _ _ _ => .inr hslot, fun other cancelled hwrites => ?_⟩
        have hother : index ≠ other := by
          rintro rfl
          exact hnone ⟨_, hwrites⟩
        exact ⟨_, _, (writes_put_ne hother).mpr hwrites⟩
      next => exact .of_same fun _ _ _ => writes_setChanged
    next =>
      have hput := @SlotStep.put s index (.waiting s.changed false false) hnone rfl
      exact ⟨hput.granted, hput.kept⟩

/-- A call that has a slot keeps it, with other marks. -/
theorem SlotStep.mark {done gone : Bool} (hcall : Writes s index ended cancelled) :
    SlotStep s (s.put index (.writing done gone)) := by
  refine ⟨fun other ended cancelled hwrites => .inl ?_, fun other cancelled hwrites => ?_⟩
  · by_cases hother : index = other
    · subst hother
      exact ⟨_, _, hcall⟩
    · exact ⟨_, _, (writes_put_ne hother).mp hwrites⟩
  · by_cases hother : index = other
    · subst hother
      have hlt : index < s.calls.length := (List.getElem?_eq_some_iff.mp hcall).1
      exact ⟨done, gone, List.getElem?_set_self hlt⟩
    · exact ⟨_, _, (writes_put_ne hother).mpr hwrites⟩

/-- What happens before a step and leaves the slots alone may be left out. -/
theorem SlotStep.of_before {before : WriteGate} (hstep : SlotStep before t)
    (h : ∀ index ended cancelled, Writes before index ended cancelled ↔ Writes s index ended cancelled)
    (hactive : before.active = s.active) (hlimit : before.limit = s.limit) : SlotStep s t := by
  refine ⟨fun index ended cancelled hwrites => ?_, fun index cancelled hwrites => ?_⟩
  · obtain ⟨done, gone, hbefore⟩ | hslot := hstep.granted index ended cancelled hwrites
    · exact .inl ⟨done, gone, (h _ _ _).mp hbefore⟩
    · rw [hactive, hlimit] at hslot
      exact .inr hslot
  · exact hstep.kept index cancelled ((h _ _ _).mpr hwrites)

/-- What happens behind a step and leaves the slots alone may be left out. -/
theorem SlotStep.of_behind {behind : WriteGate} (hstep : SlotStep s behind)
    (h : ∀ index ended cancelled, Writes t index ended cancelled ↔ Writes behind index ended cancelled) :
    SlotStep s t := by
  refine ⟨fun index ended cancelled hwrites => ?_, fun index cancelled hwrites => ?_⟩
  · exact hstep.granted index ended cancelled ((h _ _ _).mp hwrites)
  · obtain ⟨done, gone, hbehind⟩ := hstep.kept index cancelled hwrites
    exact ⟨done, gone, (h _ _ _).mpr hbehind⟩

/-- Who waits has no slot. -/
theorem not_writes_waiting {event : Nat} {woken gone : Bool}
    (hcall : s.calls[index]? = some (.waiting event woken gone)) :
    ¬ Writes s index ended cancelled := fun hwrites => by
  cases hcall.symm.trans hwrites

/-- A call that runs after having waited has no slot yet. -/
theorem writes_leave {event : Nat} {woken gone : Bool}
    (hcall : s.calls[index]? = some (.waiting event woken gone)) :
    Writes (s.put index .finished) other ended cancelled ↔ Writes s other ended cancelled := by
  by_cases hother : index = other
  · subst hother
    refine ⟨fun h => ?_, fun h => absurd h (not_writes_waiting hcall)⟩
    cases writes_put_self h
  · exact writes_put_ne hother

theorem SlotStep.wakeUp {event : Nat} {woken gone : Bool}
    (hcall : s.calls[index]? = some (.waiting event woken gone)) (submits : Bool) :
    SlotStep s (s.wakeUp index event submits) := by
  have hlt := (List.getElem?_eq_some_iff.mp hcall).1
  have hover : (s.calls.set index .finished)[index]? = some .finished := List.getElem?_set_self hlt
  have hstep : ∀ u : WriteGate, u.calls = s.calls.set index .finished → u.active = s.active →
      u.limit = s.limit → SlotStep s (u.acquire index submits) := by
    intro u hcalls hactive hlimit
    rw [← hcalls] at hover
    refine (slotStep_acquire hover submits).of_before (fun other ended cancelled => ?_) hactive hlimit
    have hleave := @writes_leave s index other ended cancelled _ _ _ hcall
    unfold Writes WriteGate.put at hleave
    unfold Writes
    rw [hcalls]
    exact hleave
  unfold WriteGate.wakeUp
  dsimp only
  split
  next => exact hstep _ rfl rfl rfl
  next => exact hstep _ rfl rfl rfl

theorem writes_enter : Writes { s with calls := s.calls ++ [.finished] } other ended cancelled ↔
    Writes s other ended cancelled := by
  unfold Writes
  dsimp only
  by_cases hlt : other < s.calls.length
  · rw [List.getElem?_append_left hlt]
  · have hnone : s.calls[other]? = none := List.getElem?_eq_none (Nat.not_lt.mp hlt)
    rw [hnone, List.getElem?_append_right (Nat.not_lt.mp hlt), List.getElem?_singleton]
    split
    next => exact ⟨fun h => (by cases h), fun h => (by cases h)⟩
    next => exact Iff.rfl

/-- Slots are given and given back as they should. -/
theorem SlotStep.apply {act : GateAct} (hact : WriteGate.apply act s = some t) : SlotStep s t := by
  cases act with
  | enter submits =>
    cases hact
    exact (slotStep_acquire List.getElem?_concat_length submits).of_before
      (fun _ _ _ => writes_enter) rfl rfl
  | resume index submits =>
    obtain ⟨event, woken, hcall, rfl⟩ | ⟨event, hcall, rfl⟩ | ⟨cancelled, hcall, rfl⟩ | rfl :=
      resume_cases hact
    · exact .of_same fun _ _ _ => writes_leave hcall
    · exact .wakeUp hcall submits
    · have hended : ¬ ∃ gone, Writes s index false gone := by
        rintro ⟨gone, hwrites⟩
        cases hcall.symm.trans hwrites
      exact (SlotStep.put hended rfl).of_behind fun _ _ _ => writes_setChanged
    · exact .of_same fun _ _ _ => Iff.rfl
  | cancel index =>
    obtain ⟨event, woken, cancelled, hcall, rfl⟩ | ⟨ended, cancelled, hcall, rfl⟩ := cancel_cases hact
    · exact .put (fun ⟨_, hwrites⟩ => not_writes_waiting hcall hwrites) rfl
    · exact .mark hcall
  | threadEnds index =>
    obtain ⟨cancelled, hcall, rfl⟩ := threadEnds_cases hact
    exact .mark hcall
  | configure writeConcurrency =>
    simp only [WriteGate.apply] at hact
    split at hact
    next =>
      cases hact
      exact .of_same fun _ _ _ => writes_resetGateIfIdle.trans writes_setChanged
    next => cases hact
  | close =>
    cases hact
    exact .of_same fun _ _ _ => writes_setChanged
  | reopen =>
    cases hact
    exact .of_same fun _ _ _ => writes_resetGateIfIdle

/-- A woken call that finds the gate open and a slot free takes it. -/
theorem resume_takes {event : Nat} (hcall : s.calls[index]? = some (.waiting event true false))
    (hopen : s.closed = false) (hslot : s.active < s.limit) :
    ∃ t, s.resume index true = some t ∧ Writes t index false false ∧ t.active = s.active + 1 := by
  have hlt := (List.getElem?_eq_some_iff.mp hcall).1
  refine ⟨s.wakeUp index event true, ?_, ?_⟩
  · unfold WriteGate.resume
    rw [hcall]
    rfl
  · have htake : ∀ u : WriteGate, u.closed = false → u.active = s.active → u.limit = s.limit →
        index < u.calls.length →
        Writes (u.acquire index true) index false false ∧
          (u.acquire index true).active = s.active + 1 := by
      intro u hopen hactive hlimit hlength
      unfold WriteGate.acquire
      rw [hopen, if_neg Bool.false_ne_true, hactive, hlimit, if_pos hslot]
      exact ⟨List.getElem?_set_self hlength, rfl⟩
    have hlength : index < (s.calls.set index .finished).length := by
      rw [List.length_set]
      exact hlt
    unfold WriteGate.wakeUp
    dsimp only
    split
    next => exact htake _ hopen rfl rfl hlength
    next => exact htake _ hopen rfl rfl hlength

/-- In every state that is reached the active count is the number of calls that have a slot, and
who waits although a slot is free has been woken, which is enough to take one. In every step a slot
is given only while the count is below the limit, and none is given back, cancelled or not, before
its thread has ended. -/
theorem write_gate_exact (h : Reachable GateStart GateStep s) :
    s.active = s.calls.countP WriteCall.isWriting ∧
    (∀ event woken cancelled, .waiting event woken cancelled ∈ s.calls → s.active < s.limit →
      woken = true) ∧
    (∀ index event, s.calls[index]? = some (.waiting event true false) → s.closed = false →
      s.active < s.limit →
      ∃ t, GateStep s t ∧ Writes t index false false ∧ t.active = s.active + 1) ∧
    ∀ t, GateStep s t → SlotStep s t := by
  have hinv := gateInv h
  refine ⟨hinv.active, fun event woken cancelled hmem hslot => ?_,
    fun index event hcall hopen hslot => ?_, ?_⟩
  · cases woken with
    | true => rfl
    | false => exact absurd hslot (Int.not_lt.mpr (hinv.asleep _ _ hmem))
  · obtain ⟨t, ht, htaken⟩ := resume_takes hcall hopen hslot
    exact ⟨t, ⟨.resume index true, ht⟩, htaken⟩
  · rintro t ⟨act, hact⟩
    exact .apply hact

/-- One slot, a call that has it, is cancelled and whose thread ends, and another one that waits. -/
def handOver : List GateAct :=
  [.configure 1, .enter true, .enter true, .cancel 0, .resume 0 true, .threadEnds 0, .resume 0 true]

theorem write_gate_exact_handed_over : ∃ s : WriteGate,
    s.calls = [.finished, .waiting 1 true false] ∧ s.active = 0 ∧
    s.active = s.calls.countP WriteCall.isWriting := by
  have hrun := eq_some_getD (by decide : (runActs WriteGate.apply handOver .initial).isSome = true)
    .initial
  have hreach : Reachable GateStart GateStep
      ((runActs WriteGate.apply handOver .initial).getD .initial) :=
    ⟨.initial, rfl, runActs_steps hrun⟩
  exact ⟨_, by decide, by decide, (write_gate_exact hreach).1⟩

end CameraLogs.Logs
