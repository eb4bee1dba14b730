import CameraLogs.Collection.CommandQueue

/-!
# Every command is resolved, in order

Between two waits the sender runs with one command; `Running` is what holds then, and each way a
stretch can end (`perform`) leads back to the invariant `DispatcherInv`, provided that what it
does is allowed (`ExitOk`), which the decisions of the sender see to.
-/

namespace CameraLogs.Collection

open Lib

variable {s t : Dispatcher} {item other : CommandItem} {event : CommandEvent}
  {counter bound : Nat} {queue : List CommandItem} {futures : Nat → Option FutureOutcome}
  {history : List CommandEvent} {outcome : FutureOutcome} {error : CommandError} {slave : Bool}

/-! ## Futures -/

namespace Dispatcher

theorem waiting_ne_busy {stage : SendingStage} : Sender.waiting ≠ .busy item stage :=
  Sender.noConfusion

theorem ended_ne_busy {stage : SendingStage} : Sender.ended ≠ .busy item stage :=
  Sender.noConfusion

theorem settle_of_none (h : s.futures counter = none) :
    s.settle counter outcome =
      { s with
        futures := Function.update s.futures counter (some outcome)
        history := .completed counter outcome :: s.history } := by
  rw [settle, h]

theorem settle_of_some (h : s.futures counter ≠ none) : s.settle counter outcome = s := by
  obtain ⟨outcome', hdone⟩ := Option.ne_none_iff_exists'.mp h
  rw [settle, hdone]

/-- Completing a future changes the futures and the history, and no more. -/
structure Settled (s t : Dispatcher) : Prop where
  queue : t.queue = s.queue
  sender : t.sender = s.sender
  counter : t.counter = s.counter
  done : ∀ counter, s.futures counter ≠ none → t.futures counter = s.futures counter
  events : ∀ event : CommandEvent, event ∈ s.history → event ∈ t.history
  enqueued : ∀ item, .enqueued item ∈ t.history → .enqueued item ∈ s.history
  last : lastTaken t.history = lastTaken s.history

theorem Settled.refl : Settled s s :=
  ⟨rfl, rfl, rfl, fun _ _ => rfl, fun _ h => h, fun _ h => h, rfl⟩

theorem Settled.trans {u : Dispatcher} (h : Settled s t) (h' : Settled t u) : Settled s u := by
  refine ⟨h'.queue.trans h.queue, h'.sender.trans h.sender, h'.counter.trans h.counter, ?_,
    fun event hevent => h'.events event (h.events event hevent),
    fun item hitem => h.enqueued item (h'.enqueued item hitem), h'.last.trans h.last⟩
  intro counter hdone
  have hsame := h.done counter hdone
  rw [h'.done counter (hsame ▸ hdone), hsame]

theorem settled_settle : Settled s (s.settle counter outcome) := by
  by_cases hnone : s.futures counter = none
  · rw [settle_of_none hnone]
    refine ⟨rfl, rfl, rfl, fun counter' hdone => ?_, fun event => List.mem_cons_of_mem _,
      fun item hitem => (List.mem_cons.mp hitem).resolve_left nofun, lastTaken_cons rfl⟩
    refine Function.update_of_ne (fun hsame => ?_) _ _
    rw [hsame] at hdone
    exact hdone hnone
  · rw [settle_of_some hnone]
    exact .refl

theorem settle_done : (s.settle counter outcome).futures counter ≠ none := by
  by_cases hnone : s.futures counter = none
  · rw [settle_of_none hnone]
    show Function.update s.futures counter (some outcome) counter ≠ none
    rw [Function.update_self]
    exact Option.some_ne_none _
  · rwa [settle_of_some hnone]

theorem settle_other {counter' : Nat} (h : counter' ≠ counter) :
    (s.settle counter outcome).futures counter' = s.futures counter' := by
  by_cases hnone : s.futures counter = none
  · rw [settle_of_none hnone]
    exact Function.update_of_ne h _ _
  · rw [settle_of_some hnone]

theorem settle_queueInv (outcome : FutureOutcome) (h : QueueInv bound queue s.futures s.history)
    (hknown : ∃ item, .enqueued item ∈ s.history ∧ item.counter = counter) :
    QueueInv bound queue (s.settle counter outcome).futures
      (s.settle counter outcome).history := by
  by_cases hnone : s.futures counter = none
  · rw [settle_of_none hnone]
    exact h.complete _ hnone hknown
  · rwa [settle_of_some hnone]

end Dispatcher

open Dispatcher

/-! ## The queue is drained -/

/-- The loop of `fail_queued`. -/
theorem drain_spec (error : CommandError) (items : List CommandItem)
    (h : QueueInv bound items s.futures s.history) :
    QueueInv bound [] (items.foldl (drop error) s).futures (items.foldl (drop error) s).history ∧
      Settled s (items.foldl (drop error) s) ∧
      ∀ item ∈ items, (items.foldl (drop error) s).futures item.counter ≠ none := by
  induction items generalizing s with
  | nil => exact ⟨h, .refl, nofun⟩
  | cons item items ih =>
    have hsettled : Settled s (drop error s item) := by
      refine settled_settle.trans ⟨rfl, rfl, rfl, fun _ _ => rfl, fun _ => List.mem_cons_of_mem _,
        fun other hother => (List.mem_cons.mp hother).resolve_left nofun, lastTaken_cons rfl⟩
    have hknown : ∃ other, .enqueued other ∈ s.history ∧ other.counter = item.counter :=
      ⟨item, h.enqueued item List.mem_cons_self, rfl⟩
    have hdropped := (settle_queueInv (.failed error) h hknown).drop
    obtain ⟨hbooks, hrest, hdone⟩ := @ih (drop error s item) hdropped
    refine ⟨hbooks, hsettled.trans hrest, fun other hother => ?_⟩
    obtain rfl | hother := List.mem_cons.mp hother
    · have hself : (drop error s other).futures other.counter ≠ none := settle_done
      rw [List.foldl_cons, hrest.done other.counter hself]
      exact hself
    · exact hdone other hother

/-! ## The invariant -/

/-- Before its write. -/
def SendingStage.early : SendingStage → Bool
  | .guarding | .recovering | .guardingAgain | .reserving => true
  | _ => false

/-- The command is being sent. -/
structure SendingOk (futures : Nat → Option FutureOutcome) (history : List CommandEvent)
    (item : CommandItem) (stage : SendingStage) : Prop where
  pending : futures item.counter = none ∨ futures item.counter = some .cancelled
  guarded : .guardRefused item.counter ∉ history
  granted : .budgetRefused item.counter ∉ history
  unwritten : stage.early = true → ∀ data, .wrote item.counter .business data ∉ history
  dialogue : stage = .debugging → .dialogue item.counter ∈ history

structure BusyOk (cancelling : Bool) (futures : Nat → Option FutureOutcome)
    (history : List CommandEvent) (item : CommandItem) (stage : SendingStage) : Prop where
  enqueued : .enqueued item ∈ history
  last : lastTaken history = some item
  sending : cancelling = false → stage ≠ .closingSlave → SendingOk futures history item stage
  closing : cancelling = true → futures item.counter ≠ none

structure DispatcherInv (s : Dispatcher) : Prop where
  books : QueueInv s.counter s.queue s.futures s.history
  live : ∀ item ∈ s.queue,
    s.futures item.counter = none ∨ s.futures item.counter = some .cancelled
  accounted : ∀ item, .enqueued item ∈ s.history → s.futures item.counter = none →
    item ∈ s.queue ∨ ∃ stage, s.sender = .busy item stage
  busy : ∀ item stage, s.sender = .busy item stage →
    BusyOk s.cancelling s.futures s.history item stage

/-- What holds while the sender runs with a command. -/
structure Running (bound : Nat) (queue : List CommandItem) (futures : Nat → Option FutureOutcome)
    (history : List CommandEvent) (item : CommandItem) : Prop where
  books : QueueInv bound queue futures history
  live : ∀ other ∈ queue,
    futures other.counter = none ∨ futures other.counter = some .cancelled
  accounted : ∀ other, .enqueued other ∈ history → futures other.counter = none →
    other ∈ queue ∨ other = item
  enqueued : .enqueued item ∈ history
  last : lastTaken history = some item

theorem DispatcherInv.running (h : DispatcherInv s) {stage : SendingStage}
    (hbusy : s.sender = .busy item stage) :
    Running s.counter s.queue s.futures s.history item := by
  have hok := h.busy item stage hbusy
  refine ⟨h.books, h.live, fun other hother hnone => ?_, hok.enqueued, hok.last⟩
  obtain hin | ⟨stage', hbusy'⟩ := h.accounted other hother hnone
  · exact .inl hin
  · rw [hbusy] at hbusy'
    cases hbusy'
    exact .inr rfl

/-- No command of the queue is the one that was taken. -/
theorem Running.counter_ne (h : Running bound queue futures history item) :
    ∀ other ∈ queue, item.counter ≠ other.counter := by
  intro other hother hsame
  have hitem := same_item h.books.historic h.enqueued (h.books.enqueued other hother) hsame
  exact h.books.untaken other hother (hitem ▸ taken_of_lastTaken h.last)

/-- An event about the command. -/
theorem Running.note (h : Running bound queue futures history item) (event : CommandEvent)
    (hnote : event.isNote = true)
    (hcounter : event.counter = item.counter) (hallowed : CommandAllowed history event) :
    Running bound queue futures (event :: history) item := by
  have htakes : event.takes = none := by
    cases event with
    | taken _ => cases hnote
    | _ => rfl
  have hbound : event.counter ≤ bound := hcounter ▸ h.books.bounded _ h.enqueued
  refine ⟨h.books.note hnote hallowed hbound fun other hother => hcounter ▸ h.counter_ne other hother,
    h.live, fun other hother hnone => h.accounted other ?_ hnone, List.mem_cons_of_mem _ h.enqueued,
    (lastTaken_cons htakes).trans h.last⟩
  obtain rfl | hother := List.mem_cons.mp hother
  · cases hnote
  · exact hother

/-! ## Ends of a stretch -/

theorem finish_inv (h : Running s.counter s.queue s.futures s.history item)
    (hdone : s.futures item.counter ≠ none) : DispatcherInv (s.finish item) := by
  refine ⟨h.books, h.live, fun other hother hnone => ?_, fun _ _ hbusy => absurd hbusy waiting_ne_busy⟩
  obtain hin | rfl := h.accounted other hother hnone
  · exact .inl hin
  · exact absurd hnone hdone

theorem Running.settle (h : Running s.counter s.queue s.futures s.history item)
    (outcome : FutureOutcome) :
    Running (s.settle item.counter outcome).counter (s.settle item.counter outcome).queue
      (s.settle item.counter outcome).futures (s.settle item.counter outcome).history item := by
  obtain ⟨hqueue, -, hcounter, -, hevents, henqueued, hlast⟩ :=
    @settled_settle s item.counter outcome
  rw [hqueue, hcounter]
  refine ⟨settle_queueInv _ h.books ⟨item, h.enqueued, rfl⟩, fun other hother => ?_,
    fun other hother hnone => ?_, hevents _ h.enqueued, hlast.trans h.last⟩
  · rw [settle_other (h.counter_ne other hother).symm]
    exact h.live other hother
  · by_cases hsame : other.counter = item.counter
    · exact .inr (same_item h.books.historic (henqueued other hother) h.enqueued hsame)
    · rw [settle_other hsame] at hnone
      exact h.accounted other (henqueued other hother) hnone

theorem fail_inv (h : Running s.counter s.queue s.futures s.history item)
    (hrun : s.cancelling = false) : DispatcherInv (s.fail item slave error) := by
  unfold Dispatcher.fail
  by_cases hslave : slave = true ∧ error.kind = .pshSwitch
  · rw [if_pos hslave]
    refine ⟨h.books, h.live, fun other hother hnone => ?_, fun item' stage hbusy => ?_⟩
    · obtain hin | rfl := h.accounted other hother hnone
      · exact .inl hin
      · exact .inr ⟨_, rfl⟩
    · cases hbusy
      exact ⟨h.enqueued, h.last, fun _ hne => absurd rfl hne, fun hcancelling => by
        rw [hrun] at hcancelling
        cases hcancelling⟩
  · rw [if_neg hslave]
    exact finish_inv (s := { s.settle item.counter (.failed error) with commandBlocked := _ })
      (h.settle _) settle_done

/-- The command may be sent: it has not been refused, and not been written. -/
structure Sendable (futures : Nat → Option FutureOutcome) (history : List CommandEvent)
    (item : CommandItem) : Prop where
  pending : futures item.counter = none ∨ futures item.counter = some .cancelled
  guarded : .guardRefused item.counter ∉ history
  granted : .budgetRefused item.counter ∉ history

/-- What is asked of the end of a stretch. -/
def ExitOk (futures : Nat → Option FutureOutcome) (history : List CommandEvent)
    (item : CommandItem) : Exit → Prop
  | .skip => futures item.counter ≠ none
  | .raise _ | .done => True
  | .wait stage => stage ≠ .debugging ∧
      (stage.early = true → ∀ data, .wrote item.counter .business data ∉ history)
  | .debug => futures item.counter = none
  | .write => futures item.counter = none ∧
      ∀ data, .wrote item.counter .business data ∉ history

theorem perform_inv (h : Running s.counter s.queue s.futures s.history item)
    (hrun : s.cancelling = false) (hsend : Sendable s.futures s.history item) {exit : Exit}
    (hexit : ExitOk s.futures s.history item exit) :
    DispatcherInv (s.perform item slave exit) := by
  have hclosing {p : Prop} (hcancelling : s.cancelling = true) : p := by
    rw [hrun] at hcancelling
    cases hcancelling
  cases exit with
  | skip => exact finish_inv h hexit
  | raise error => exact fail_inv h hrun
  | done => exact finish_inv (h.settle _) settle_done
  | wait stage =>
    refine ⟨h.books, h.live, fun other hother hnone => ?_, fun item' stage' hbusy => ?_⟩
    · obtain hin | rfl := h.accounted other hother hnone
      · exact .inl hin
      · exact .inr ⟨_, rfl⟩
    · cases hbusy
      exact ⟨h.enqueued, h.last, fun _ _ => ⟨hsend.pending, hsend.guarded, hsend.granted, hexit.2,
        fun hdebug => absurd hdebug hexit.1⟩, hclosing⟩
  | debug =>
    have hnote := h.note (.dialogue item.counter) rfl rfl (h.books.pending hexit)
    refine ⟨hnote.books, h.live, fun other hother hnone => ?_, fun item' stage hbusy => ?_⟩
    · obtain hin | rfl := hnote.accounted other hother hnone
      · exact .inl hin
      · exact .inr ⟨_, rfl⟩
    · cases hbusy
      refine ⟨hnote.enqueued, hnote.last, fun _ _ => ⟨hsend.pending, fun hmem => ?_, fun hmem => ?_,
        nofun, fun _ => List.mem_cons_self⟩, hclosing⟩
      · exact hsend.guarded ((List.mem_cons.mp hmem).resolve_left nofun)
      · exact hsend.granted ((List.mem_cons.mp hmem).resolve_left nofun)
  | write =>
    have hwrite : WriteAllowed s.history item.counter .business item.text :=
      ⟨⟨item, h.last, rfl, fun _ => rfl⟩, hsend.guarded, hsend.granted,
        fun _ => h.books.pending hexit.1, fun _ => hexit.2, nofun⟩
    have hnote := h.note (.wrote item.counter .business item.text) rfl rfl hwrite
    refine ⟨hnote.books, h.live, fun other hother hnone => ?_, fun item' stage hbusy => ?_⟩
    · obtain hin | rfl := hnote.accounted other hother hnone
      · exact .inl hin
      · exact .inr ⟨_, rfl⟩
    · cases hbusy
      refine ⟨hnote.enqueued, hnote.last, fun _ _ => ⟨hsend.pending, fun hmem => ?_, fun hmem => ?_,
        nofun, nofun⟩, hclosing⟩
      · exact hsend.guarded ((List.mem_cons.mp hmem).resolve_left nofun)
      · exact hsend.granted ((List.mem_cons.mp hmem).resolve_left nofun)

/-! ## Decisions -/

theorem skip_ok (hcancelled : s.cancelled item = true) :
    ExitOk s.futures s.history item .skip := by
  have hsome := of_decide_eq_true hcancelled
  show s.futures item.counter ≠ none
  rw [hsome]
  exact Option.some_ne_none _

theorem afterPrompt_ok : ExitOk futures history item (afterPrompt item) := by
  unfold afterPrompt
  split
  · exact ⟨nofun, nofun⟩
  · exact trivial

theorem afterWrite_ok : ExitOk futures history item (afterWrite item) := by
  unfold afterWrite
  split
  · exact ⟨nofun, nofun⟩
  · exact afterPrompt_ok

section

variable (hpending : s.futures item.counter = none ∨ s.futures item.counter = some .cancelled)
  (hunwritten : ∀ data, .wrote item.counter .business data ∉ s.history)

include hpending in
theorem none_of_not_cancelled (hnot : ¬ s.cancelled item = true) :
    s.futures item.counter = none :=
  hpending.resolve_right fun hsome => hnot (decide_eq_true hsome)

include hpending hunwritten

theorem afterBudget_ok : ExitOk s.futures s.history item (s.afterBudget item) := by
  unfold Dispatcher.afterBudget
  split
  · rename_i hcancelled
    exact skip_ok hcancelled
  · rename_i hnot
    have hnone := none_of_not_cancelled hpending hnot
    split
    · exact trivial
    · split
      · exact hnone
      · split
        · exact trivial
        · exact ⟨hnone, hunwritten⟩

theorem afterSecondGuard_ok : ExitOk s.futures s.history item (s.afterSecondGuard item) := by
  unfold Dispatcher.afterSecondGuard
  split
  · rename_i hcancelled
    exact skip_ok hcancelled
  · split
    · exact trivial
    · split
      · exact ⟨nofun, fun _ => hunwritten⟩
      · exact afterBudget_ok hpending hunwritten

theorem afterRecovery_ok : ExitOk s.futures s.history item (s.afterRecovery item) := by
  unfold Dispatcher.afterRecovery
  split
  · rename_i hcancelled
    exact skip_ok hcancelled
  · split
    · exact ⟨nofun, fun _ => hunwritten⟩
    · exact afterSecondGuard_ok hpending hunwritten

theorem afterGuard_ok : ExitOk s.futures s.history item (s.afterGuard item) := by
  unfold Dispatcher.afterGuard
  split
  · rename_i hcancelled
    exact skip_ok hcancelled
  · split
    · exact trivial
    · split
      · exact trivial
      · split
        · exact ⟨nofun, fun _ => hunwritten⟩
        · exact afterRecovery_ok hpending hunwritten

theorem afterTake_ok : ExitOk s.futures s.history item (s.afterTake item) := by
  unfold Dispatcher.afterTake
  split
  · rename_i hcancelled
    exact skip_ok hcancelled
  · split
    · exact trivial
    · split
      · exact ⟨nofun, fun _ => hunwritten⟩
      · exact afterGuard_ok hpending hunwritten

end

/-! ## Closing -/

/-- After `fail_queued` the queue is empty and every future is done. -/
theorem failQueued_spec (error : CommandError) (h : DispatcherInv s) :
    QueueInv s.counter [] (s.failQueued error).futures (s.failQueued error).history ∧
      (s.failQueued error).queue = [] ∧ (s.failQueued error).counter = s.counter ∧
      (s.failQueued error).sender = s.sender ∧
      lastTaken (s.failQueued error).history = lastTaken s.history ∧
      (∀ item, .enqueued item ∈ (s.failQueued error).history → .enqueued item ∈ s.history) ∧
      (∀ item, .enqueued item ∈ s.history → .enqueued item ∈ (s.failQueued error).history) ∧
      ∀ item, .enqueued item ∈ s.history → (s.failQueued error).futures item.counter ≠ none := by
  have hsending : Settled s (s.failSending error) ∧
      QueueInv s.counter s.queue (s.failSending error).futures (s.failSending error).history ∧
      ∀ item stage, s.sender = .busy item stage →
        (s.failSending error).futures item.counter ≠ none := by
    unfold Dispatcher.failSending
    cases hsender : s.sender with
    | busy item stage =>
      refine ⟨settled_settle, settle_queueInv _ h.books ⟨item, (h.busy item stage hsender).enqueued, rfl⟩,
        fun item' stage' hbusy => ?_⟩
      cases hbusy
      exact settle_done
    | waiting => exact ⟨.refl, h.books, fun _ _ hbusy => absurd hbusy waiting_ne_busy⟩
    | ended => exact ⟨.refl, h.books, fun _ _ hbusy => absurd hbusy ended_ne_busy⟩
  obtain ⟨hsettled, hbooks, hbusy⟩ := hsending
  have hstart : QueueInv s.counter (s.failSending error).queue
      { s.failSending error with queue := [] }.futures
      { s.failSending error with queue := [] }.history := by
    rw [hsettled.queue]
    exact hbooks
  obtain ⟨hdrained, hrest, hdone⟩ := drain_spec error _ hstart
  refine ⟨hdrained, hrest.queue, hrest.counter.trans hsettled.counter,
    hrest.sender.trans hsettled.sender, hrest.last.trans hsettled.last,
    fun item hitem => hsettled.enqueued item (hrest.enqueued item hitem),
    fun item hitem => hrest.events _ (hsettled.events _ hitem), fun item hitem => ?_⟩
  by_cases hnone : (s.failSending error).futures item.counter = none
  · -- a command that is still waited for is in the queue
    have hpending : s.futures item.counter = none := by
      by_contra hsome
      rw [hsettled.done _ hsome] at hnone
      exact hsome hnone
    obtain hin | ⟨stage, hsender⟩ := h.accounted item hitem hpending
    · exact hdone item (hsettled.queue ▸ hin)
    · exact absurd hnone (hbusy item stage hsender)
  · exact fun heq => hnone ((hrest.done item.counter hnone).symm.trans heq)

theorem close_inv (h : DispatcherInv s) :
    DispatcherInv { s.failQueued error with
      cancelling := (s.failQueued error).sender ≠ .ended
      history := .closed :: (s.failQueued error).history } := by
  obtain ⟨hbooks, hqueue, hcounter, hsender, hlast, hbefore, hafter, hdone⟩ :=
    failQueued_spec error h
  have hclosed : CommandAllowed (s.failQueued error).history .closed := by
    intro item hitem
    obtain ⟨outcome, houtcome⟩ := Option.ne_none_iff_exists'.mp (hdone item (hbefore item hitem))
    exact ⟨outcome, (hbooks.futures _ _).mp houtcome⟩
  have hnoted := hbooks.note rfl hclosed (Nat.zero_le _) nofun
  refine ⟨?_, ?_, fun item hitem hnone => ?_, fun item stage hbusy => ?_⟩
  · show QueueInv (s.failQueued error).counter (s.failQueued error).queue _ _
    rw [hqueue, hcounter]
    exact hnoted
  · show ∀ item ∈ (s.failQueued error).queue, _
    rw [hqueue]
    exact nofun
  · exact absurd hnone (hdone item (hbefore item ((List.mem_cons.mp hitem).resolve_left nofun)))
  · have hat : s.sender = .busy item stage := hsender.symm.trans hbusy
    have hok := h.busy item stage hat
    refine ⟨List.mem_cons_of_mem _ (hafter item hok.enqueued),
      (lastTaken_cons rfl).trans (hlast.trans hok.last), fun hcancelling => ?_,
      fun _ => hdone item hok.enqueued⟩
    -- the sender is cancelled
    have hended := of_decide_eq_false hcancelling
    rw [hbusy] at hended
    exact absurd nofun hended

theorem endSlave_inv (h : DispatcherInv s) {stage : SendingStage}
    (hsender : s.sender = .busy item stage) : DispatcherInv (s.endSlave item) := by
  obtain ⟨hbooks, hqueue, hcounter, -, -, hbefore, hafter, hdone⟩ :=
    failQueued_spec slaveQueued h
  have hself := hdone item (h.busy item stage hsender).enqueued
  have hend : s.endSlave item =
      { (s.failQueued slaveQueued).finish item with sender := .ended } := by
    show ({ ((s.failQueued slaveQueued).settle item.counter _).finish item with
      sender := .ended } : Dispatcher) = _
    rw [settle_of_some hself]
  rw [hend]
  refine ⟨?_, ?_, fun other hother hnone => ?_, fun _ _ hbusy => absurd hbusy ended_ne_busy⟩
  · show QueueInv (s.failQueued slaveQueued).counter (s.failQueued slaveQueued).queue _ _
    rw [hqueue, hcounter]
    exact hbooks
  · show ∀ item ∈ (s.failQueued slaveQueued).queue, _
    rw [hqueue]
    exact nofun
  · exact absurd hnone (hdone other (hbefore other hother))

/-! ## Steps -/

theorem busyAt_some {stage : SendingStage} (h : s.busyAt stage = some item) :
    s.cancelling = false ∧ s.sender = .busy item stage := by
  unfold Dispatcher.busyAt at h
  split at h
  · rename_i item' stage' hcancelling hsender
    split at h
    · rename_i hstage
      cases h
      exact ⟨hcancelling, hstage ▸ hsender⟩
    · cases h
  · cases h

/-- The sender comes back from a wait. -/
theorem DispatcherInv.resume (h : DispatcherInv s) {stage : SendingStage}
    (hat : s.busyAt stage = some item) (hstage : stage ≠ .closingSlave) :
    s.cancelling = false ∧ Running s.counter s.queue s.futures s.history item ∧
      Sendable s.futures s.history item ∧ SendingOk s.futures s.history item stage := by
  obtain ⟨hrun, hsender⟩ := busyAt_some hat
  have hok := (h.busy item stage hsender).sending hrun hstage
  exact ⟨hrun, h.running hsender, ⟨hok.pending, hok.guarded, hok.granted⟩, hok⟩

/-- An event of the queue or of the futures does not change what is being sent. -/
theorem SendingOk.cons {stage : SendingStage} {futures' : Nat → Option FutureOutcome}
    (h : SendingOk futures history item stage) (hnote : event.isNote = false)
    (hpending : futures' item.counter = none ∨ futures' item.counter = some .cancelled) :
    SendingOk futures' (event :: history) item stage := by
  have hold {event' : CommandEvent} (hmem : event' ∈ event :: history)
      (hnote' : event'.isNote = true) : event' ∈ history := by
    obtain rfl | hmem := List.mem_cons.mp hmem
    · rw [hnote] at hnote'
      cases hnote'
    · exact hmem
  exact ⟨hpending, fun hmem => h.guarded (hold hmem rfl), fun hmem => h.granted (hold hmem rfl),
    fun hearly data hmem => h.unwritten hearly data (hold hmem rfl),
    fun hdebug => List.mem_cons_of_mem _ (h.dialogue hdebug)⟩

theorem enqueue_inv (h : DispatcherInv s) (request : CommandRequest) :
    DispatcherInv (s.enqueue request) := by
  unfold Dispatcher.enqueue
  split
  · exact h
  · have hitem : ({ toCommandRequest := request, counter := s.counter + 1 } : CommandItem).counter =
        s.counter + 1 := rfl
    have hbooks := h.books.enqueue hitem
    have hfresh : s.futures (s.counter + 1) = none := by
      by_contra hsome
      obtain ⟨outcome, houtcome⟩ := Option.ne_none_iff_exists'.mp hsome
      have hle := h.books.bounded _ ((h.books.futures _ _).mp houtcome)
      exact absurd hle (Nat.not_succ_le_self _)
    refine ⟨hbooks, fun item hitem => ?_, fun item hitem hnone => ?_, fun item stage hbusy => ?_⟩
    · obtain rfl | hitem := (List.mem_orderedInsert _).mp hitem
      · exact .inl hfresh
      · exact h.live item hitem
    · obtain hsame | hitem := List.mem_cons.mp hitem
      · cases hsame
        exact .inl ((List.mem_orderedInsert _).mpr (.inl rfl))
      · obtain hin | hbusy := h.accounted item hitem hnone
        · exact .inl ((List.mem_orderedInsert _).mpr (.inr hin))
        · exact .inr hbusy
    · obtain ⟨henqueued, hlast, hsending, hclosing⟩ := h.busy item stage hbusy
      exact ⟨List.mem_cons_of_mem _ henqueued, (lastTaken_cons rfl).trans hlast,
        fun hrun hstage => (hsending hrun hstage).cons rfl (hsending hrun hstage).pending, hclosing⟩

theorem cancel_inv (h : DispatcherInv s) (hpos : 0 < counter) (hle : counter ≤ s.counter) :
    DispatcherInv (s.settle counter .cancelled) := by
  by_cases hnone : s.futures counter = none
  · have hbooks := h.books.complete .cancelled hnone (h.books.known counter hpos hle)
    rw [settle_of_none hnone]
    have hfuture (counter' : Nat) : Function.update s.futures counter (some .cancelled) counter' =
        some .cancelled ∨
        Function.update s.futures counter (some .cancelled) counter' = s.futures counter' := by
      by_cases hsame : counter' = counter
      · subst hsame
        exact .inl (Function.update_self ..)
      · exact .inr (Function.update_of_ne hsame ..)
    have hpending (counter' : Nat)
        (hold : s.futures counter' = none ∨ s.futures counter' = some .cancelled) :
        Function.update s.futures counter (some .cancelled) counter' = none ∨
        Function.update s.futures counter (some .cancelled) counter' = some .cancelled := by
      obtain hcancelled | hsame := hfuture counter'
      · exact .inr hcancelled
      · rwa [hsame]
    refine ⟨hbooks, fun item hitem => hpending _ (h.live item hitem), fun item hitem hnone' => ?_,
      fun item stage hbusy => ?_⟩
    · obtain hcancelled | hsame := hfuture item.counter
      · exact absurd (hcancelled.symm.trans hnone') nofun
      · exact h.accounted item ((List.mem_cons.mp hitem).resolve_left nofun)
          (hsame.symm.trans hnone')
    · obtain ⟨henqueued, hlast, hsending, hclosing⟩ := h.busy item stage hbusy
      refine ⟨List.mem_cons_of_mem _ henqueued, (lastTaken_cons rfl).trans hlast,
        fun hrun hstage => (hsending hrun hstage).cons rfl
          (hpending _ (hsending hrun hstage).pending), fun hcancelling hnone' => ?_⟩
      obtain hcancelled | hsame := hfuture item.counter
      · exact absurd (hcancelled.symm.trans hnone') nofun
      · exact hclosing hcancelling (hsame.symm.trans hnone')
  · rwa [settle_of_some hnone]

theorem take_inv (h : DispatcherInv s) (hrun : s.cancelling = false) (hsender : s.sender = .waiting)
    (hqueue : s.queue = item :: queue) :
    DispatcherInv ({ s with queue, history := .taken item :: s.history }.perform item slave
      (s.afterTake item)) := by
  have hself : item ∈ s.queue := hqueue ▸ List.mem_cons_self
  have hbooks : QueueInv s.counter (item :: queue) s.futures s.history := hqueue ▸ h.books
  have huntouched {event : CommandEvent} (hnote : event.isNote = true)
      (hcounter : event.counter = item.counter) : event ∉ .taken item :: s.history := by
    intro hmem
    obtain rfl | hmem := List.mem_cons.mp hmem
    · cases hnote
    · exact h.books.untouched item hself event hmem hnote hcounter
  have hrunning : Running s.counter queue s.futures (.taken item :: s.history) item := by
    refine ⟨hbooks.take, fun other hother => h.live other (hqueue ▸ List.mem_cons_of_mem _ hother),
      fun other hother hnone => ?_, List.mem_cons_of_mem _ (h.books.enqueued item hself), rfl⟩
    obtain hin | ⟨stage, hbusy⟩ :=
      h.accounted other ((List.mem_cons.mp hother).resolve_left nofun) hnone
    · rw [hqueue] at hin
      exact (List.mem_cons.mp hin).symm
    · rw [hsender] at hbusy
      cases hbusy
  exact perform_inv (s := { s with queue, history := .taken item :: s.history }) hrunning hrun
    ⟨h.live item hself, huntouched rfl rfl, huntouched rfl rfl⟩
    (afterTake_ok (s := { s with queue, history := .taken item :: s.history }) (h.live item hself)
      fun data => huntouched rfl rfl)

theorem handshake_inv (h : DispatcherInv s) {stage : SendingStage}
    (hat : s.busyAt stage = some item) {kind : WriteKind}
    (hkind : stage = .debugging ∧ kind = .debug ∨ stage = .recovering ∧ kind = .recovery)
    (data : String) : DispatcherInv (s.handshake item kind data) := by
  have hstage : stage ≠ .closingSlave := by
    obtain ⟨rfl, -⟩ | ⟨rfl, -⟩ := hkind
    · exact nofun
    · exact nofun
  have hnot : kind ≠ .business := by
    obtain ⟨-, rfl⟩ | ⟨-, rfl⟩ := hkind
    · exact nofun
    · exact nofun
  obtain ⟨hrun, hrunning, hsend, hok⟩ := h.resume hat hstage
  have hsender := (busyAt_some hat).2
  unfold Dispatcher.handshake
  split
  · have hwrite : WriteAllowed s.history item.counter kind data :=
      { sending := ⟨item, hrunning.last, rfl, fun hbusiness => absurd hbusiness hnot⟩
        guarded := hsend.guarded
        granted := hsend.granted
        pending := fun hbusiness => absurd hbusiness hnot
        once := fun hbusiness => absurd hbusiness hnot
        dialogue := fun hdebug => by
          obtain ⟨hat, -⟩ | ⟨-, hrecovery⟩ := hkind
          · exact hok.dialogue hat
          · rw [hdebug] at hrecovery
            cases hrecovery }
    have hnote := hrunning.note (.wrote item.counter kind data) rfl rfl hwrite
    refine ⟨hnote.books, h.live, fun other hother hnone => ?_, fun item' stage' hbusy => ?_⟩
    · obtain hin | rfl := hnote.accounted other hother hnone
      · exact .inl hin
      · exact .inr ⟨stage, hsender⟩
    · have hsame := hsender.symm.trans hbusy
      cases hsame
      refine ⟨hnote.enqueued, hnote.last, fun _ _ => ⟨hok.pending, fun hmem => ?_, fun hmem => ?_,
        fun hearly data' hmem => ?_, fun hdebug => List.mem_cons_of_mem _ (hok.dialogue hdebug)⟩,
        (h.busy item stage hsender).closing⟩
      · exact hsend.guarded ((List.mem_cons.mp hmem).resolve_left nofun)
      · exact hsend.granted ((List.mem_cons.mp hmem).resolve_left nofun)
      · obtain hsame | hmem := List.mem_cons.mp hmem
        · rw [CommandEvent.wrote.injEq] at hsame
          exact hnot hsame.2.1.symm
        · exact hok.unwritten hearly data' hmem
  · exact h

/-- An act of the environment that the invariant does not see. -/
theorem DispatcherInv.of_same (h : DispatcherInv s) (hcounter : t.counter = s.counter)
    (hqueue : t.queue = s.queue) (hfutures : t.futures = s.futures)
    (hhistory : t.history = s.history) (hsender : t.sender = s.sender)
    (hcancelling : t.cancelling = s.cancelling) : DispatcherInv t := by
  refine ⟨?_, ?_, ?_, ?_⟩
  · rw [hcounter, hqueue, hfutures, hhistory]
    exact h.books
  · rw [hqueue, hfutures]
    exact h.live
  · rw [hqueue, hfutures, hhistory, hsender]
    exact h.accounted
  · rw [hfutures, hhistory, hsender, hcancelling]
    exact h.busy

theorem unwind_inv (h : DispatcherInv s) (hcancelling : s.cancelling = true)
    {error : Option CommandError} (hstep : DispatcherAct.apply slave (.unwind error) s = some t) :
    DispatcherInv t := by
  have hended : ∀ item stage, s.sender = .busy item stage →
      DispatcherInv { s.finish item with sender := .ended, cancelling := false } := by
    intro item stage hbusy
    refine ⟨h.books, h.live, fun other hother hnone => ?_, fun _ _ hbusy => absurd hbusy ended_ne_busy⟩
    obtain hin | ⟨stage', hbusy'⟩ := h.accounted other hother hnone
    · exact .inl hin
    · rw [hbusy] at hbusy'
      cases hbusy'
      exact absurd hnone ((h.busy item stage hbusy).closing hcancelling)
  simp only [DispatcherAct.apply] at hstep
  split at hstep
  · -- the slave's connection was being closed
    rename_i item _ hsender
    cases hstep
    have hclosing : DispatcherInv { s with cancelling := false } := by
      refine ⟨h.books, h.live, h.accounted, fun item' stage hbusy => ?_⟩
      have hsame := hsender.symm.trans hbusy
      cases hsame
      have hok := h.busy item .closingSlave hsender
      exact ⟨hok.enqueued, hok.last, fun _ hne => absurd rfl hne, nofun⟩
    exact endSlave_inv hclosing hsender
  · rename_i item error _ hsender
    cases hstep
    exact fail_inv (s := { s with cancelling := false }) (h.running hsender) rfl
  · rename_i hsender _
    cases hstep
    exact hended _ _ hsender
  · rename_i hsender
    cases hstep
    refine ⟨h.books, h.live, fun other hother hnone => ?_, fun _ _ hbusy => absurd hbusy ended_ne_busy⟩
    obtain hin | ⟨stage, hbusy⟩ := h.accounted other hother hnone
    · exact .inl hin
    · rw [hsender] at hbusy
      cases hbusy
  · cases hstep

theorem dispatcher_step (h : DispatcherInv s) (hstep : DispatcherStep slave s t) :
    DispatcherInv t := by
  obtain ⟨act, hact⟩ := hstep
  cases act with
  | unwind error =>
    by_cases hcancelling : s.cancelling = true
    · exact unwind_inv h hcancelling hact
    · simp only [DispatcherAct.apply, hcancelling] at hact
      cases hact
  | enqueue request =>
    cases hact
    exact enqueue_inv h request
  | cancel counter =>
    obtain ⟨⟨hpos, hle⟩, hsettle⟩ := Option.ite_none_right_eq_some.mp hact
    cases hsettle
    exact cancel_inv h hpos hle
  | session flags =>
    cases hact
    exact h.of_same rfl rfl rfl rfl rfl rfl
  | close error =>
    cases hact
    exact close_inv h
  | take =>
    simp only [DispatcherAct.apply] at hact
    split at hact
    · rename_i item queue hrun hsender hqueue
      cases hact
      exact take_inv h hrun hsender hqueue
    · cases hact
  | handshake data =>
    simp only [DispatcherAct.apply] at hact
    split at hact
    · rename_i item _ hat
      cases hact
      exact handshake_inv h hat (.inl ⟨rfl, rfl⟩) data
    · rename_i item hat _
      cases hact
      exact handshake_inv h hat (.inr ⟨rfl, rfl⟩) data
    · cases hact
  | slaveClosed =>
    obtain ⟨item, hat, hend⟩ := Option.map_eq_some_iff.mp hact
    subst hend
    exact endSlave_inv h (busyAt_some hat).2
  | guarded error =>
    obtain ⟨item, hat, hend⟩ := Option.map_eq_some_iff.mp hact
    subst hend
    obtain ⟨hrun, hrunning, hsend, hok⟩ := h.resume hat nofun
    cases error with
    | none => exact perform_inv hrunning hrun hsend (afterGuard_ok hsend.pending (hok.unwritten rfl))
    | some error =>
      exact fail_inv (s := { s with history := .guardRefused item.counter :: s.history })
        (hrunning.note _ rfl rfl trivial) hrun
  | recovered safe error =>
    obtain ⟨item, hat, hend⟩ := Option.map_eq_some_iff.mp hact
    subst hend
    obtain ⟨hrun, hrunning, hsend, hok⟩ := h.resume hat nofun
    cases error with
    | none =>
      cases safe with
      | true =>
        exact perform_inv (s := { s with commandSafe := true, commandBlocked := false }) hrunning hrun
          hsend (afterRecovery_ok (s := { s with commandSafe := true }) hsend.pending
            (hok.unwritten rfl))
      | false => exact fail_inv (s := { s with commandSafe := false }) hrunning hrun
    | some error => exact fail_inv (s := { s with commandSafe := safe }) hrunning hrun
  | guardedAgain error =>
    obtain ⟨item, hat, hend⟩ := Option.map_eq_some_iff.mp hact
    subst hend
    obtain ⟨hrun, hrunning, hsend, hok⟩ := h.resume hat nofun
    cases error with
    | none =>
      exact perform_inv hrunning hrun hsend (afterSecondGuard_ok hsend.pending (hok.unwritten rfl))
    | some error =>
      exact fail_inv (s := { s with history := .guardRefused item.counter :: s.history })
        (hrunning.note _ rfl rfl trivial) hrun
  | reserved answer =>
    obtain ⟨item, hat, hend⟩ := Option.map_eq_some_iff.mp hact
    subst hend
    obtain ⟨hrun, hrunning, hsend, hok⟩ := h.resume hat nofun
    have hrefused : Running s.counter s.queue s.futures
        (.budgetRefused item.counter :: s.history) item := hrunning.note _ rfl rfl trivial
    cases answer with
    | ok granted =>
      cases granted with
      | true =>
        exact perform_inv hrunning hrun hsend (afterBudget_ok hsend.pending (hok.unwritten rfl))
      | false =>
        exact fail_inv (s := { s with history := .budgetRefused item.counter :: s.history }) hrefused
          hrun
    | error error =>
      exact fail_inv (s := { s with history := .budgetRefused item.counter :: s.history }) hrefused
        hrun
  | debugged safe error =>
    obtain ⟨item, hat, hend⟩ := Option.map_eq_some_iff.mp hact
    subst hend
    obtain ⟨hrun, hrunning, hsend, -⟩ := h.resume hat nofun
    cases error with
    | none =>
      show DispatcherInv (if _ then _ else _)
      split
      · exact fail_inv (s := { s with commandSafe := safe, commandBlocked := false }) hrunning hrun
      · exact perform_inv (s := Dispatcher.openCapture
          { s with commandSafe := safe, commandBlocked := false } item) hrunning hrun hsend
          afterWrite_ok
    | some error => exact fail_inv (s := { s with commandSafe := safe }) hrunning hrun
  | written error =>
    obtain ⟨item, hat, hend⟩ := Option.map_eq_some_iff.mp hact
    subst hend
    obtain ⟨hrun, hrunning, hsend, -⟩ := h.resume hat nofun
    cases error with
    | none => exact perform_inv hrunning hrun hsend ⟨nofun, nofun⟩
    | some error => exact fail_inv hrunning hrun
  | observed error =>
    obtain ⟨item, hat, hend⟩ := Option.map_eq_some_iff.mp hact
    subst hend
    obtain ⟨hrun, hrunning, hsend, -⟩ := h.resume hat nofun
    cases error with
    | none => exact perform_inv hrunning hrun hsend afterWrite_ok
    | some error => exact fail_inv hrunning hrun
  | prompted error =>
    obtain ⟨item, hat, hend⟩ := Option.map_eq_some_iff.mp hact
    subst hend
    obtain ⟨hrun, hrunning, hsend, -⟩ := h.resume hat nofun
    cases error with
    | none => exact perform_inv hrunning hrun hsend afterPrompt_ok
    | some error => exact fail_inv hrunning hrun
  | captured response =>
    obtain ⟨item, hat, hend⟩ := Option.map_eq_some_iff.mp hact
    subst hend
    obtain ⟨hrun, hrunning, -, -⟩ := h.resume hat nofun
    cases response with
    | ok data => exact finish_inv (hrunning.settle _) settle_done
    | error error => exact fail_inv hrunning hrun

theorem dispatcher_inv (h : Reachable DispatcherStart (DispatcherStep slave) s) :
    DispatcherInv s := by
  refine Reachable.invariant (fun s hs => ?_) (fun s t hstep hs => dispatcher_step hs hstep) h
  obtain ⟨flags, rfl⟩ := hs
  exact ⟨.empty, fun item hitem => absurd hitem List.not_mem_nil,
    fun item hitem => absurd hitem List.not_mem_nil, fun _ _ hbusy => absurd hbusy waiting_ne_busy⟩

/-! ## Whole runs -/

/-- The command that is written. -/
def CommandEvent.sends : CommandEvent → Option Nat
  | .wrote counter .business _ => some counter
  | _ => none

theorem enqueued_of_taken (h : Historic CommandAllowed history) (htaken : .taken item ∈ history) :
    .enqueued item ∈ history := by
  obtain ⟨later, earlier, rfl⟩ := List.append_of_mem htaken
  exact List.mem_append_right _ (List.mem_cons_of_mem _ h.split.1)

/-- A write is one of the command that was taken last. -/
theorem taken_of_wrote (h : Historic CommandAllowed history) {kind : WriteKind} {data : String}
    (hwrote : .wrote counter kind data ∈ history) :
    ∃ item, .taken item ∈ history ∧ .enqueued item ∈ history ∧ item.counter = counter ∧
      (kind = .business → data = item.text) := by
  obtain ⟨later, earlier, rfl⟩ := List.append_of_mem hwrote
  obtain ⟨item, hlast, hcounter, htext⟩ := h.split.sending
  have htaken : .taken item ∈ later ++ .wrote counter kind data :: earlier :=
    List.mem_append_right _ (List.mem_cons_of_mem _ (taken_of_lastTaken hlast))
  exact ⟨item, htaken, enqueued_of_taken h htaken, hcounter, htext⟩

theorem completed_once (h : Historic CommandAllowed history) :
    (history.filterMap CommandEvent.completes).Nodup := by
  refine h.nodup fun earlier event hallowed counter hcounter other hother hsame => ?_
  cases event with
  | completed counter' outcome =>
    cases hcounter
    cases other with
    | completed counter'' outcome' =>
      cases hsame
      exact hallowed.2 outcome' hother
    | _ => cases hsame
  | _ => cases hcounter

theorem sent_once (h : Historic CommandAllowed history) :
    (history.filterMap CommandEvent.sends).Nodup := by
  refine h.nodup fun earlier event hallowed counter hcounter other hother hsame => ?_
  cases event with
  | wrote counter' kind data =>
    cases kind with
    | business =>
      cases hcounter
      cases other with
      | wrote counter'' kind' data' =>
        cases kind' with
        | business =>
          cases hsame
          exact hallowed.once rfl data' hother
        | _ => cases hsame
      | _ => cases hsame
    | _ => cases hcounter
  | _ => cases hcounter

/-- Once a command is taken, what was enqueued before it and goes before it is written no more. -/
theorem written_before {later earlier : List CommandEvent} {first second : CommandItem}
    (h : Historic CommandAllowed (later ++ .taken second :: earlier))
    (hfirst : .enqueued first ∈ earlier) (hkey : first.key < second.key) (kind : WriteKind)
    (data : String) : .wrote first.counter kind data ∉ later := by
  intro hwrote
  obtain ⟨after, between, rfl⟩ := List.append_of_mem hwrote
  have hallowed := h.split.2.2.2 first hfirst
  rw [List.append_assoc, List.cons_append] at h
  obtain ⟨item, hlast, hcounter, -⟩ := h.split.sending
  have hrest : Historic CommandAllowed (between ++ .taken second :: earlier) := h.of_append.2
  have hitem : item = first := by
    refine same_item hrest (enqueued_of_taken hrest (taken_of_lastTaken hlast)) ?_ hcounter
    exact List.mem_append_right _ (List.mem_cons_of_mem _ hfirst)
  subst hitem
  rw [lastTaken, List.findSome?_append] at hlast
  cases hbetween : between.findSome? CommandEvent.takes with
  | none =>
    rw [hbetween] at hlast
    cases hlast
    exact lt_irrefl _ hkey
  | some item' =>
    rw [hbetween] at hlast
    cases hlast
    -- it was taken after the other one
    obtain ⟨later', middle, rfl⟩ := List.append_of_mem (taken_of_lastTaken hbetween)
    rw [List.append_assoc, List.cons_append] at hrest
    obtain ⟨-, huntaken, hkept, -⟩ := hrest.split
    have hearlier {event : CommandEvent} (hmem : event ∈ earlier) :
        event ∈ middle ++ .taken second :: earlier :=
      List.mem_append_right _ (List.mem_cons_of_mem _ hmem)
    have hle := hallowed (fun hmem => huntaken (hearlier hmem)) fun hmem => hkept (hearlier hmem)
    exact absurd hkey (not_lt_of_ge hle)

/-- The future of a command is completed at most once, and the command is in the queue or with
the sender until then; when a close returns, every command enqueued before it is completed. Writes
are in the order of priority and arrival: once a command is taken, nothing is written of those
that were there before it and go first. A command is written at most once, as it is, and not after
its guard or its budget was refused, nor after its future was done; the dialogue of a debug
command does not begin then. -/
theorem commands_resolved (slave : Bool) (s : Dispatcher)
    (h : Reachable DispatcherStart (DispatcherStep slave) s) :
    (s.history.filterMap CommandEvent.completes).Nodup ∧
    (∀ counter outcome,
      s.futures counter = some outcome ↔ .completed counter outcome ∈ s.history) ∧
    (∀ item, .enqueued item ∈ s.history → s.futures item.counter = none →
      item ∈ s.queue ∨ ∃ stage, s.sender = .busy item stage) ∧
    (∀ later earlier item, s.history = later ++ .closed :: earlier → .enqueued item ∈ earlier →
      ∃ outcome, .completed item.counter outcome ∈ earlier) ∧
    (∀ later earlier first second, s.history = later ++ .taken second :: earlier →
      .enqueued first ∈ earlier → first.key < second.key →
      ∀ kind data, .wrote first.counter kind data ∉ later) ∧
    (∀ later earlier item, s.history = later ++ .taken item :: earlier →
      ∀ kind data, .wrote item.counter kind data ∉ earlier) ∧
    (s.history.filterMap CommandEvent.sends).Nodup ∧
    (∀ counter data, .wrote counter .business data ∈ s.history →
      ∃ item, .enqueued item ∈ s.history ∧ item.counter = counter ∧ data = item.text) ∧
    (∀ later earlier counter, s.history = later ++ .guardRefused counter :: earlier ∨
        s.history = later ++ .budgetRefused counter :: earlier →
      ∀ kind data, .wrote counter kind data ∉ later) ∧
    ∀ later earlier counter outcome,
      s.history = later ++ .completed counter outcome :: earlier →
      (∀ data, .wrote counter .business data ∉ later) ∧
      ∀ data, .wrote counter .debug data ∈ later → .dialogue counter ∈ earlier := by
  have hinv := dispatcher_inv h
  have hhistoric := hinv.books.historic
  refine ⟨completed_once hhistoric, hinv.books.futures, hinv.accounted, ?_, ?_, ?_,
    sent_once hhistoric, ?_, ?_, ?_⟩
  · intro later earlier item hsplit hitem
    rw [hsplit] at hhistoric
    exact hhistoric.split item hitem
  · intro later earlier first second hsplit hfirst hkey kind data
    rw [hsplit] at hhistoric
    exact written_before hhistoric hfirst hkey kind data
  · intro later earlier item hsplit kind data hwrote
    rw [hsplit] at hhistoric
    have hearlier : Historic CommandAllowed earlier := hhistoric.of_append.2
    obtain ⟨item', htaken, henqueued, hcounter, -⟩ := taken_of_wrote hearlier hwrote
    have hsame := same_item hearlier henqueued hhistoric.split.1 hcounter
    exact hhistoric.split.2.1 (hsame ▸ htaken)
  · intro counter data hwrote
    obtain ⟨item, -, henqueued, hcounter, htext⟩ := taken_of_wrote hhistoric hwrote
    exact ⟨item, henqueued, hcounter, htext rfl⟩
  · rintro later earlier counter (hsplit | hsplit) kind data
    · rw [hsplit] at hhistoric
      exact hhistoric.not_mem_later fun _ hmem _ hallowed => hallowed.guarded hmem
    · rw [hsplit] at hhistoric
      exact hhistoric.not_mem_later fun _ hmem _ hallowed => hallowed.granted hmem
  · intro later earlier counter outcome hsplit
    rw [hsplit] at hhistoric
    refine ⟨fun data => hhistoric.not_mem_later fun _ hmem _ hallowed =>
      hallowed.pending rfl outcome hmem, fun data hwrote => ?_⟩
    obtain ⟨after, between, rfl⟩ := List.append_of_mem hwrote
    have hbegun := hhistoric
    rw [List.append_assoc, List.cons_append] at hbegun
    obtain hbetween | hrest := List.mem_append.mp (hbegun.split.dialogue rfl)
    · -- a dialogue does not begin once the future is done
      obtain ⟨later', middle, rfl⟩ := List.append_of_mem hbetween
      have hrest : Historic CommandAllowed
          (later' ++ .dialogue counter :: middle ++ .completed counter outcome :: earlier) :=
        hbegun.of_append.2
      rw [List.append_assoc, List.cons_append] at hrest
      exact absurd (List.mem_append_right _ List.mem_cons_self) (hrest.split outcome)
    · exact (List.mem_cons.mp hrest).resolve_left nofun

def openSession : SessionFlags :=
  { accepting := true, stopping := false, closed := false, connected := true }

/-- A command of low priority is cancelled while it waits, one of high priority is sent, a third
is left when the session is closed. -/
def closingRun : List DispatcherAct :=
  [.enqueue { command := "low", newline := "\n", priority := 3 },
   .enqueue { command := "high", newline := "\n", priority := 1, sessionGuard := true },
   .take, .guarded none, .guardedAgain none, .cancel 1,
   .enqueue { command := "late", newline := "\n", priority := 2 },
   .written none, .observed none, .close connectionClosed, .unwind none]

theorem commands_resolved_closed :
    let s := (runActs (DispatcherAct.apply false) closingRun (newDispatcher openSession)).getD
      (newDispatcher openSession)
    (s.history.filterMap CommandEvent.completes).Nodup ∧
      s.history.filterMap CommandEvent.completes = [3, 2, 1] ∧
      s.history.filterMap CommandEvent.sends = [2] := by
  intro s
  have hrun : Relation.ReflTransGen (DispatcherStep false) (newDispatcher openSession) s :=
    runActs_steps (eq_some_getD (by decide +kernel) _)
  obtain ⟨hnodup, -⟩ := commands_resolved false s ⟨_, ⟨openSession, rfl⟩, hrun⟩
  exact ⟨hnodup, by decide +kernel, by decide +kernel⟩

def debugRequest : CommandRequest := { command := "debug", newline := "\n", priority := 3 }

/-- A debug command is cancelled in its dialogue. -/
def cancelledDialogue : List DispatcherAct :=
  [.enqueue debugRequest, .take, .handshake "ls\n", .cancel 1, .handshake "debug\n"]

/-- A command that is let in during shutdown comes after the close. -/
def lateShutdown : List DispatcherAct :=
  [.close connectionClosed, .unwind none,
   .enqueue { command := "outputClose", newline := "\n", priority := 3, allowDuringShutdown := true,
              requireSafeChannel := true }]

/-- The dialogue of a debug command goes on writing after the command was cancelled; a command
that is enqueued after the close is left waiting. -/
theorem cancelled_debug_writes :
    (∃ s, Reachable DispatcherStart (DispatcherStep false) s ∧
      ∃ later earlier, s.history = later ++ .completed 1 .cancelled :: earlier ∧
        .wrote 1 .debug "debug\n" ∈ later) ∧
    ∃ s, Reachable DispatcherStart (DispatcherStep false) s ∧
      .closed ∈ s.history ∧ s.counter = 1 ∧ s.futures 1 = none ∧ s.sender = .ended := by
  have hreach (acts : List DispatcherAct)
      (hacts : (runActs (DispatcherAct.apply false) acts (newDispatcher openSession)).isSome) :
      Reachable DispatcherStart (DispatcherStep false)
        ((runActs (DispatcherAct.apply false) acts (newDispatcher openSession)).getD
          (newDispatcher openSession)) :=
    ⟨_, ⟨openSession, rfl⟩, runActs_steps (eq_some_getD hacts _)⟩
  refine ⟨⟨_, hreach cancelledDialogue (by decide +kernel), [.wrote 1 .debug "debug\n"], _, rfl,
    List.mem_cons_self⟩, _, hreach lateShutdown (by decide +kernel), ?_, ?_, ?_, ?_⟩
  · decide +kernel
  · decide +kernel
  · decide +kernel
  · decide +kernel

end CameraLogs.Collection
