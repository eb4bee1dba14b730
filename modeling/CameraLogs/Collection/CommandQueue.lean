import CameraLogs.Lib.History
import CameraLogs.Collection.CommandDispatcher

/-!
# The books of the command dispatcher

Whatever the sender is doing, the queue, the futures and the history agree (`QueueInv`): what is
enqueued and not yet taken is in the queue, unless it has been dropped, and a future is done when
its completion is in the history. Each way to write the books keeps the agreement; that an event
may come next in the history (`CommandAllowed`) is what the claims on whole runs follow from.
-/

namespace CameraLogs.Collection

open Lib

/-! ## Events -/

namespace CommandEvent

/-- The command an event is about. -/
def counter : CommandEvent → Nat
  | .enqueued item | .taken item => item.counter
  | .guardRefused counter | .budgetRefused counter | .dialogue counter => counter
  | .wrote counter _ _ | .completed counter _ | .dropped counter => counter
  | .closed => 0

/-- The event leaves the queue and the futures as they are. -/
def isNote : CommandEvent → Bool
  | .enqueued _ | .taken _ | .completed _ _ | .dropped _ => false
  | _ => true

/-- The command that is taken. -/
def takes : CommandEvent → Option CommandItem
  | .taken item => some item
  | _ => none

/-- The command that is completed. -/
def completes : CommandEvent → Option Nat
  | .completed counter _ => some counter
  | _ => none

end CommandEvent

variable {s : Dispatcher} {item other : CommandItem} {event : CommandEvent} {counter bound : Nat}
  {queue : List CommandItem} {futures : Nat → Option FutureOutcome} {history : List CommandEvent}
  {outcome : FutureOutcome} {error : CommandError}

/-- The command that was taken last. -/
def lastTaken (history : List CommandEvent) : Option CommandItem :=
  history.findSome? CommandEvent.takes

theorem lastTaken_cons (h : event.takes = none) : lastTaken (event :: history) = lastTaken history := by
  rw [lastTaken, List.findSome?_cons, h]
  rfl

theorem taken_of_lastTaken (h : lastTaken history = some item) : .taken item ∈ history := by
  obtain ⟨event, hevent, htakes⟩ := List.exists_of_findSome?_eq_some h
  cases event with
  | taken item' =>
    cases htakes
    exact hevent
  | _ => cases htakes

/-- What a write is done under. -/
structure WriteAllowed (earlier : List CommandEvent) (counter : Nat) (kind : WriteKind)
    (data : String) : Prop where
  sending : ∃ item, lastTaken earlier = some item ∧ item.counter = counter ∧
    (kind = .business → data = item.text)
  guarded : .guardRefused counter ∉ earlier
  granted : .budgetRefused counter ∉ earlier
  pending : kind = .business → ∀ outcome, .completed counter outcome ∉ earlier
  once : kind = .business → ∀ data, .wrote counter .business data ∉ earlier
  dialogue : kind = .debug → .dialogue counter ∈ earlier

/-- What may come next. -/
def CommandAllowed (earlier : List CommandEvent) : CommandEvent → Prop
  | .enqueued item => ∀ other, .enqueued other ∈ earlier → other.counter < item.counter
  | .taken item => .enqueued item ∈ earlier ∧ .taken item ∉ earlier ∧
      .dropped item.counter ∉ earlier ∧
      ∀ other, .enqueued other ∈ earlier → .taken other ∉ earlier →
        .dropped other.counter ∉ earlier → item.key ≤ other.key
  | .completed counter _ => (∃ item, .enqueued item ∈ earlier ∧ item.counter = counter) ∧
      ∀ outcome, .completed counter outcome ∉ earlier
  | .dialogue counter => ∀ outcome, .completed counter outcome ∉ earlier
  | .wrote counter kind data => WriteAllowed earlier counter kind data
  | .closed => ∀ item, .enqueued item ∈ earlier →
      ∃ outcome, .completed item.counter outcome ∈ earlier
  | .guardRefused _ | .budgetRefused _ | .dropped _ => True

/-- Two commands that were enqueued differ in their counters. -/
theorem same_item (h : Historic CommandAllowed history) (hitem : .enqueued item ∈ history)
    (hother : .enqueued other ∈ history) (hcounter : item.counter = other.counter) :
    item = other := by
  obtain ⟨later, earlier, rfl⟩ := List.append_of_mem hitem
  rcases List.mem_append.mp hother with hlater | hrest
  · -- the other one came later
    obtain ⟨later, between, rfl⟩ := List.append_of_mem hlater
    rw [List.append_assoc] at h
    have hlt := h.split item (List.mem_append_right _ List.mem_cons_self)
    omega
  · rcases List.mem_cons.mp hrest with hsame | hearlier
    · cases hsame
      rfl
    · have hlt := h.split other hearlier
      omega

/-! ## Books -/

structure QueueInv (bound : Nat) (queue : List CommandItem)
    (futures : Nat → Option FutureOutcome) (history : List CommandEvent) : Prop where
  historic : Historic CommandAllowed history
  bounded : ∀ event ∈ history, event.counter ≤ bound
  known : ∀ counter, 0 < counter → counter ≤ bound →
    ∃ item, .enqueued item ∈ history ∧ item.counter = counter
  futures : ∀ counter outcome,
    futures counter = some outcome ↔ .completed counter outcome ∈ history
  sorted : queue.Pairwise fun x y => x.key ≤ y.key
  distinct : (queue.map CommandItem.counter).Nodup
  enqueued : ∀ item ∈ queue, .enqueued item ∈ history
  untaken : ∀ item ∈ queue, .taken item ∉ history
  kept : ∀ item ∈ queue, .dropped item.counter ∉ history
  untouched : ∀ item ∈ queue, ∀ event ∈ history, event.isNote = true →
    event.counter ≠ item.counter
  waiting : ∀ item, .enqueued item ∈ history → .taken item ∉ history →
    item ∈ queue ∨ .dropped item.counter ∈ history

namespace QueueInv

theorem empty : QueueInv 0 [] (fun _ => none) [] where
  historic := trivial
  bounded := fun _ hevent => absurd hevent List.not_mem_nil
  known := fun _ hpos hle => absurd hpos (Nat.not_lt.mpr hle)
  futures := fun _ _ => iff_of_false (Option.some_ne_none _).symm List.not_mem_nil
  sorted := .nil
  distinct := .nil
  enqueued := fun _ hitem => absurd hitem List.not_mem_nil
  untaken := fun _ hitem => absurd hitem List.not_mem_nil
  kept := fun _ hitem => absurd hitem List.not_mem_nil
  untouched := fun _ hitem => absurd hitem List.not_mem_nil
  waiting := fun _ hitem => absurd hitem List.not_mem_nil

theorem pending (h : QueueInv bound queue futures history) (hnone : futures counter = none) :
    ∀ outcome, .completed counter outcome ∉ history := by
  intro outcome hmem
  rw [(h.futures counter outcome).mpr hmem] at hnone
  cases hnone

theorem enqueue (h : QueueInv bound queue futures history) (hitem : item.counter = bound + 1) :
    QueueInv (bound + 1) (queue.orderedInsert (fun x y => x.key ≤ y.key) item) futures
      (.enqueued item :: history) := by
  have hnew : ∀ other, .enqueued other ∈ history → other.counter ≤ bound :=
    fun other hother => h.bounded _ hother
  have hfresh : ∀ other ∈ queue, other.counter ≤ bound :=
    fun other hother => hnew other (h.enqueued other hother)
  have hperm := List.perm_orderedInsert (fun x y : CommandItem => x.key ≤ y.key) item queue
  have hmem : ∀ {other}, other ∈ queue.orderedInsert (fun x y => x.key ≤ y.key) item →
      other = item ∨ other ∈ queue := fun hother => (List.mem_orderedInsert _).mp hother
  have htotal : Std.Total fun x y : CommandItem => x.key ≤ y.key :=
    ⟨fun x y => le_total x.key y.key⟩
  have htrans : IsTrans CommandItem fun x y => x.key ≤ y.key := ⟨fun _ _ _ => le_trans⟩
  refine ⟨⟨fun other hother => ?_, h.historic⟩, ?_, ?_, ?_, h.sorted.orderedInsert _ _, ?_, ?_, ?_,
    ?_, ?_, ?_⟩
  · exact hitem ▸ Nat.lt_succ_of_le (hnew other hother)
  · intro event hevent
    obtain rfl | hevent := List.mem_cons.mp hevent
    · exact Nat.le_of_eq hitem
    · exact Nat.le_succ_of_le (h.bounded event hevent)
  · intro counter hpos hle
    obtain hlt | heq := Nat.lt_or_eq_of_le hle
    · obtain ⟨other, hother, hcounter⟩ := h.known counter hpos (Nat.le_of_lt_succ hlt)
      exact ⟨other, List.mem_cons_of_mem _ hother, hcounter⟩
    · exact ⟨item, List.mem_cons_self, hitem.trans heq.symm⟩
  · intro counter outcome
    rw [h.futures, List.mem_cons]
    exact ⟨.inr, fun hmem => hmem.resolve_left nofun⟩
  · refine ((hperm.map CommandItem.counter).nodup_iff).mpr (List.nodup_cons.mpr ⟨?_, h.distinct⟩)
    intro hin
    obtain ⟨other, hother, hcounter⟩ := List.mem_map.mp hin
    have hle := hfresh other hother
    omega
  · intro other hother
    obtain rfl | hother := hmem hother
    · exact List.mem_cons_self
    · exact List.mem_cons_of_mem _ (h.enqueued other hother)
  · intro other hother htaken
    have hbefore := (List.mem_cons.mp htaken).resolve_left nofun
    obtain hsame | hother := hmem hother
    · have hle : other.counter ≤ bound := h.bounded _ hbefore
      rw [hsame] at hle
      omega
    · exact h.untaken other hother hbefore
  · intro other hother hdropped
    have hbefore := (List.mem_cons.mp hdropped).resolve_left nofun
    obtain hsame | hother := hmem hother
    · have hle : other.counter ≤ bound := h.bounded _ hbefore
      rw [hsame] at hle
      omega
    · exact h.kept other hother hbefore
  · intro other hother event hevent hnote
    obtain rfl | hevent := List.mem_cons.mp hevent
    · cases hnote
    · obtain hsame | hother := hmem hother
      · have hle := h.bounded event hevent
        rw [hsame]
        omega
      · exact h.untouched other hother event hevent hnote
  · intro other hother htaken
    obtain hsame | hother := List.mem_cons.mp hother
    · cases hsame
      exact .inl ((List.mem_orderedInsert _).mpr (.inl rfl))
    · obtain hin | hdropped := h.waiting other hother fun hmem =>
        htaken (List.mem_cons_of_mem _ hmem)
      · exact .inl ((List.mem_orderedInsert _).mpr (.inr hin))
      · exact .inr (List.mem_cons_of_mem _ hdropped)

theorem take (h : QueueInv bound (item :: queue) futures history) :
    QueueInv bound queue futures (.taken item :: history) := by
  obtain ⟨hleast, hsorted⟩ := List.pairwise_cons.mp h.sorted
  obtain ⟨hnew, hdistinct⟩ := List.nodup_cons.mp h.distinct
  have hself := List.mem_cons_self (a := item) (l := queue)
  refine ⟨⟨⟨h.enqueued item hself, h.untaken item hself, h.kept item hself, ?_⟩, h.historic⟩, ?_, ?_,
    ?_, hsorted, hdistinct, ?_, ?_, ?_, ?_, ?_⟩
  · intro other hother htaken hdropped
    obtain hin := (h.waiting other hother htaken).resolve_right hdropped
    obtain rfl | hin := List.mem_cons.mp hin
    · exact le_refl _
    · exact hleast other hin
  · intro event hevent
    obtain rfl | hevent := List.mem_cons.mp hevent
    · have hle : item.counter ≤ bound := h.bounded _ (h.enqueued item hself)
      exact hle
    · exact h.bounded event hevent
  · intro counter hpos hle
    obtain ⟨other, hother, hcounter⟩ := h.known counter hpos hle
    exact ⟨other, List.mem_cons_of_mem _ hother, hcounter⟩
  · intro counter outcome
    rw [h.futures, List.mem_cons]
    exact ⟨.inr, fun hmem => hmem.resolve_left nofun⟩
  · exact fun other hother =>
      List.mem_cons_of_mem _ (h.enqueued other (List.mem_cons_of_mem _ hother))
  · intro other hother htaken
    obtain hsame | htaken := List.mem_cons.mp htaken
    · cases hsame
      exact hnew (List.mem_map_of_mem hother)
    · exact h.untaken other (List.mem_cons_of_mem _ hother) htaken
  · intro other hother hdropped
    exact h.kept other (List.mem_cons_of_mem _ hother)
      ((List.mem_cons.mp hdropped).resolve_left nofun)
  · intro other hother event hevent hnote
    obtain rfl | hevent := List.mem_cons.mp hevent
    · cases hnote
    · exact h.untouched other (List.mem_cons_of_mem _ hother) event hevent hnote
  · intro other hother htaken
    obtain hother := (List.mem_cons.mp hother).resolve_left nofun
    obtain hin | hdropped := h.waiting other hother fun hmem => htaken (List.mem_cons_of_mem _ hmem)
    · obtain rfl | hin := List.mem_cons.mp hin
      · exact absurd List.mem_cons_self htaken
      · exact .inl hin
    · exact .inr (List.mem_cons_of_mem _ hdropped)

theorem complete (h : QueueInv bound queue futures history) (outcome : FutureOutcome)
    (hnone : futures counter = none)
    (hknown : ∃ item, .enqueued item ∈ history ∧ item.counter = counter) :
    QueueInv bound queue (Function.update futures counter (some outcome))
      (.completed counter outcome :: history) := by
  refine ⟨⟨⟨hknown, h.pending hnone⟩, h.historic⟩, ?_, ?_, ?_, h.sorted, h.distinct, ?_, ?_, ?_, ?_,
    ?_⟩
  · intro event hevent
    obtain rfl | hevent := List.mem_cons.mp hevent
    · obtain ⟨item, hitem, rfl⟩ := hknown
      have hle : item.counter ≤ bound := h.bounded _ hitem
      exact hle
    · exact h.bounded event hevent
  · intro counter' hpos hle
    obtain ⟨other, hother, hcounter⟩ := h.known counter' hpos hle
    exact ⟨other, List.mem_cons_of_mem _ hother, hcounter⟩
  · intro counter' outcome'
    rw [List.mem_cons, CommandEvent.completed.injEq, ← h.futures]
    by_cases hsame : counter' = counter
    · subst hsame
      rw [Function.update_self, hnone, Option.some.injEq]
      exact ⟨fun heq => .inl ⟨rfl, heq.symm⟩, fun hor => (hor.resolve_right nofun).2.symm⟩
    · rw [Function.update_of_ne hsame]
      exact ⟨.inr, fun hor => hor.resolve_left fun heq => hsame heq.1⟩
  · exact fun other hother => List.mem_cons_of_mem _ (h.enqueued other hother)
  · exact fun other hother htaken =>
      h.untaken other hother ((List.mem_cons.mp htaken).resolve_left nofun)
  · exact fun other hother hdropped =>
      h.kept other hother ((List.mem_cons.mp hdropped).resolve_left nofun)
  · intro other hother event hevent hnote
    obtain rfl | hevent := List.mem_cons.mp hevent
    · cases hnote
    · exact h.untouched other hother event hevent hnote
  · intro other hother htaken
    obtain hin | hdropped := h.waiting other ((List.mem_cons.mp hother).resolve_left nofun)
      fun hmem => htaken (List.mem_cons_of_mem _ hmem)
    · exact .inl hin
    · exact .inr (List.mem_cons_of_mem _ hdropped)

theorem drop (h : QueueInv bound (item :: queue) futures history) :
    QueueInv bound queue futures (.dropped item.counter :: history) := by
  obtain ⟨hnew, hdistinct⟩ := List.nodup_cons.mp h.distinct
  have hself := List.mem_cons_self (a := item) (l := queue)
  refine ⟨⟨trivial, h.historic⟩, ?_, ?_, ?_, (List.pairwise_cons.mp h.sorted).2, hdistinct, ?_, ?_,
    ?_, ?_, ?_⟩
  · intro event hevent
    obtain rfl | hevent := List.mem_cons.mp hevent
    · have hle : item.counter ≤ bound := h.bounded _ (h.enqueued item hself)
      exact hle
    · exact h.bounded event hevent
  · intro counter hpos hle
    obtain ⟨other, hother, hcounter⟩ := h.known counter hpos hle
    exact ⟨other, List.mem_cons_of_mem _ hother, hcounter⟩
  · intro counter outcome
    rw [h.futures, List.mem_cons]
    exact ⟨.inr, fun hmem => hmem.resolve_left nofun⟩
  · exact fun other hother =>
      List.mem_cons_of_mem _ (h.enqueued other (List.mem_cons_of_mem _ hother))
  · exact fun other hother htaken => h.untaken other (List.mem_cons_of_mem _ hother)
      ((List.mem_cons.mp htaken).resolve_left nofun)
  · intro other hother hdropped
    obtain hsame | hbefore := List.mem_cons.mp hdropped
    · rw [CommandEvent.dropped.injEq] at hsame
      exact hnew (hsame ▸ List.mem_map_of_mem hother)
    · exact h.kept other (List.mem_cons_of_mem _ hother) hbefore
  · intro other hother event hevent hnote
    obtain rfl | hevent := List.mem_cons.mp hevent
    · cases hnote
    · exact h.untouched other (List.mem_cons_of_mem _ hother) event hevent hnote
  · intro other hother htaken
    obtain hin | hdropped := h.waiting other ((List.mem_cons.mp hother).resolve_left nofun)
      fun hmem => htaken (List.mem_cons_of_mem _ hmem)
    · obtain rfl | hin := List.mem_cons.mp hin
      · exact .inr List.mem_cons_self
      · exact .inl hin
    · exact .inr (List.mem_cons_of_mem _ hdropped)

/-- An event that is about no command of the queue. -/
theorem note (h : QueueInv bound queue futures history) (hnote : event.isNote = true)
    (hallowed : CommandAllowed history event) (hbound : event.counter ≤ bound)
    (hother : ∀ item ∈ queue, event.counter ≠ item.counter) :
    QueueInv bound queue futures (event :: history) := by
  have hold {event' : CommandEvent} (hmem : event' ∈ event :: history)
      (hnot : event'.isNote = false) : event' ∈ history := by
    obtain rfl | hmem := List.mem_cons.mp hmem
    · rw [hnote] at hnot
      cases hnot
    · exact hmem
  refine ⟨⟨hallowed, h.historic⟩, ?_, ?_, ?_, h.sorted, h.distinct, ?_, ?_, ?_, ?_, ?_⟩
  · intro event' hevent
    obtain rfl | hevent := List.mem_cons.mp hevent
    · exact hbound
    · exact h.bounded event' hevent
  · intro counter hpos hle
    obtain ⟨item, hitem, hcounter⟩ := h.known counter hpos hle
    exact ⟨item, List.mem_cons_of_mem _ hitem, hcounter⟩
  · intro counter outcome
    rw [h.futures]
    exact ⟨List.mem_cons_of_mem _, fun hmem => hold hmem rfl⟩
  · exact fun item hitem => List.mem_cons_of_mem _ (h.enqueued item hitem)
  · exact fun item hitem htaken => h.untaken item hitem (hold htaken rfl)
  · exact fun item hitem hdropped => h.kept item hitem (hold hdropped rfl)
  · intro item hitem event' hevent hnote'
    obtain rfl | hevent := List.mem_cons.mp hevent
    · exact hother item hitem
    · exact h.untouched item hitem event' hevent hnote'
  · intro item hitem htaken
    obtain hin | hdropped := h.waiting item (hold hitem rfl) fun hmem =>
      htaken (List.mem_cons_of_mem _ hmem)
    · exact .inl hin
    · exact .inr (List.mem_cons_of_mem _ hdropped)

end QueueInv

end CameraLogs.Collection
