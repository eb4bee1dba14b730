import Mathlib.Data.List.Range
import CameraLogs.Collection.Runtime
import CameraLogs.Lib.Run

/-!
# Reading on from a cursor

The frames a task has received on a node, through all its instances, are one history. A
subscriber that passes back the cursor it was last given should get what is buffered
behind that frame, and a gap flag when something behind it is no longer to be had.

`tail_sound_iff` says when it does. Two things stand in its way: the number in a cursor
starts anew with every instance, so after a resume under the same run it is compared
with numbers of another series; and the gap flag is read off the first frame returned,
so it stays down when no frame is returned, or when the lost frames are those of an
earlier instance.
-/

namespace CameraLogs.Collection

open Lib

/-! ## Lists with numbers one behind the other -/

/-- The items numbered above a bound are what is left without those up to it. -/
theorem filter_number {α : Type} {f : α → Nat} {xs : List α} {k : Nat}
    (h : xs.map f = List.range' (k + 1) xs.length) (m : Nat) :
    xs.filter (fun x => m < f x) = xs.drop (m - k) := by
  induction xs generalizing k with
  | nil => simp
  | cons x xs ih =>
    rw [List.map_cons, List.length_cons, List.range'_succ, List.cons.injEq] at h
    obtain ⟨hx, hxs⟩ := h
    by_cases hm : m ≤ k
    · -- every number is above the bound
      have hall : ∀ y ∈ xs, m < f y := by
        intro y hy
        have hmem : f y ∈ List.range' (k + 1 + 1) xs.length := hxs ▸ List.mem_map_of_mem hy
        have hle := (List.mem_range'_1.mp hmem).1
        omega
      have hself : xs.filter (fun x => m < f x) = xs :=
        List.filter_eq_self.mpr fun y hy => by simpa using hall y hy
      have hcond : m < f x := by omega
      simp [Nat.sub_eq_zero_of_le hm, hcond, hself]
    · have hcond : ¬ m < f x := by omega
      have hdrop : m - k = m - (k + 1) + 1 := by omega
      rw [List.filter_cons_of_neg (by simpa using hcond), ih hxs, hdrop, List.drop_succ_cons]

/-! ## The history of a task on a node -/

/-- A task on a node: what it has received, the instance that runs, and one subscriber. -/
structure LiveTask where
  received : List DataFrame
  instances : Nat
  active : Option Instance
  /-- The run that a resume goes on with. -/
  paused : Option RunId
  runs : List RunId
  cursor : CursorText
  /-- Where in the history the frame is that the cursor denotes. -/
  given : Option Nat
  /-- Where the frames are that the subscriber has been sent. -/
  delivered : List Nat

def LiveTask.initial : LiveTask :=
  { received := [], instances := 0, active := none, paused := none, runs := []
    cursor := .empty, given := none, delivered := [] }

/-- A new instance under a run. -/
def LiveTask.launch (task : LiveTask) (run : RunId) : LiveTask :=
  { task with
    instances := task.instances + 1
    active := some { index := task.instances, start := task.received.length
                     runtime := SessionRuntime.create run }
    paused := none, runs := run :: task.runs }

/-- The instance stores a chunk. -/
def LiveTask.receive (task : LiveTask) (inst : Instance) (chunk : LogChunk) : LiveTask :=
  { task with
    received := task.received ++ [frameOf inst.runtime chunk]
    active := some { inst with runtime := onLog inst.runtime chunk } }

/-- The instance ends; a pause keeps its run. -/
def LiveTask.leave (task : LiveTask) (paused : Option RunId) : LiveTask :=
  { task with active := none, paused }

/-- The answer to the subscriber, which had asked the instance of this number. -/
def LiveTask.answer (task : LiveTask) (asked : Option Nat) : Tail :=
  nodeTail asked task.active task.cursor

/-- The subscriber takes the frames and the cursor of the last of them. -/
def LiveTask.read (task : LiveTask) (asked : Option Nat) : LiveTask :=
  let frames := (task.answer asked).frames
  { task with
    cursor := match frames.getLast? with
      | some frame => .frame frame.cursor
      | none => task.cursor
    given := if frames = [] then task.given else some (task.received.length - 1)
    delivered := task.delivered ++
      List.range' (task.received.length - frames.length) frames.length }

inductive TailStep : LiveTask → LiveTask → Prop
  | launched {task : LiveTask} (run : RunId) (idle : task.active = none) (fresh : run ∉ task.runs) :
      TailStep task (task.launch run)
  | resumed {task : LiveTask} {run : RunId} (idle : task.active = none)
      (paused : task.paused = some run) : TailStep task (task.launch run)
  | received {task : LiveTask} {inst : Instance} (chunk : LogChunk)
      (active : task.active = some inst) : TailStep task (task.receive inst chunk)
  | pausing {task : LiveTask} {inst : Instance} (active : task.active = some inst) :
      TailStep task (task.leave (some inst.runtime.runId))
  | stopped {task : LiveTask} {inst : Instance} (active : task.active = some inst) :
      TailStep task (task.leave none)
  | read {task : LiveTask} (asked : Option Nat) : TailStep task (task.read asked)

/-- The tasks that steps have brought about. -/
def LiveReachable : LiveTask → Prop := Reachable (· = LiveTask.initial) TailStep

/-! ## What a read should be -/

/-- The frames that can still be read. -/
def LiveTask.available (task : LiveTask) : List DataFrame :=
  match task.active with
  | none => []
  | some inst => inst.runtime.frames

/-- How many frames of the history can no longer be read. -/
def LiveTask.lost (task : LiveTask) : Nat := task.received.length - task.available.length

/-- The answer is what is buffered behind the frame at `given`, and has the gap flag up if
a frame behind it is lost. -/
def LiveTask.Sound (task : LiveTask) (asked : Option Nat) (given : Nat) : Prop :=
  (task.answer asked).frames = task.received.drop (max (given + 1) task.lost) ∧
    (given + 1 < task.lost → (task.answer asked).gap = true)

/-- Nothing has been received behind the frame at `given`. Or the instance that was asked
is still the active one and has a frame buffered, and either it received the frame at
`given` itself; or that frame is of an earlier instance of its run, and the oldest frame
buffered is numbered more than one above the cursor; or it is of another run, and this
instance has evicted a frame, or nothing behind the frame at `given` is lost. -/
def LiveTask.Follows (task : LiveTask) (asked : Option Nat) (given : Nat) : Prop :=
  given + 1 = task.received.length ∨
  ∃ inst cursor, task.active = some inst ∧ task.cursor = .frame cursor ∧
    asked = some inst.index ∧ inst.runtime.frames ≠ [] ∧
    (inst.start ≤ given ∨
      (cursor.run = inst.runtime.runId ∧ inst.start + cursor.number < task.lost) ∨
      (cursor.run ≠ inst.runtime.runId ∧ (inst.start < task.lost ∨ task.lost ≤ given + 1)))

/-! ## The invariant -/

/-- The frames of an instance: those received since its start, numbered from one, without
the oldest `evicted`. -/
structure InstanceOk (received : List DataFrame) (inst : Instance) (evicted : Nat) : Prop where
  start : inst.start + evicted ≤ received.length
  frames : inst.runtime.frames = received.drop (inst.start + evicted)
  cursors : (received.drop inst.start).map (·.cursor) =
    (List.range' 1 (received.length - inst.start)).map fun number => ⟨inst.runtime.runId, number⟩
  number : inst.runtime.frameNumber = received.length - inst.start
  bytes : inst.runtime.frameBytes = (inst.runtime.frames.map (·.size)).sum
  limit : inst.runtime.frameBytes ≤ maxFrameBytes

/-- What holds in every state of a history. -/
structure LiveOk (task : LiveTask) : Prop where
  active : ∀ inst, task.active = some inst → ∃ evicted, InstanceOk task.received inst evicted
  numbered : ∀ frame ∈ task.received, 1 ≤ frame.cursor.number
  blank : task.given = none → task.cursor = .empty ∧ task.delivered = []
  denotes : ∀ given, task.given = some given → ∃ frame, task.received[given]? = some frame ∧
    task.cursor = .frame frame.cursor
  increasing : task.delivered.Pairwise (· < ·)
  upTo : ∀ given, task.given = some given → ∀ position ∈ task.delivered, position ≤ given

section Instance

variable {received : List DataFrame} {inst : Instance} {evicted : Nat}

/-- A new instance has nothing of the history. -/
theorem InstanceOk.launch (received : List DataFrame) (index : Nat) (run : RunId) :
    InstanceOk received ⟨index, received.length, SessionRuntime.create run⟩ 0 where
  start := Nat.le_refl _
  frames := by simp [SessionRuntime.create]
  cursors := by simp
  number := by simp [SessionRuntime.create]
  bytes := rfl
  limit := Nat.zero_le _

/-- What an instance stores is its next frame; what it evicts are its oldest ones. -/
theorem InstanceOk.receive (h : InstanceOk received inst evicted) (chunk : LogChunk) :
    ∃ evicted', InstanceOk (received ++ [frameOf inst.runtime chunk])
      { inst with runtime := onLog inst.runtime chunk } evicted' := by
  have hstart : inst.start ≤ received.length := by
    have hle := h.start
    omega
  have hall : inst.runtime.frames ++ [frameOf inst.runtime chunk] =
      (received ++ [frameOf inst.runtime chunk]).drop (inst.start + evicted) := by
    rw [List.drop_append_of_le_length h.start, ← h.frames]
  have hbytes : inst.runtime.frameBytes + chunk.data.length =
      ((inst.runtime.frames ++ [frameOf inst.runtime chunk]).map (·.size)).sum := by
    simp [h.bytes, frameOf]
  obtain ⟨dropped, hdropped⟩ := evict_suffix
    (inst.runtime.frameBytes + chunk.data.length) (inst.runtime.frames ++ [frameOf inst.runtime chunk])
  have hlength : dropped.length ≤ received.length + 1 - (inst.start + evicted) := by
    have hlen := congrArg List.length hdropped
    rw [hall] at hlen
    simp at hlen
    omega
  refine ⟨evicted + dropped.length, ?_⟩
  exact {
    start := by
      have hle := h.start
      simp
      omega
    frames := by
      rw [← Nat.add_assoc, ← List.drop_drop, ← hall]
      have hkept := congrArg (List.drop dropped.length) hdropped
      rwa [List.drop_left] at hkept
    cursors := by
      have hone : received.length + 1 - inst.start = received.length - inst.start + 1 := by omega
      rw [List.drop_append_of_le_length hstart, List.map_append, h.cursors, List.length_append,
        List.length_singleton, hone, List.range'_concat, List.map_append]
      simp [frameOf, onLog, h.number, Nat.add_comm]
    number := by
      have hnumber := h.number
      simp [onLog, hnumber]
      omega
    bytes := by
      show (evict _ _).1 = ((evict _ _).2.map _).sum
      rw [hbytes]
      exact evict_bytes _
    limit := by
      show (evict _ _).1 ≤ _
      rw [hbytes]
      exact evict_le _ }

/-- The frames buffered are numbered one behind the other. -/
theorem InstanceOk.numbers (h : InstanceOk received inst evicted) :
    inst.runtime.frames.map (fun frame => frame.cursor.number) =
      List.range' (evicted + 1) inst.runtime.frames.length := by
  have hcursors := congrArg (fun cursors => (cursors.drop evicted).map Cursor.number) h.cursors
  simp only [← List.map_drop, List.map_map, List.drop_drop, ← h.frames, List.drop_range'] at hcursors
  have hlength : inst.runtime.frames.length = received.length - inst.start - evicted := by
    rw [h.frames, List.length_drop, Nat.sub_sub]
  rw [hlength]
  have hmap : Cursor.number ∘ (fun number => ⟨inst.runtime.runId, number⟩) = id := rfl
  rw [hmap, List.map_id] at hcursors
  rw [Nat.add_comm evicted 1]
  simpa [Function.comp_def] using hcursors

/-- Whatever the cursor, what is read is an end of the history. -/
theorem InstanceOk.tail_suffix (h : InstanceOk received inst evicted) (cursor : CursorText) :
    (inst.runtime.tail cursor).frames <:+ received := by
  have hframes : inst.runtime.frames <:+ received := by
    rw [h.frames]
    exact List.drop_suffix _ _
  simp only [SessionRuntime.tail]
  rw [filter_number h.numbers]
  by_cases hcursor : cursor = .empty
  · simp only [hcursor, if_true]
    exact (List.drop_suffix _ _).trans ((List.drop_suffix _ _).trans hframes)
  · simp only [hcursor, if_false]
    exact (List.drop_suffix _ _).trans hframes

/-- A read with a cursor: the frames above its number are the end of the history. -/
theorem InstanceOk.tail_frames (h : InstanceOk received inst evicted) {cursor : CursorText}
    (hcursor : cursor ≠ .empty) : (inst.runtime.tail cursor).frames =
      received.drop (inst.start + max evicted (inst.runtime.numberOf cursor)) := by
  have hsum : evicted + (inst.runtime.numberOf cursor - evicted) =
      max evicted (inst.runtime.numberOf cursor) := by omega
  simp only [SessionRuntime.tail, hcursor, if_false]
  rw [filter_number h.numbers, h.frames, List.drop_drop, Nat.add_assoc, hsum]

/-- The gap flag is up when a frame is returned and one between it and the cursor's number
has been evicted. -/
theorem InstanceOk.tail_gap (h : InstanceOk received inst evicted) {cursor : CursorText}
    (hcursor : cursor ≠ .empty) : (inst.runtime.tail cursor).gap = true ↔
      inst.runtime.frames ≠ [] ∧ inst.runtime.numberOf cursor < evicted := by
  have hfilter := filter_number h.numbers (inst.runtime.numberOf cursor)
  have hnumbers := h.numbers
  simp only [SessionRuntime.tail, hcursor, if_false]
  rw [hfilter]
  by_cases hlt : inst.runtime.numberOf cursor < evicted
  · -- everything buffered is returned, and its first number tells
    rw [Nat.sub_eq_zero_of_le (Nat.le_of_lt hlt), List.drop_zero]
    cases hframes : inst.runtime.frames with
    | nil => simp
    | cons frame frames =>
      rw [hframes, List.map_cons, List.length_cons, List.range'_succ, List.cons.injEq] at hnumbers
      simp [hnumbers.1, hlt]
  · -- the first frame returned is the one behind the cursor's
    simp only [hlt, and_false, iff_false]
    cases hdrop : inst.runtime.frames.drop (inst.runtime.numberOf cursor - evicted) with
    | nil => simp
    | cons frame frames =>
      have hmap := congrArg (List.drop (inst.runtime.numberOf cursor - evicted)) hnumbers
      rw [← List.map_drop, hdrop, List.drop_range', List.map_cons] at hmap
      cases hlen : inst.runtime.frames.length - (inst.runtime.numberOf cursor - evicted) with
      | zero =>
        rw [hlen] at hmap
        cases hmap
      | succ n =>
        rw [hlen, List.range'_succ, List.cons.injEq] at hmap
        have hnumber := hmap.1
        show ¬ decide (_ < frame.cursor.number) = true
        rw [decide_eq_true_eq, hnumber]
        omega

end Instance

section Read

variable {task : LiveTask} {inst : Instance} {evicted given : Nat}

theorem InstanceOk.lost (h : InstanceOk task.received inst evicted)
    (hactive : task.active = some inst) : task.lost = inst.start + evicted := by
  have hstart := h.start
  simp only [LiveTask.lost, LiveTask.available, hactive]
  rw [h.frames, List.length_drop]
  omega

/-- A cursor of the instance's own is the place of its frame. -/
theorem InstanceOk.numberOf_own (h : InstanceOk task.received inst evicted) {frame : DataFrame}
    (hframe : task.received[given]? = some frame) (hstart : inst.start ≤ given) :
    inst.runtime.numberOf (.frame frame.cursor) = given - inst.start + 1 := by
  have hget : ((task.received.drop inst.start).map (·.cursor))[given - inst.start]? =
      some frame.cursor := by
    rw [List.getElem?_map, List.getElem?_drop, Nat.add_sub_cancel' hstart, hframe]
    rfl
  have hlt : given < task.received.length := (List.getElem?_eq_some_iff.mp hframe).1
  rw [h.cursors, List.getElem?_map, List.getElem?_range' (by omega)] at hget
  have hcursor := Option.some.inj hget
  rw [← hcursor]
  simp [SessionRuntime.numberOf]
  omega

/-- No answer to a read reaches in front of the frame the cursor denotes. -/
theorem LiveOk.answer_behind (h : LiveOk task) (asked : Option Nat) :
    (task.answer asked).frames <:+ task.received ∧ ∀ given, task.given = some given →
      (task.answer asked).frames = [] ∨
        given < task.received.length - (task.answer asked).frames.length := by
  unfold LiveTask.answer nodeTail
  split
  next => exact ⟨List.nil_suffix, fun _ _ => .inl rfl⟩
  next inst hactive =>
    obtain ⟨evicted, hinst⟩ := h.active inst hactive
    split
    next =>
      refine ⟨hinst.tail_suffix task.cursor, fun given hgiven => ?_⟩
      obtain ⟨frame, hframe, hcursor⟩ := h.denotes given hgiven
      have hlt : given < task.received.length := (List.getElem?_eq_some_iff.mp hframe).1
      rw [hinst.tail_frames (by rw [hcursor]; simp), List.length_drop, hcursor]
      by_cases hstart : inst.start ≤ given
      · rw [hinst.numberOf_own hframe hstart, List.drop_eq_nil_iff]
        omega
      · rw [List.drop_eq_nil_iff]
        omega
    next => exact ⟨List.nil_suffix, fun _ _ => .inl rfl⟩

/-! ### Steps -/

theorem LiveOk.launch (h : LiveOk task) (run : RunId) : LiveOk (task.launch run) where
  active inst hactive := by
    cases hactive
    exact ⟨0, InstanceOk.launch _ _ _⟩
  numbered := h.numbered
  blank := h.blank
  denotes := h.denotes
  increasing := h.increasing
  upTo := h.upTo

theorem LiveOk.receive (h : LiveOk task) (hactive : task.active = some inst) (chunk : LogChunk) :
    LiveOk (task.receive inst chunk) where
  active inst' hactive' := by
    cases hactive'
    obtain ⟨evicted, hinst⟩ := h.active inst hactive
    exact hinst.receive chunk
  numbered := by
    intro frame hin
    rcases List.mem_append.mp hin with hin | hin
    · exact h.numbered frame hin
    · rw [List.mem_singleton.mp hin]
      simp [frameOf]
  blank := h.blank
  denotes given hgiven := by
    obtain ⟨frame, hframe, hcursor⟩ := h.denotes given hgiven
    have hlt : given < task.received.length := (List.getElem?_eq_some_iff.mp hframe).1
    exact ⟨frame, (List.getElem?_append_left hlt).trans hframe, hcursor⟩
  increasing := h.increasing
  upTo := h.upTo

theorem LiveOk.leave (h : LiveOk task) (paused : Option RunId) : LiveOk (task.leave paused) where
  active _ hactive := nomatch hactive
  numbered := h.numbered
  blank := h.blank
  denotes := h.denotes
  increasing := h.increasing
  upTo := h.upTo

/-- A read that returns nothing changes nothing. -/
theorem LiveTask.read_of_nil {asked : Option Nat} (hnil : (task.answer asked).frames = []) :
    task.read asked = task := by
  simp [LiveTask.read, hnil]

/-- Frames sent to the subscriber are all behind those sent before. -/
theorem LiveOk.read (h : LiveOk task) (asked : Option Nat) : LiveOk (task.read asked) := by
  by_cases hnil : (task.answer asked).frames = []
  · rw [LiveTask.read_of_nil hnil]
    exact h
  · obtain ⟨hsuffix, hbehind⟩ := h.answer_behind asked
    have hlength := hsuffix.length_le
    have hpos := List.length_pos_iff.mpr hnil
    have hlast := List.getLast?_eq_some_getLast hnil
    have hold : ∀ position ∈ task.delivered,
        position < task.received.length - (task.answer asked).frames.length := by
      intro position hin
      cases hgiven : task.given with
      | none =>
        rw [(h.blank hgiven).2] at hin
        cases hin
      | some given =>
        exact Nat.lt_of_le_of_lt (h.upTo given hgiven position hin)
          ((hbehind given hgiven).resolve_left hnil)
    exact {
      active := h.active
      numbered := h.numbered
      blank := by
        intro hnone
        simp [LiveTask.read, hnil] at hnone
      denotes := by
        intro given hgiven
        simp only [LiveTask.read, hnil, if_false, Option.some.injEq] at hgiven
        subst hgiven
        refine ⟨(task.answer asked).frames.getLast hnil, ?_, ?_⟩
        · show task.received[task.received.length - 1]? = _
          rw [← List.getLast?_eq_getElem?, ← hlast]
          obtain ⟨front, hfront⟩ := hsuffix
          rw [← hfront, List.getLast?_append_of_ne_nil _ hnil]
        · simp only [LiveTask.read, hlast]
      increasing := by
        refine List.pairwise_append.mpr ⟨h.increasing, List.pairwise_lt_range', ?_⟩
        intro position hin position' hin'
        exact Nat.lt_of_lt_of_le (hold position hin) (List.mem_range'_1.mp hin').1
      upTo := by
        intro given hgiven position hin
        simp only [LiveTask.read, hnil, if_false, Option.some.injEq] at hgiven
        subst hgiven
        rcases List.mem_append.mp hin with hin | hin
        · have hlt := hold position hin
          omega
        · have hrange := List.mem_range'_1.mp hin
          omega }

theorem tailStep_ok {task' : LiveTask} (hst : TailStep task task') (h : LiveOk task) :
    LiveOk task' := by
  cases hst with
  | launched run => exact h.launch run
  | resumed => exact h.launch _
  | received chunk hactive => exact h.receive hactive chunk
  | pausing => exact h.leave _
  | stopped => exact h.leave _
  | read asked => exact h.read asked

/-- The invariant over runs. -/
theorem LiveReachable.ok (h : LiveReachable task) : LiveOk task := by
  refine Reachable.invariant ?_ (fun _ _ hst => tailStep_ok hst) h
  intro s hs
  subst hs
  exact {
    active := fun _ hactive => nomatch hactive
    numbered := fun _ hin => nomatch hin
    blank := fun _ => ⟨rfl, rfl⟩
    denotes := fun _ hgiven => nomatch hgiven
    increasing := List.Pairwise.nil
    upTo := fun _ _ _ hin => nomatch hin }

end Read

/-! ## When a read is sound -/

section Sound

variable {task : LiveTask} {asked : Option Nat} {given : Nat}

/-- An empty answer is sound only when there is nothing behind the frame. -/
theorem sound_of_empty (hlt : given < task.received.length)
    (hanswer : task.answer asked = { frames := [], gap := false }) :
    task.Sound asked given ↔ given + 1 = task.received.length := by
  have hlost : task.lost ≤ task.received.length := Nat.sub_le _ _
  unfold LiveTask.Sound
  rw [hanswer, eq_comm, List.drop_eq_nil_iff]
  simp
  omega

/-- The frames that can be read are the end of the history. -/
theorem LiveOk.available_eq (h : LiveOk task) :
    task.available = task.received.drop task.lost := by
  cases hactive : task.active with
  | none => simp [LiveTask.lost, LiveTask.available, hactive]
  | some inst =>
    obtain ⟨evicted, hinst⟩ := h.active inst hactive
    rw [hinst.lost hactive]
    simp only [LiveTask.available, hactive]
    exact hinst.frames

/-- **A read passes on exactly what is buffered behind the cursor's frame, and reports
what is lost, exactly when `Follows` holds; and no run ever delivers a frame twice.** -/
theorem tail_sound_iff (h : LiveReachable task) :
    task.available = task.received.drop task.lost ∧ task.delivered.Pairwise (· < ·) ∧
      ∀ given, task.given = some given → ∀ asked,
        task.Sound asked given ↔ task.Follows asked given := by
  have hok := h.ok
  refine ⟨hok.available_eq, hok.increasing, fun given hgiven asked => ?_⟩
  obtain ⟨frame, hframe, hcursor⟩ := hok.denotes given hgiven
  have hlt : given < task.received.length := (List.getElem?_eq_some_iff.mp hframe).1
  have hnonempty : CursorText.frame frame.cursor ≠ .empty := by simp
  unfold LiveTask.Follows
  cases hactive : task.active with
  | none =>
    have hanswer : task.answer asked = { frames := [], gap := false } := by
      simp [LiveTask.answer, nodeTail, hactive]
    rw [sound_of_empty hlt hanswer]
    simp
  | some inst =>
    by_cases hasked : asked = some inst.index
    · obtain ⟨evicted, hinst⟩ := hok.active inst hactive
      have hanswer : task.answer asked = inst.runtime.tail (.frame frame.cursor) := by
        simp [LiveTask.answer, nodeTail, hactive, hasked, hcursor]
      have hstart := hinst.start
      have hnumber := hok.numbered frame (List.mem_of_getElem? hframe)
      have hbuffered : inst.runtime.frames ≠ [] ↔ inst.start + evicted < task.received.length := by
        rw [hinst.frames, Ne, List.drop_eq_nil_iff]
        omega
      unfold LiveTask.Sound
      rw [hanswer, hinst.tail_frames hnonempty, hinst.tail_gap hnonempty, List.drop_eq_drop_iff,
        hinst.lost hactive, hbuffered]
      simp only [Option.some.injEq, hcursor, CursorText.frame.injEq, hasked]
      by_cases hown : inst.start ≤ given
      · -- the instance's own frame: the cursor's number is its place
        rw [hinst.numberOf_own hframe hown]
        simp [hown, hbuffered]
        omega
      · by_cases hrun : frame.cursor.run = inst.runtime.runId
        · -- a number of an earlier instance, taken for one of this
          have hof : inst.runtime.numberOf (.frame frame.cursor) = frame.cursor.number := by
            simp [SessionRuntime.numberOf, hrun]
          rw [hof]
          simp [hown, hrun, hbuffered]
          omega
        · have hof : inst.runtime.numberOf (.frame frame.cursor) = 0 := by
            simp [SessionRuntime.numberOf, hrun]
          rw [hof]
          simp [hown, hrun, hbuffered]
          omega
    · have hanswer : task.answer asked = { frames := [], gap := false } := by
        simp [LiveTask.answer, nodeTail, hactive, hasked]
      rw [sound_of_empty hlt hanswer]
      refine ⟨.inl, fun hor => hor.resolve_right ?_⟩
      intro hex
      obtain ⟨inst', _, hinst', _, hasked', _⟩ := hex
      cases hinst'
      exact hasked hasked'

end Sound

/-! ## Two histories -/

/-- A chunk of two bytes. -/
def smallChunk : LogChunk :=
  { fileId := "file", sessionId := "session", runId := 1, offset := 0, data := [104, 10] }

/-- What the instance that runs stores; nothing happens when none does. -/
def LiveTask.store (task : LiveTask) (chunk : LogChunk) : LiveTask :=
  match task.active with
  | none => task
  | some inst => task.receive inst chunk

theorem LiveReachable.store {task : LiveTask} (h : LiveReachable task) (chunk : LogChunk) :
    LiveReachable (task.store chunk) := by
  unfold LiveTask.store
  split
  · exact h
  · exact Reachable.tail h (.received chunk ‹_›)

/-- A pause, if an instance runs. -/
def LiveTask.pause (task : LiveTask) : LiveTask :=
  match task.active with
  | none => task
  | some inst => task.leave (some inst.runtime.runId)

theorem LiveReachable.pause {task : LiveTask} (h : LiveReachable task) :
    LiveReachable task.pause := by
  unfold LiveTask.pause
  split
  · exact h
  · exact Reachable.tail h (.pausing ‹_›)

/-- Three frames of one instance, read. -/
def readThree : LiveTask :=
  ((((LiveTask.initial.launch 1).store smallChunk).store smallChunk).store smallChunk).read (some 0)

/-- A pause, a resume under the same run, and one more frame. -/
def resumedTask : LiveTask := (readThree.pause.launch 1).store smallChunk

theorem readThree_reachable : LiveReachable readThree := by
  have hlaunch : LiveReachable (LiveTask.initial.launch 1) :=
    Reachable.tail (Reachable.initial rfl) (.launched 1 rfl List.not_mem_nil)
  exact Reachable.tail (((hlaunch.store _).store _).store _) (.read (some 0))

theorem resumedTask_reachable : LiveReachable resumedTask := by
  have hresumed : LiveReachable (readThree.pause.launch 1) :=
    Reachable.tail readThree_reachable.pause (.resumed rfl rfl)
  exact hresumed.store _

theorem tail_sound_iff_reread : readThree.available = readThree.received.drop readThree.lost ∧
    readThree.delivered.Pairwise (· < ·) ∧ ∀ given, readThree.given = some given → ∀ asked,
      readThree.Sound asked given ↔ readThree.Follows asked given :=
  tail_sound_iff readThree_reachable

/-- After the resume the cursor still has the number three: the new instance's first frame
is buffered, and neither returned nor reported. -/
theorem tail_drops_resumed : LiveReachable resumedTask ∧ resumedTask.given = some 2 ∧
    resumedTask.answer (some 1) = { frames := [], gap := false } ∧
    resumedTask.available.length = 1 ∧ ¬ resumedTask.Sound (some 1) 2 := by
  refine ⟨resumedTask_reachable, by decide, by decide, by decide, ?_⟩
  unfold LiveTask.Sound
  decide

end CameraLogs.Collection
