import CameraLogs.Collection.LinePrefix

/-!
# A stamp in front of each line, and nowhere else

A collector's blocks are the bytes of a stream, each with the time of the block it came in.
`stampLines` goes through these bytes one at a time; `prefixLines` goes through blocks, and
`stampLines_append` says why the bit between them is enough. The stamp a block has too much
is the one behind its last newline (`replaceNewlines_eq`).
-/

namespace CameraLogs.Collection

open Logs

variable {τ : Type} {localTime : τ → LocalTime} {atLineStart : Bool} {time : τ} {data : Bytes}
  {xs : List (UInt8 × τ)} {x : UInt8 × τ}

/-- The calls of `prefix` for the blocks of a session, with their receive times. -/
def prefixBlocks (localTime : τ → LocalTime) (atLineStart : Bool) : List (Bytes × τ) → Bytes
  | [] => []
  | (data, time) :: rest =>
    let (output, atLineStart) := prefixLines atLineStart data (localTime time).stamp
    output ++ prefixBlocks localTime atLineStart rest

/-- The bytes of the blocks, each with its receive time. -/
def received (blocks : List (Bytes × τ)) : List (UInt8 × τ) :=
  blocks.flatMap fun (data, time) => data.map (·, time)

/-- The byte at a position is the first of a line. -/
def StartsLine (xs : List (UInt8 × τ)) (position : Nat) : Prop :=
  position = 0 ∨ (xs[position - 1]?).map Prod.fst = some newline

instance (xs : List (UInt8 × τ)) (position : Nat) : Decidable (StartsLine xs position) :=
  inferInstanceAs (Decidable (_ ∨ _))

/-- The text without the stamps: at the start of a line `skip` bytes are left out. -/
def removeStamps : Nat → Bytes → Bytes
  | _, [] => []
  | skip + 1, _ :: rest => removeStamps skip rest
  | 0, b :: rest => b :: removeStamps (if b = newline then 22 else 0) rest

/-! ## One byte at a time -/

def stampLines (localTime : τ → LocalTime) (atLineStart : Bool) : List (UInt8 × τ) → Bytes
  | [] => []
  | (b, time) :: rest =>
    (if atLineStart then (localTime time).stamp else []) ++
      b :: stampLines localTime (b = newline) rest

theorem stampLines_cons (b : UInt8) (time : τ) (rest : List (UInt8 × τ)) :
    stampLines localTime atLineStart ((b, time) :: rest) =
      (if atLineStart then (localTime time).stamp else []) ++
        b :: stampLines localTime (b = newline) rest := rfl

/-- Whether the byte behind `xs` starts a line. -/
def startsNext (atLineStart : Bool) (xs : List (UInt8 × τ)) : Bool :=
  match xs.getLast? with
  | some x => x.1 = newline
  | none => atLineStart

theorem startsNext_cons : startsNext atLineStart (x :: xs) = startsNext (x.1 = newline) xs := by
  cases xs with
  | nil => rfl
  | cons y ys =>
    unfold startsNext
    rw [List.getLast?_cons_cons]
    cases h : (y :: ys).getLast? with
    | none => simp at h
    | some z => rfl

theorem stampLines_append (ys : List (UInt8 × τ)) : stampLines localTime atLineStart (xs ++ ys) =
    stampLines localTime atLineStart xs ++
      stampLines localTime (startsNext atLineStart xs) ys := by
  induction xs generalizing atLineStart with
  | nil => rfl
  | cons x xs ih =>
    obtain ⟨b, time⟩ := x
    rw [List.cons_append, startsNext_cons, stampLines_cons, stampLines_cons, ih,
      List.append_assoc, List.cons_append]

/-- A stamp goes in front of a text that starts a line. -/
theorem stampLines_true (hne : data ≠ []) : stampLines localTime true (data.map (·, time)) =
    (localTime time).stamp ++ stampLines localTime false (data.map (·, time)) := by
  cases data with
  | nil => exact absurd rfl hne
  | cons b data => rfl

/-- The replacement stamps the line behind the last newline as well. -/
theorem replaceNewlines_eq (data : Bytes) (time : τ) :
    replaceNewlines (localTime time).stamp data =
      stampLines localTime false (data.map (·, time)) ++
        if data.getLast? = some newline then (localTime time).stamp else [] := by
  unfold replaceNewlines
  induction data with
  | nil => rfl
  | cons b data ih =>
    rw [List.flatMap_cons, ih, List.map_cons, stampLines_cons]
    by_cases hb : b = newline
    · subst hb
      rw [if_pos rfl, if_neg Bool.false_ne_true, decide_eq_true rfl, List.nil_append]
      cases data with
      | nil => simp [stampLines]
      | cons c data =>
        rw [stampLines_true (List.cons_ne_nil c data), List.getLast?_cons_cons]
        simp only [List.cons_append, List.append_assoc]
    · rw [if_neg hb, if_neg Bool.false_ne_true, decide_eq_false hb, List.nil_append]
      cases data with
      | nil => simp [stampLines, hb]
      | cons c data =>
        rw [List.getLast?_cons_cons]
        rfl

theorem startsNext_block (hne : data ≠ []) :
    startsNext atLineStart (data.map (·, time)) = decide (data.getLast? = some newline) := by
  unfold startsNext
  rw [List.getLast?_map]
  cases h : data.getLast? with
  | none => exact absurd (List.getLast?_eq_none_iff.mp h) hne
  | some b => simp

/-- A block is prefixed as its bytes are. -/
theorem prefixLines_eq (atLineStart : Bool) (data : Bytes) (time : τ) :
    prefixLines atLineStart data (localTime time).stamp =
      (stampLines localTime atLineStart (data.map (·, time)),
        startsNext atLineStart (data.map (·, time))) := by
  unfold prefixLines
  by_cases hne : data = []
  · subst hne
    rfl
  rw [if_neg hne, startsNext_block hne]
  have hlen : ∀ (text stamp : Bytes), (text ++ stamp).take ((text ++ stamp).length - stamp.length) =
      text := by
    intro text stamp
    rw [List.length_append, Nat.add_sub_cancel, List.take_left]
  have hfront : (if atLineStart then (localTime time).stamp else []) ++
      stampLines localTime false (data.map (·, time)) =
      stampLines localTime atLineStart (data.map (·, time)) := by
    cases atLineStart with
    | true => exact (stampLines_true hne).symm
    | false => rfl
  rw [replaceNewlines_eq]
  by_cases hlast : data.getLast? = some newline
  · simp only [hlast, decide_true, if_true, hlen, hfront]
  · simp only [hlast, decide_false, if_false, Bool.false_eq_true, List.append_nil, hfront]

/-- The blocks of a stream are prefixed as the stream is. -/
theorem prefixBlocks_eq (blocks : List (Bytes × τ)) :
    prefixBlocks localTime atLineStart blocks =
      stampLines localTime atLineStart (received blocks) := by
  induction blocks generalizing atLineStart with
  | nil => rfl
  | cons block blocks ih =>
    obtain ⟨data, time⟩ := block
    have hreceived : received ((data, time) :: blocks) =
        data.map (·, time) ++ received blocks := List.flatMap_cons
    unfold prefixBlocks
    rw [hreceived, stampLines_append, prefixLines_eq]
    exact congrArg (stampLines localTime atLineStart (data.map (·, time)) ++ ·) ih

/-! ## Where the stamps are -/

theorem startsNext_iff : startsNext true xs = true ↔ StartsLine xs xs.length := by
  unfold startsNext StartsLine
  rw [← List.getLast?_eq_getElem?]
  cases h : xs.getLast? with
  | none => simp [List.getLast?_eq_none_iff.mp h]
  | some x =>
    have hne : xs ≠ [] := by
      rintro rfl
      cases h
    simp [hne]

/-- The line starts of a stream do not depend on what comes later. -/
theorem startsLine_append {position : Nat} (h : position < xs.length) (ys : List (UInt8 × τ)) :
    StartsLine (xs ++ ys) position ↔ StartsLine xs position := by
  unfold StartsLine
  rw [List.getElem?_append_left (Nat.lt_of_le_of_lt (Nat.sub_le _ _) h)]

/-- The stream with a stamp in front of each byte that starts a line. -/
theorem stampLines_eq (xs : List (UInt8 × τ)) : stampLines localTime true xs =
    xs.zipIdx.flatMap fun ((b, time), position) =>
      (if StartsLine xs position then (localTime time).stamp else []) ++ [b] := by
  induction xs using List.reverseRecOn with
  | nil => rfl
  | append_singleton xs x ih =>
    obtain ⟨b, time⟩ := x
    rw [stampLines_append, ih, List.zipIdx_append, List.flatMap_append]
    refine congrArg₂ (· ++ ·) (List.flatMap_congr fun item hitem => ?_) ?_
    · obtain ⟨⟨b', time'⟩, position⟩ := item
      have hlt : position < xs.length := by
        have hbound := List.snd_lt_of_mem_zipIdx hitem
        omega
      simp only [startsLine_append hlt]
    · have hstart : StartsLine (xs ++ [(b, time)]) xs.length ↔ StartsLine xs xs.length := by
        unfold StartsLine
        by_cases hzero : xs.length = 0
        · simp [hzero]
        · rw [List.getElem?_append_left (by omega)]
      simp only [stampLines, startsNext_iff, List.zipIdx_cons, List.zipIdx_nil, Nat.zero_add,
        List.flatMap_cons, List.flatMap_nil, List.append_nil, hstart]

/-! ## Without the stamps -/

theorem removeStamps_skip (stamp rest : Bytes) :
    removeStamps stamp.length (stamp ++ rest) = removeStamps 0 rest := by
  induction stamp with
  | nil => rfl
  | cons b stamp ih => exact ih

theorem removeStamps_stampLines (atLineStart : Bool) (xs : List (UInt8 × τ)) :
    removeStamps (if atLineStart then 22 else 0) (stampLines localTime atLineStart xs) =
      xs.map Prod.fst := by
  induction xs generalizing atLineStart with
  | nil => rfl
  | cons x xs ih =>
    obtain ⟨b, time⟩ := x
    have hskip : removeStamps (if atLineStart then 22 else 0)
        (stampLines localTime atLineStart ((b, time) :: xs)) =
        removeStamps 0 (b :: stampLines localTime (b = newline) xs) := by
      cases atLineStart with
      | true =>
        have hstamp := removeStamps_skip (localTime time).stamp
          (b :: stampLines localTime (b = newline) xs)
        rw [(localTime time).length_stamp] at hstamp
        exact hstamp
      | false => rfl
    have hrest := ih (decide (b = newline))
    simp only [decide_eq_true_eq] at hrest
    rw [hskip, List.map_cons, ← hrest]
    rfl

theorem received_fst (blocks : List (Bytes × τ)) :
    (received blocks).map Prod.fst = blocks.flatMap Prod.fst := by
  unfold received
  rw [List.map_flatMap]
  refine List.flatMap_congr fun block _ => ?_
  rw [List.map_map]
  exact List.map_id _

/-- What the calls of a session put out is what has been received, with the stamp of its
block in front of each byte that starts a line; without the stamps it is what has been
received. -/
theorem line_prefix_exact (blocks : List (Bytes × τ)) :
    (prefixBlocks localTime true blocks =
      (received blocks).zipIdx.flatMap fun ((b, time), position) =>
        (if StartsLine (received blocks) position then (localTime time).stamp else []) ++ [b]) ∧
    removeStamps 22 (prefixBlocks localTime true blocks) = blocks.flatMap Prod.fst := by
  rw [prefixBlocks_eq]
  have hremoved : removeStamps 22 (stampLines localTime true (received blocks)) =
      (received blocks).map Prod.fst := removeStamps_stampLines true (received blocks)
  exact ⟨stampLines_eq (received blocks), hremoved.trans (received_fst blocks)⟩

end CameraLogs.Collection
