import CameraLogs.Logs.StreamSearch

/-!
# The index cursor tells the right time

Positions are asked for in increasing order, the cursor only moves forward and the
row located last is reused. `CacheOk index cache bound` says that all of this has
not gone wrong: the rows consumed are a prefix of the index, they start before
`bound`, and the row kept is the last of them. A position at or behind `bound - 1`
then gets the stamp of the row that covers it (`origin_spec`), and the invariant
holds with the position's successor as the new bound.
-/

namespace CameraLogs.Logs

open Lib

/-- The row covers the position. -/
def IndexEntry.Covers (entry : IndexEntry) (position : Nat) : Prop :=
  entry.offset ≤ position ∧ position < entry.offset + entry.length

instance (entry : IndexEntry) (position : Nat) : Decidable (entry.Covers position) :=
  inferInstanceAs (Decidable (_ ∧ _))

/-- When a byte was received, if an index row covers it. -/
def stampAt (index : List IndexEntry) (position : Nat) : Option Instant :=
  (index.find? fun entry => entry.Covers position).map (·.receivedAt)

/-- Where the byte at a position of a file comes from. -/
def LogFile.originAt (file : LogFile) (position : Nat) : Origin :=
  { fileId := file.id, position, stamp := stampAt file.index position }

/-- The rows stand in order and do not overlap. -/
abbrev OrderedIndex (index : List IndexEntry) : Prop :=
  index.Pairwise fun e e' => e.offset + e.length ≤ e'.offset

/-- The rows a cursor has not made current yet. -/
def IndexCursor.rest (cursor : IndexCursor) : List IndexEntry :=
  cursor.pending.toList ++ cursor.entries

/-- The cursor has consumed a prefix of the index, all of it starting before `bound`. -/
structure CursorOk (index : List IndexEntry) (cursor : IndexCursor) (bound : Nat) : Prop where
  split : ∃ passed, index = passed ++ cursor.rest ∧ cursor.current = passed.getLast? ∧
    ∀ e ∈ passed, e.offset < bound
  exhausted : cursor.pending = none → cursor.entries = []

theorem CursorOk.mono {index : List IndexEntry} {cursor : IndexCursor} {b b' : Nat}
    (h : CursorOk index cursor b) (hb : b ≤ b') : CursorOk index cursor b' := by
  obtain ⟨passed, hsplit, hcurrent, hpassed⟩ := h.split
  exact ⟨⟨passed, hsplit, hcurrent, fun e he => Nat.lt_of_lt_of_le (hpassed e he) hb⟩,
    h.exhausted⟩

theorem cursorOk_start (index : List IndexEntry) : CursorOk index (IndexCursor.start index) 0 := by
  cases index with
  | nil => exact ⟨⟨[], rfl, rfl, by simp⟩, fun _ => rfl⟩
  | cons e es =>
    refine ⟨⟨[], rfl, rfl, by simp⟩, ?_⟩
    intro h
    cases h

/-- Consuming for a position moves past exactly the rows that start at or before it. -/
theorem consume_spec {index : List IndexEntry} {position bound : Nat} (hb : bound ≤ position + 1)
    {current pending : Option IndexEntry} {entries : List IndexEntry}
    (h : CursorOk index ⟨current, pending, entries⟩ bound) :
    CursorOk index (IndexCursor.consume position current pending entries) (position + 1) ∧
      ∀ e, (IndexCursor.consume position current pending entries).pending = some e →
        position < e.offset := by
  induction entries generalizing current pending bound with
  | nil =>
    cases pending with
    | none =>
      refine ⟨h.mono hb, ?_⟩
      intro e he
      cases he
    | some next =>
      unfold IndexCursor.consume
      split
      next hle =>
        obtain ⟨passed, hsplit, -, hpassed⟩ := h.split
        refine ⟨⟨⟨passed ++ [next], ?_, by simp, ?_⟩, fun _ => rfl⟩, ?_⟩
        · rw [hsplit]
          simp [IndexCursor.rest]
        · intro e he
          rcases List.mem_append.mp he with he | he
          · have := hpassed e he
            omega
          · rw [List.mem_singleton.mp he]
            omega
        · intro e he
          cases he
      next hgt =>
        refine ⟨h.mono hb, ?_⟩
        intro e he
        cases he
        omega
  | cons entry rest ih =>
    cases pending with
    | none =>
      have hbad := h.exhausted rfl
      cases hbad
    | some next =>
      unfold IndexCursor.consume
      split
      next hle =>
        obtain ⟨passed, hsplit, -, hpassed⟩ := h.split
        have hok : CursorOk index ⟨some next, some entry, rest⟩ (position + 1) := by
          refine ⟨⟨passed ++ [next], ?_, by simp, ?_⟩, ?_⟩
          · rw [hsplit]
            simp [IndexCursor.rest]
          · intro e he
            rcases List.mem_append.mp he with he | he
            · have := hpassed e he
              omega
            · rw [List.mem_singleton.mp he]
              omega
          · intro hnone
            cases hnone
        exact ih (Nat.le_refl _) hok
      next hgt =>
        refine ⟨h.mono hb, ?_⟩
        intro e he
        cases he
        omega

/-- In an ordered index the rows before one that starts at or before a position do not
reach it. -/
theorem find_covers_of_split {init rest : List IndexEntry} {entry : IndexEntry} {position : Nat}
    (hord : OrderedIndex (init ++ entry :: rest)) (hle : entry.offset ≤ position) :
    ((init ++ entry :: rest).find? fun e => e.Covers position) =
      if entry.Covers position then some entry else rest.find? fun e => e.Covers position := by
  have hinit : (init.find? fun e => decide (e.Covers position)) = none := by
    rw [List.find?_eq_none]
    intro e he
    have hbefore := (List.pairwise_append.mp hord).2.2 e he entry List.mem_cons_self
    simp only [decide_eq_true_eq]
    intro hcov
    have := hcov.2
    omega
  rw [List.find?_append, hinit, Option.none_or]
  by_cases hcov : entry.Covers position <;> simp [hcov]

/-- Locating a position at or behind the bound finds the row that covers it. -/
theorem locate_spec {index : List IndexEntry} (hord : OrderedIndex index) {cursor : IndexCursor}
    {position bound : Nat} (h : CursorOk index cursor bound) (hb : bound ≤ position + 1) :
    CursorOk index (cursor.locate position).1 (position + 1) ∧
      (cursor.locate position).2 = (index.find? fun e => e.Covers position) ∧
      ∀ e, (cursor.locate position).2 = some e → (cursor.locate position).1.current = some e := by
  obtain ⟨hok, hpending⟩ := consume_spec hb h
  have hdef : cursor.locate position = (IndexCursor.consume position cursor.current cursor.pending
      cursor.entries, (IndexCursor.consume position cursor.current cursor.pending
      cursor.entries).current.filter fun entry => position < entry.offset + entry.length) := rfl
  rw [hdef]
  generalize IndexCursor.consume position cursor.current cursor.pending cursor.entries = c at *
  refine ⟨hok, ?_, ?_⟩
  · obtain ⟨passed, hsplit, hcurrent, hpassed⟩ := hok.split
    -- what is not consumed starts behind the position
    have hrest : ∀ e ∈ c.rest, ¬ e.Covers position := by
      intro e he hcov
      rcases hp : c.pending with _ | next
      · unfold IndexCursor.rest at he
        rw [hp, hok.exhausted hp] at he
        cases he
      · have hnext := hpending next hp
        rw [hsplit] at hord
        have hord' := (List.pairwise_append.mp hord).2.1
        unfold IndexCursor.rest at he hord'
        rw [hp] at he hord'
        rcases List.mem_cons.mp he with he | he
        · rw [he] at hcov
          have := hcov.1
          omega
        · have hafter := (List.pairwise_cons.mp hord').1 e he
          have := hcov.1
          omega
    have hnone : (c.rest.find? fun e => decide (e.Covers position)) = none := by
      rw [List.find?_eq_none]
      intro e he
      simpa using hrest e he
    rw [hcurrent]
    rcases List.eq_nil_or_concat passed with hnil | ⟨init, last, hconcat⟩
    · rw [hnil, List.nil_append] at hsplit
      rw [hsplit, hnone, hnil]
      rfl
    · rw [List.concat_eq_append] at hconcat
      subst hconcat
      have hlast := hpassed last (by simp)
      have hle : last.offset ≤ position := by omega
      have hsplit' : index = init ++ last :: c.rest := by
        rw [hsplit, List.append_assoc]
        rfl
      rw [hsplit'] at hord ⊢
      rw [find_covers_of_split hord hle, hnone, List.getLast?_concat]
      by_cases hlt : position < last.offset + last.length
      · have hcov : last.Covers position := ⟨hle, hlt⟩
        simp [Option.filter, hlt, hcov]
      · have hcov : ¬ last.Covers position := fun h => hlt h.2
        simp [Option.filter, hlt, hcov]
  · intro e he
    exact (Option.filter_eq_some_iff.mp he).1

/-- The cache is in step with the index: the row it holds is the cursor's current one. -/
structure CacheOk (index : List IndexEntry) (cache : OriginCache) (bound : Nat) : Prop where
  cursor : CursorOk index cache.cursor bound
  cached : ∀ e, cache.cached = some e → cache.cursor.current = some e

theorem CacheOk.mono {index : List IndexEntry} {cache : OriginCache} {b b' : Nat}
    (h : CacheOk index cache b) (hb : b ≤ b') : CacheOk index cache b' :=
  ⟨h.cursor.mono hb, h.cached⟩

theorem cacheOk_start (index : List IndexEntry) :
    CacheOk index { cursor := IndexCursor.start index, cached := none } 0 := by
  refine ⟨cursorOk_start index, ?_⟩
  intro e he
  cases he

/-- A row that is the current one and reaches a position behind it is the first that
covers it. -/
theorem find_of_current {index : List IndexEntry} (hord : OrderedIndex index)
    {cursor : IndexCursor} {entry : IndexEntry} {position bound : Nat}
    (h : CursorOk index cursor bound) (hb : bound ≤ position + 1)
    (hcurrent : cursor.current = some entry) (hlt : position < entry.offset + entry.length) :
    (index.find? fun e => e.Covers position) = some entry := by
  obtain ⟨passed, hsplit, hlast, hpassed⟩ := h.split
  rw [hlast] at hcurrent
  obtain ⟨init, hinit⟩ := List.getLast?_eq_some_iff.mp hcurrent
  have hoff := hpassed entry (by simp [hinit])
  have hsplit' : index = init ++ entry :: cursor.rest := by
    rw [hsplit, hinit, List.append_assoc]
    rfl
  have hcov : entry.Covers position := ⟨by omega, hlt⟩
  rw [hsplit'] at hord ⊢
  rw [find_covers_of_split hord hcov.1, if_pos hcov]

/-- **Asked in increasing order, the cache tells where a byte comes from.** -/
theorem origin_spec {file : LogFile} {cache : OriginCache} {position bound : Nat}
    (h : CacheOk file.index cache bound) (hb : bound ≤ position + 1) :
    (cache.origin file.id position).1 = file.originAt position ∧
      CacheOk file.index (cache.origin file.id position).2 (position + 1) := by
  have hlocate := locate_spec file.index_ordered h.cursor hb
  have hfresh : ({ fileId := file.id, position := position
                   stamp := (cache.cursor.locate position).2.map (·.receivedAt) } : Origin) =
      file.originAt position := by
    unfold LogFile.originAt stampAt
    rw [hlocate.2.1]
  have hcache : CacheOk file.index { cursor := (cache.cursor.locate position).1
                                     cached := (cache.cursor.locate position).2 }
      (position + 1) := ⟨hlocate.1, hlocate.2.2⟩
  unfold OriginCache.origin
  split
  next entry hcached =>
    split
    next hlt =>
      have hfind := find_of_current file.index_ordered h.cursor hb (h.cached entry hcached) hlt
      refine ⟨?_, h.mono hb⟩
      unfold LogFile.originAt stampAt
      rw [hfind]
      rfl
    next => exact ⟨hfresh, hcache⟩
  next => exact ⟨hfresh, hcache⟩

/-- The origins of a stretch of a file. -/
theorem origins_spec {file : LogFile} {cache : OriginCache} {position bound count : Nat}
    (h : CacheOk file.index cache bound) (hb : bound ≤ position + 1) (hb' : bound ≤ position + count) :
    (cache.origins file.id position count).1 = (List.range' position count).map file.originAt ∧
      CacheOk file.index (cache.origins file.id position count).2 (position + count) := by
  induction count generalizing cache position bound with
  | zero => exact ⟨rfl, h.mono hb'⟩
  | succ count ih =>
    obtain ⟨horigin, hok⟩ := origin_spec h hb
    obtain ⟨hrest, hok'⟩ := ih hok (show position + 1 ≤ position + 1 + 1 by omega)
      (show position + 1 ≤ position + 1 + count by omega)
    refine ⟨?_, ?_⟩
    · show (cache.origin file.id position).1 :: _ = _
      rw [horigin, List.range'_succ, List.map_cons]
      exact congrArg _ hrest
    · have heq : position + (count + 1) = position + 1 + count := by omega
      rw [heq]
      exact hok'

/-- The sequence number of a file's last block, when its index ends with the file. -/
def LogFile.lastSequence (file : LogFile) : Option Nat :=
  match file.index.getLast? with
  | none => none
  | some last =>
    if last.offset < file.content.length ∧ last.offset + last.length = file.content.length then
      last.sequence
    else none

/-- At the end of a file the cursor tells whether the index ends with it. -/
theorem endSequence_spec {file : LogFile} {cursor : IndexCursor}
    (h : CursorOk file.index cursor file.content.length) :
    endSequence file.content.length cursor = file.lastSequence := by
  unfold endSequence LogFile.lastSequence
  by_cases hsize : file.content.length = 0
  · rw [if_pos hsize, hsize]
    split
    · rfl
    · rw [if_neg (by omega)]
  rw [if_neg hsize]
  have hb : file.content.length ≤ file.content.length - 1 + 1 := by omega
  obtain ⟨hok, hlocated, hcurrent⟩ := locate_spec file.index_ordered h hb
  have hconsumed := (consume_spec hb h).2
  rcases hloc : cursor.locate (file.content.length - 1) with ⟨c, located⟩
  rw [hloc] at hok hlocated hcurrent
  have hpending : ∀ e, c.pending = some e → file.content.length - 1 < e.offset := by
    intro e he
    refine hconsumed e ?_
    have hc : (cursor.locate (file.content.length - 1)).1 = c := by rw [hloc]
    rw [← he, ← hc]
    rfl
  obtain ⟨passed, hsplit, hpassed, -⟩ := hok.split
  rcases hlast : file.index.getLast? with _ | last
  · -- no rows at all
    rw [List.getLast?_eq_none_iff] at hlast
    rw [hlast] at hlocated
    dsimp only at hlocated ⊢
    rw [hlocated]
    rfl
  obtain ⟨init, hinit⟩ := List.getLast?_eq_some_iff.mp hlast
  dsimp only
  by_cases hends : last.offset < file.content.length ∧
      last.offset + last.length = file.content.length
  · rw [if_pos hends]
    have hle : last.offset ≤ file.content.length - 1 := by omega
    have hcov : last.Covers (file.content.length - 1) := ⟨hle, by omega⟩
    have hord := file.index_ordered
    rw [hinit] at hord hlocated
    rw [find_covers_of_split hord hle, if_pos hcov] at hlocated
    dsimp only at hlocated
    rw [hlocated]
    have hnone : c.pending = none := by
      rcases hp : c.pending with _ | e
      · rfl
      · have hbehind := hpending e hp
        have hin : e ∈ file.index := by
          rw [hsplit]
          refine List.mem_append_right _ (List.mem_append_left _ ?_)
          rw [hp]
          exact List.mem_singleton_self e
        rw [hinit] at hin
        rcases List.mem_append.mp hin with hin | hin
        · have := (List.pairwise_append.mp hord).2.2 e hin last (List.mem_singleton_self _)
          omega
        · rw [List.mem_singleton.mp hin] at hbehind
          omega
    dsimp only
    rw [if_pos ⟨hnone, hends.2⟩]
  · rw [if_neg hends]
    rcases located with _ | e
    · rfl
    dsimp only
    by_cases hfull : c.pending = none ∧ e.offset + e.length = file.content.length
    · -- the cursor is through, so the row it located is the last one
      have hrest : c.rest = [] := by
        unfold IndexCursor.rest
        rw [hfull.1, hok.exhausted hfull.1]
        rfl
      rw [hrest, List.append_nil] at hsplit
      have he := hcurrent e rfl
      dsimp only at he hpassed
      rw [hpassed, ← hsplit, hlast] at he
      cases he
      have hcov := List.find?_some hlocated.symm
      simp only [decide_eq_true_eq] at hcov
      have := hcov.1
      exact absurd ⟨by omega, hfull.2⟩ hends
    · rw [if_neg hfull]

end CameraLogs.Logs
