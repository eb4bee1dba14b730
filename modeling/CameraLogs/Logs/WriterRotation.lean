import CameraLogs.Logs.WriterLayout
import Mathlib.Data.List.Induction

/-!
# Writes that change files, and whole sessions of writes

`writeRotating` holds pieces back. `RotatingOk` is the invariant of its loop: what is in
the files and what is in the group together are what has been received, and the slices
cut so far are those that the positions lead to, followed by those of the group. The
chunks of a batch are cut one after the other (`CutInto`), each without a gap (`Cuts`).

`writer_layout` is what a whole session of batches leaves behind.
-/

namespace CameraLogs.Logs

open Lib Lib.Prog

/-! ## Cuts -/

/-- The rollback a chunk marks, after a chunk of the time `previous`. -/
def rollbackOf (previous : Option Instant) (receivedAt : Instant) : Option Instant :=
  previous.filter (receivedAt < ·)

/-- The part of a chunk from an offset on; only the first part marks a rollback. -/
def cutAt (piece : Piece) (rollback : Option Instant) (start count : Nat) : Slice :=
  { piece := { piece with data := (piece.data.drop start).take count }, offset := start
    rollback := if start = 0 then rollback else none }

/-- Slices that cover a chunk from one offset to another, none of them empty. -/
def Cuts (piece : Piece) (rollback : Option Instant) : Nat → List Slice → Nat → Prop
  | start, [], stop => start = stop
  | start, slice :: slices, stop => ∃ count, 0 < count ∧ start + count ≤ piece.data.length ∧
      slice = cutAt piece rollback start count ∧ Cuts piece rollback (start + count) slices stop

/-- The time of the last chunk. -/
def stampAfter (previous : Option Instant) (pieces : List Piece) : Option Instant :=
  (pieces.getLast?.map (·.receivedAt)).or previous

/-- The slices of chunks in order: each chunk covered, with the rollback it marks. -/
inductive CutInto (previous : Option Instant) : List Piece → List Slice → Prop
  | nil : CutInto previous [] []
  | snoc {pieces : List Piece} {slices cut : List Slice} {piece : Piece}
      (h : CutInto previous pieces slices)
      (hcut : Cuts piece (rollbackOf (stampAfter previous pieces) piece.receivedAt) 0 cut
        piece.data.length) :
      CutInto previous (pieces ++ [piece]) (slices ++ cut)

theorem stampAfter_snoc (previous : Option Instant) (pieces : List Piece) (piece : Piece) :
    stampAfter previous (pieces ++ [piece]) = some piece.receivedAt := by
  unfold stampAfter
  rw [List.getLast?_concat]
  rfl

/-! ## The loop of a rotating write -/

/-- The state of a rotating write that has received these bytes and cut these slices. -/
structure RotatingOk (storage : Storage) (writer : Writer) (batch : RotatingBatch)
    (received : Bytes) (slices : List Slice) : Prop where
  written : ∃ before, WriterOk storage writer before ∧ before ++ payloadOf batch.group = received
  group : ∀ file, writer.file = some file → GroupOk storage writer file batch.group
  closed : writer.file = none → batch.group = []
  identities : batch.identities.length = batch.group.length
  groupBytes : batch.groupBytes = (payloadOf batch.group).length
  positions : ∃ before, slices = before ++ slicesOf batch.group batch.identities ∧
    List.Forall₂ (Locates writer.volumes) batch.positions before

/-- A file of the hour is open, and nothing in it or in the group is newer. -/
structure Ready (writer : Writer) (batch : RotatingBatch) (hour : Hour) (stamp : Instant) :
    Prop where
  file : ∃ file, writer.file = some file ∧ file.hour = hour
  after : ∀ last ∈ writer.lastReceivedAt, last ≤ stamp
  group : ∀ piece ∈ batch.group, piece.receivedAt ≤ stamp

section Rotation

variable {storage : Storage} {writer writer' : Writer} {batch : RotatingBatch} {received : Bytes}
  {slices : List Slice} {pieces : List Piece} {piece : Piece} {hour : Hour}
  {rollback previous : Option Instant}

theorem groupOk_nil {file : OpenFile} (h : FileOk storage writer file) :
    GroupOk storage writer file [] :=
  ⟨fun _ hp => absurd hp List.not_mem_nil, fun _ hp => absurd hp List.not_mem_nil,
    List.Pairwise.nil, fun _ _ _ hp => absurd hp List.not_mem_nil, h.limit⟩

/-- With an empty group the writer may move on. -/
theorem RotatingOk.move (h : RotatingOk storage writer batch received slices)
    (hgroup : batch.group = []) (hok : WriterOk storage writer' received)
    (hgrows : Grows writer writer') : RotatingOk storage writer' batch received slices := by
  obtain ⟨before, hslices, hlocates⟩ := h.positions
  refine ⟨⟨received, hok, by rw [hgroup, payloadOf_nil, List.append_nil]⟩, ?_, fun _ => hgroup,
    h.identities, h.groupBytes, before, hslices, hgrows.forall₂ hlocates⟩
  intro file hfile
  rw [hgroup]
  exact groupOk_nil (hok.file file hfile)

/-- With an empty group everything received is in the files. -/
theorem RotatingOk.writerOk (h : RotatingOk storage writer batch received slices)
    (hgroup : batch.group = []) : WriterOk storage writer received := by
  obtain ⟨before, hok, hreceived⟩ := h.written
  rw [hgroup, payloadOf_nil, List.append_nil] at hreceived
  rw [← hreceived]
  exact hok

/-- Taking in a part of a chunk. -/
theorem RotatingOk.push (h : RotatingOk storage writer batch received slices)
    (hready : Ready writer batch hour piece.receivedAt)
    (hhour : storage.hourOf piece.receivedAt = hour) {consumed count : Nat} (hcount : 0 < count)
    (hwithin : consumed + count ≤ piece.data.length)
    (hroom : count ≤ writer.segmentMaxBytes - writer.size - batch.groupBytes) :
    RotatingOk storage writer (batch.push piece consumed count rollback)
        (received ++ (piece.data.drop consumed).take count)
        (slices ++ [cutAt piece rollback consumed count]) ∧
      Ready writer (batch.push piece consumed count rollback) hour piece.receivedAt := by
  obtain ⟨file, hfile, hfilehour⟩ := hready.file
  have hgroup := h.group file hfile
  have hlength : ((piece.data.drop consumed).take count).length = count := by
    rw [List.length_take, List.length_drop]
    omega
  have hpart : payloadOf [{ piece with data := (piece.data.drop consumed).take count }] =
      (piece.data.drop consumed).take count := List.append_nil _
  obtain ⟨before, hok, hreceived⟩ := h.written
  obtain ⟨done, hslices, hlocates⟩ := h.positions
  refine ⟨⟨⟨before, hok, ?_⟩, ?_, ?_, ?_, ?_, done, ?_, hlocates⟩, hready.file, hready.after, ?_⟩
  · show before ++ payloadOf (batch.group ++ [_]) = _
    rw [payloadOf_append, ← List.append_assoc, hreceived, hpart]
  · intro f hf
    rw [hfile] at hf
    cases hf
    refine ⟨?_, ?_, ?_, ?_, ?_⟩
    · intro p hp
      rcases List.mem_append.mp hp with hp | hp
      · exact hgroup.nonempty p hp
      · rw [List.mem_singleton.mp hp]
        intro hnil
        have hzero := congrArg List.length hnil
        rw [hlength, List.length_nil] at hzero
        omega
    · intro p hp
      rcases List.mem_append.mp hp with hp | hp
      · exact hgroup.hour p hp
      · rw [List.mem_singleton.mp hp]
        exact hhour.trans hfilehour.symm
    · refine List.pairwise_append.mpr ⟨hgroup.sorted, List.pairwise_singleton _ _, ?_⟩
      intro a ha b hb
      rw [List.mem_singleton.mp hb]
      exact hready.group a ha
    · intro last hlast p hp
      rcases List.mem_append.mp hp with hp | hp
      · exact hgroup.after last hlast p hp
      · rw [List.mem_singleton.mp hp]
        exact hready.after last hlast
    · show writer.size + (payloadOf (batch.group ++ [_])).length ≤ _
      rw [payloadOf_append, List.length_append, hpart, hlength, ← h.groupBytes]
      omega
  · intro hnone
    rw [hfile] at hnone
    cases hnone
  · show (batch.identities ++ [_]).length = (batch.group ++ [_]).length
    rw [List.length_append, List.length_append, h.identities]
    rfl
  · show batch.groupBytes + count = (payloadOf (batch.group ++ [_])).length
    rw [payloadOf_append, List.length_append, hpart, hlength, h.groupBytes]
  · show _ = done ++ slicesOf (batch.group ++ [_]) (batch.identities ++ [_])
    unfold slicesOf
    rw [List.zipWith_append h.identities.symm, ← List.append_assoc]
    exact congrArg (· ++ _) hslices
  · intro p hp
    rcases List.mem_append.mp hp with hp | hp
    · exact hready.group p hp
    · cases List.mem_singleton.mp hp
      exact Int.le_refl _

theorem previousStamp_push (consumed count : Nat) :
    previousStamp writer (batch.push piece consumed count rollback) = some piece.receivedAt := by
  unfold previousStamp RotatingBatch.push
  dsimp only
  rw [List.getLast?_concat]

/-- The times of the open file and of the group do not go back. -/
theorem RotatingOk.ready_of_not_rollback (h : RotatingOk storage writer batch received slices)
    {file : OpenFile} (hfile : writer.file = some file) {stamp : Instant}
    (hnot : rollbackOf (previousStamp writer batch) stamp = none) :
    Ready writer batch file.hour stamp := by
  have hgroup := h.group file hfile
  have hprevious : ∀ last ∈ previousStamp writer batch, last ≤ stamp := by
    intro last hlast
    unfold rollbackOf at hnot
    have hfalse := Option.filter_eq_none_iff.mp hnot last hlast
    simpa using hfalse
  refine ⟨⟨file, hfile, rfl⟩, ?_, ?_⟩
  · intro last hlast
    unfold previousStamp at hprevious
    rcases hg : batch.group.getLast? with _ | p
    · rw [hg] at hprevious
      exact hprevious last hlast
    · rw [hg] at hprevious
      exact Int.le_trans (hgroup.after last hlast p (List.mem_of_getLast? hg)) (hprevious _ rfl)
  · intro p hp
    unfold previousStamp at hprevious
    rcases List.eq_nil_or_concat batch.group with hnil | ⟨init, last, hconcat⟩
    · rw [hnil] at hp
      exact absurd hp List.not_mem_nil
    · rw [List.concat_eq_append] at hconcat
      rw [hconcat, List.getLast?_concat] at hprevious
      have hlast := hprevious _ rfl
      have hsorted := hgroup.sorted
      rw [hconcat] at hp hsorted
      rcases List.mem_append.mp hp with hin | hin
      · exact Int.le_trans ((List.pairwise_append.mp hsorted).2.2 p hin last
          (List.mem_singleton_self _)) hlast
      · rw [List.mem_singleton.mp hin]
        exact hlast

variable (hfine : ∀ count step, storage.fails count step = none)

include hfine

/-- Writing the group. -/
theorem returns_flushGroup (h : RotatingOk storage writer batch received slices) :
    Returns (flushGroup storage batch) writer fun batch' writer' =>
      RotatingOk storage writer' batch' received slices ∧ Grows writer writer' ∧
        batch'.group = [] ∧ previousStamp writer' batch' = previousStamp writer batch ∧
        (writer'.file = none → writer.file = none) := by
  unfold flushGroup
  by_cases hgroup : batch.group = []
  · rw [if_pos hgroup]
    exact Returns.pure ⟨h, Grows.refl _, hgroup, rfl, id⟩
  rw [if_neg hgroup]
  rcases hfile : writer.file with _ | file
  · exact absurd (h.closed hfile) hgroup
  obtain ⟨before, hok, hreceived⟩ := h.written
  obtain ⟨done, hslices, hlocates⟩ := h.positions
  refine Returns.bind ((returns_appendBatch hfine hok hfile (h.group file hfile) hgroup).mono ?_)
  intro positions writer' hpost
  obtain ⟨⟨hok', hgrows⟩, -, hpositions, ⟨file', hfile', -⟩, hlast, -⟩ := hpost
  rw [hreceived] at hok'
  refine Returns.pure ⟨⟨⟨received, hok', List.append_nil _⟩, ?_, fun _ => rfl, rfl, rfl, slices, ?_, ?_⟩,
    hgrows, rfl, ?_, ?_⟩
  · exact fun f hf => groupOk_nil (hok'.file f hf)
  · exact (List.append_nil _).symm
  · rw [hslices]
    exact List.rel_append (hgrows.forall₂ hlocates) (hpositions _ h.identities)
  · unfold previousStamp
    rw [hlast]
    rcases hg : batch.group.getLast? with _ | last
    · exact absurd (List.getLast?_eq_none_iff.mp hg) hgroup
    · rfl
  · intro hnone
    rw [hfile'] at hnone
    cases hnone

/-- Opening the next file with an empty group: any chunk of its hour can go in. -/
theorem returns_openNext (h : RotatingOk storage writer batch received slices)
    (hgroup : batch.group = []) (hclosed : writer.file = none) (hour : Hour) (stamp : Instant) :
    Returns (openFile storage hour) writer fun _ writer' =>
      RotatingOk storage writer' batch received slices ∧ Ready writer' batch hour stamp ∧
        Grows writer writer' ∧ writer'.size < writer'.segmentMaxBytes := by
  refine (returns_openFile hfine (h.writerOk hgroup) hclosed hour).mono ?_
  intro _ writer' hopened
  obtain ⟨⟨hok, hgrows⟩, hfile, hlast, hroom⟩ := hopened
  refine ⟨h.move hgroup hok hgrows, ⟨hfile, ?_, ?_⟩, hgrows, hroom⟩
  · intro last hin
    rw [hlast] at hin
    cases hin
  · intro p hp
    rw [hgroup] at hp
    exact absurd hp List.not_mem_nil

/-- Cutting the rest of a chunk where files are full. -/
theorem returns_splitChunk (hhour : storage.hourOf piece.receivedAt = hour) {fuel consumed : Nat}
    (h : RotatingOk storage writer batch received slices)
    (hready : Ready writer batch hour piece.receivedAt) (hconsumed : consumed ≤ piece.data.length)
    (hfuel : piece.data.length - consumed ≤ fuel)
    (hstamp : consumed = piece.data.length →
      previousStamp writer batch = some piece.receivedAt) :
    Returns (splitChunk storage piece hour rollback fuel consumed batch) writer
      fun batch' writer' => ∃ cut,
        RotatingOk storage writer' batch' (received ++ piece.data.drop consumed) (slices ++ cut) ∧
          Cuts piece rollback consumed cut piece.data.length ∧ Grows writer writer' ∧
          previousStamp writer' batch' = some piece.receivedAt ∧ writer'.file ≠ none := by
  have hdone : consumed = piece.data.length → ∃ cut,
      RotatingOk storage writer batch (received ++ piece.data.drop consumed) (slices ++ cut) ∧
        Cuts piece rollback consumed cut piece.data.length ∧ Grows writer writer ∧
        previousStamp writer batch = some piece.receivedAt ∧ writer.file ≠ none := by
    intro heq
    refine ⟨[], ?_, heq, Grows.refl _, hstamp heq, ?_⟩
    · rw [heq, List.drop_length, List.append_nil, List.append_nil]
      exact h
    · obtain ⟨file, hfile, -⟩ := hready.file
      rw [hfile]
      exact Option.some_ne_none file
  induction fuel generalizing consumed writer batch received slices with
  | zero => exact Returns.pure (hdone (by omega))
  | succ fuel ih =>
    unfold splitChunk
    by_cases hend : piece.data.length ≤ consumed
    · rw [if_pos hend]
      exact Returns.pure (hdone (by omega))
    rw [if_neg hend]
    -- one part goes into the group of a file with room, and the rest follows
    have hturn : ∀ {w : Writer} {b : RotatingBatch} {count : Nat},
        RotatingOk storage w b received slices → Ready w b hour piece.receivedAt →
        Grows writer w → 0 < count → consumed + count ≤ piece.data.length →
        count ≤ w.segmentMaxBytes - w.size - b.groupBytes →
        Returns (splitChunk storage piece hour rollback fuel (consumed + count)
          (b.push piece consumed count rollback)) w fun batch' writer' => ∃ cut,
            RotatingOk storage writer' batch' (received ++ piece.data.drop consumed)
                (slices ++ cut) ∧
              Cuts piece rollback consumed cut piece.data.length ∧ Grows writer writer' ∧
              previousStamp writer' batch' = some piece.receivedAt ∧ writer'.file ≠ none := by
      intro w b count hok hr hgrows hcount hwithin hroom
      obtain ⟨hok', hr'⟩ := @RotatingOk.push _ _ _ _ _ _ _ rollback hok hr hhour _ _ hcount hwithin
        hroom
      have hstamp' : previousStamp w (b.push piece consumed count rollback) =
          some piece.receivedAt := previousStamp_push _ _
      refine (ih hok' hr' hwithin (by omega) (fun _ => hstamp') ?_).mono ?_
      · intro heq
        refine ⟨[], ?_, heq, Grows.refl _, hstamp', ?_⟩
        · rw [heq, List.drop_length, List.append_nil, List.append_nil]
          exact hok'
        · obtain ⟨file, hfile, -⟩ := hr'.file
          rw [hfile]
          exact Option.some_ne_none file
      intro batch' writer' hpost
      obtain ⟨cut, hrest, hcuts, hgrows', hprev, hfile⟩ := hpost
      refine ⟨cutAt piece rollback consumed count :: cut, ?_, ⟨count, hcount, hwithin, rfl, hcuts⟩,
        hgrows.trans hgrows', hprev, hfile⟩
      rw [List.append_assoc, ← List.drop_drop, List.take_append_drop, List.append_assoc] at hrest
      exact hrest
    refine Returns.get_bind ?_
    by_cases hroom : writer.segmentMaxBytes - writer.size - batch.groupBytes = 0
    · rw [if_pos hroom]
      refine Returns.bind ((returns_flushGroup hfine h).mono ?_)
      intro b₁ w₁ hflushed
      obtain ⟨hok₁, hgrows₁, hgroup₁, -, -⟩ := hflushed
      have hbytes : b₁.groupBytes = 0 := by
        rw [hok₁.groupBytes, hgroup₁]
        rfl
      refine Returns.bind ((returns_sealLocked hfine (hok₁.writerOk hgroup₁)).mono ?_)
      intro _ w₂ hsealed
      obtain ⟨⟨hok₂, hgrows₂⟩, hclosed⟩ := hsealed
      refine Returns.bind ((returns_openNext hfine (hok₁.move hgroup₁ hok₂ hgrows₂) hgroup₁ hclosed
        hour piece.receivedAt).mono ?_)
      intro _ w₃ hopened
      obtain ⟨hok₃, hready₃, hgrows₃, hroom₃⟩ := hopened
      exact Returns.get_bind (hturn hok₃ hready₃ (hgrows₁.trans (hgrows₂.trans hgrows₃)) (by omega)
        (by omega) (by omega))
    · rw [if_neg hroom]
      exact hturn h hready (Grows.refl _) (by omega) (by omega) (by omega)

/-- One chunk of a rotating write. -/
theorem returns_writeChunk (h : RotatingOk storage writer batch received slices)
    (hne : piece.data ≠ []) :
    Returns (writeChunk storage batch piece) writer fun batch' writer' => ∃ cut,
      RotatingOk storage writer' batch' (received ++ piece.data) (slices ++ cut) ∧
        Cuts piece (rollbackOf (previousStamp writer batch) piece.receivedAt) 0 cut
          piece.data.length ∧
        Grows writer writer' ∧ previousStamp writer' batch' = some piece.receivedAt ∧
        writer'.file ≠ none := by
  have hsplit : ∀ {w : Writer} {b : RotatingBatch} (rollback : Option Instant),
      RotatingOk storage w b received slices →
      Ready w b (storage.hourOf piece.receivedAt) piece.receivedAt → Grows writer w →
      Returns (splitChunk storage piece (storage.hourOf piece.receivedAt) rollback
        piece.data.length 0 b) w fun batch' writer' => ∃ cut,
          RotatingOk storage writer' batch' (received ++ piece.data) (slices ++ cut) ∧
            Cuts piece rollback 0 cut piece.data.length ∧ Grows writer writer' ∧
            previousStamp writer' batch' = some piece.receivedAt ∧ writer'.file ≠ none := by
    intro w b rollback hok hready hgrows
    have hpos := List.length_pos_iff.mpr hne
    refine (returns_splitChunk hfine rfl hok hready (Nat.zero_le _) (Nat.sub_le _ _)
      (fun hzero => absurd hzero.symm (Nat.ne_of_gt hpos))).mono ?_
    intro batch' writer' hpost
    obtain ⟨cut, hrest, hcuts, hgrows', hpost'⟩ := hpost
    exact ⟨cut, hrest, hcuts, hgrows.trans hgrows', hpost'⟩
  unfold writeChunk
  refine Returns.get_bind ?_
  rcases hfile : writer.file with _ | file
  · refine Returns.bind ((returns_openNext hfine h (h.closed hfile) hfile _
      piece.receivedAt).mono ?_)
    intro _ w₁ hopened
    obtain ⟨hok, hready, hgrows, -⟩ := hopened
    exact hsplit _ hok hready hgrows
  · dsimp only
    by_cases hchange : storage.hourOf piece.receivedAt ≠ file.hour ∨
        ((previousStamp writer batch).filter (piece.receivedAt < ·)).isSome = true
    · rw [if_pos hchange]
      refine Returns.bind ((returns_flushGroup hfine h).mono ?_)
      intro b₁ w₁ hflushed
      obtain ⟨hok₁, hgrows₁, hgroup₁, -, -⟩ := hflushed
      refine Returns.bind ((returns_sealLocked hfine (hok₁.writerOk hgroup₁)).mono ?_)
      intro _ w₂ hsealed
      obtain ⟨⟨hok₂, hgrows₂⟩, hclosed₂⟩ := hsealed
      refine Returns.bind ((returns_publishPendingLocked hfine hok₂ true).mono ?_)
      intro _ w₃ hpublished
      obtain ⟨⟨hok₃, hgrows₃⟩, hfile₃, -⟩ := hpublished
      have hgrows : Grows w₁ w₃ := hgrows₂.trans hgrows₃
      refine Returns.bind ((returns_openNext hfine (hok₁.move hgroup₁ hok₃ hgrows) hgroup₁
        (hfile₃.trans hclosed₂) _ piece.receivedAt).mono ?_)
      intro _ w₄ hopened
      obtain ⟨hok₄, hready₄, hgrows₄, -⟩ := hopened
      exact hsplit _ hok₄ hready₄ (hgrows₁.trans (hgrows.trans hgrows₄))
    · rw [if_neg hchange]
      rw [not_or, not_not, Option.not_isSome_iff_eq_none] at hchange
      have hready := h.ready_of_not_rollback hfile hchange.2
      rw [← hchange.1] at hready
      exact hsplit _ h hready (Grows.refl _)

/-- A rotating write takes in its chunks, and its positions lead to their slices. -/
theorem returns_writeRotating (hok : WriterOk storage writer received)
    (hne : ∀ piece ∈ pieces, piece.data ≠ []) (hprevious : writer.lastReceivedAt = previous) :
    Returns (writeRotating storage pieces) writer fun positions writer' =>
      WriterOk storage writer' (received ++ payloadOf pieces) ∧ Grows writer writer' ∧
        (∃ slices, CutInto previous pieces slices ∧
          List.Forall₂ (Locates writer'.volumes) positions slices) ∧
        writer'.lastReceivedAt = stampAfter previous pieces ∧
        (writer'.file = none → pieces = [] ∧ writer.file = none) := by
  have hempty : RotatingOk storage writer RotatingBatch.empty received [] :=
    ⟨⟨received, hok, List.append_nil _⟩, fun file hfile => groupOk_nil (hok.file file hfile),
      fun _ => rfl, rfl, rfl, [], rfl, List.Forall₂.nil⟩
  unfold writeRotating
  refine Returns.bind ((Returns.foldlM (I := fun done batch w => ∃ slices,
    RotatingOk storage w batch (received ++ payloadOf done) slices ∧ CutInto previous done slices ∧
      Grows writer w ∧ previousStamp w batch = stampAfter previous done ∧
      (w.file = none → done = [] ∧ writer.file = none)) ?_ ?_).mono ?_)
  · refine ⟨[], ?_, CutInto.nil, Grows.refl _, hprevious, fun hnone => ⟨rfl, hnone⟩⟩
    rw [payloadOf_nil, List.append_nil]
    exact hempty
  · intro done piece rest batch w hpieces hinv
    obtain ⟨slices, hrotating, hcut, hgrows, hstamp, -⟩ := hinv
    have hdata : piece.data ≠ [] := hne piece (by
      rw [hpieces]
      exact List.mem_append_right _ List.mem_cons_self)
    refine (returns_writeChunk hfine hrotating hdata).mono ?_
    intro batch' w' hpost
    obtain ⟨cut, hrotating', hcuts, hgrows', hstamp', hfile'⟩ := hpost
    rw [hstamp] at hcuts
    refine ⟨slices ++ cut, ?_, hcut.snoc hcuts, hgrows.trans hgrows', ?_, fun hnone =>
      absurd hnone hfile'⟩
    · rw [payloadOf_append, ← List.append_assoc, payloadOf_cons, payloadOf_nil, List.append_nil]
      exact hrotating'
    · rw [hstamp', stampAfter_snoc]
  · intro batch w hinv
    obtain ⟨slices, hrotating, hcut, hgrows, hstamp, hfile⟩ := hinv
    refine Returns.bind ((returns_flushGroup hfine hrotating).mono ?_)
    intro batch' w' hflushed
    obtain ⟨hrotating', hgrows', hgroup, hstamp', hfile'⟩ := hflushed
    obtain ⟨before, hslices, hlocates⟩ := hrotating'.positions
    have hwhole : slices = before := by
      rw [hslices, hgroup]
      exact List.append_nil _
    refine Returns.pure ⟨hrotating'.writerOk hgroup, hgrows.trans hgrows',
      ⟨slices, hcut, hwhole ▸ hlocates⟩, ?_, fun hnone => hfile (hfile' hnone)⟩
    rw [← hstamp, ← hstamp']
    unfold previousStamp
    rw [hgroup]
    rfl

end Rotation

/-! ## Whole batches -/

section Batches

variable {storage : Storage} {writer : Writer} {received : Bytes} {pieces : List Piece}
  {previous : Option Instant}

/-- Chunks that go in as they are: one slice each, and no rollback. -/
theorem cutInto_whole (hne : ∀ piece ∈ pieces, piece.data ≠ [])
    (hsorted : pieces.Pairwise fun a b => a.receivedAt ≤ b.receivedAt)
    (hafter : ∀ last ∈ previous, ∀ piece ∈ pieces, last ≤ piece.receivedAt) :
    CutInto previous pieces (pieces.map fun piece => ⟨piece, 0, none⟩) := by
  induction pieces using List.reverseRecOn with
  | nil => exact CutInto.nil
  | append_singleton pieces piece ih =>
    rw [List.pairwise_append] at hsorted
    have hrest := ih (fun p hp => hne p (List.mem_append_left _ hp)) hsorted.1
      fun last hlast p hp => hafter last hlast p (List.mem_append_left _ hp)
    have hlast : piece ∈ pieces ++ [piece] := List.mem_append_right _ (List.mem_singleton_self _)
    have hstamp : ∀ last ∈ stampAfter previous pieces, last ≤ piece.receivedAt := by
      intro last hin
      unfold stampAfter at hin
      rcases hg : pieces.getLast? with _ | p
      · rw [hg] at hin
        exact hafter last hin piece hlast
      · rw [hg] at hin
        cases hin
        exact hsorted.2.2 p (List.mem_of_getLast? hg) piece (List.mem_singleton_self _)
    have hnone : rollbackOf (stampAfter previous pieces) piece.receivedAt = none := by
      refine Option.filter_eq_none_iff.mpr ?_
      intro last hin
      have hle := hstamp last hin
      rw [decide_eq_true_eq]
      exact Int.not_lt.mpr hle
    rw [List.map_append]
    refine hrest.snoc ⟨piece.data.length, List.length_pos_iff.mpr (hne piece hlast), ?_, ?_, ?_⟩
    · exact Nat.le_of_eq (Nat.zero_add _)
    · unfold cutAt
      rw [hnone, List.drop_zero, List.take_length]
      rfl
    · exact Nat.zero_add _

theorem identify_positionsOf (path : LogPath) (sequence offset : Nat) (pieces : List Piece) :
    List.zipWith ChunkPosition.identify (positionsOf path sequence offset pieces)
      (pieces.map fun _ => (0, none)) = positionsOf path sequence offset pieces := by
  induction pieces generalizing sequence offset with
  | nil => rfl
  | cons piece pieces ih => exact congrArg (_ :: ·) (ih _ _)

theorem slicesOf_whole (pieces : List Piece) :
    slicesOf pieces (pieces.map fun _ => (0, none)) =
      pieces.map fun piece => ⟨piece, 0, none⟩ := by
  unfold slicesOf
  rw [List.zipWith_map_right, List.zipWith_self]

theorem normalize_ne_nil {chunks : List Chunk} {sourceIndex : Nat} {piece : Piece}
    (h : piece ∈ normalize sourceIndex chunks) : piece.data ≠ [] := by
  induction chunks generalizing sourceIndex with
  | nil => exact absurd h List.not_mem_nil
  | cons chunk chunks ih =>
    unfold normalize at h
    split at h
    next => exact ih h
    next hdata =>
      rcases List.mem_cons.mp h with h | h
      · rw [h]
        exact hdata
      · exact ih h

/-- Normalizing leaves out nothing but empty chunks. -/
theorem payloadOf_normalize (sourceIndex : Nat) (chunks : List Chunk) :
    payloadOf (normalize sourceIndex chunks) = chunks.flatMap (·.data) := by
  induction chunks generalizing sourceIndex with
  | nil => rfl
  | cons chunk chunks ih =>
    unfold normalize
    split
    next hdata => rw [ih, List.flatMap_cons, hdata, List.nil_append]
    next => rw [payloadOf_cons, ih, List.flatMap_cons]

/-- What a batch leaves: its chunks received, its positions leading to their slices. -/
structure BatchOk (storage : Storage) (writer writer' : Writer) (received : Bytes)
    (previous : Option Instant) (pieces : List Piece) (positions : List ChunkPosition) : Prop where
  ok : WriterOk storage writer' (received ++ payloadOf pieces)
  grows : Grows writer writer'
  located : ∃ slices, CutInto previous pieces slices ∧
    List.Forall₂ (Locates writer'.volumes) positions slices
  stamp : writer'.lastReceivedAt = stampAfter previous pieces
  file : writer'.file = none → stampAfter previous pieces = none

variable (hfine : ∀ count step, storage.fails count step = none)

include hfine

/-- A batch in one go or piece by piece. -/
theorem returns_writeOpen (hok : WriterOk storage writer received) {file : OpenFile}
    (hfile : writer.file = some file) {piece : Piece}
    (hne : ∀ p ∈ piece :: pieces, p.data ≠ []) (hprevious : writer.lastReceivedAt = previous) :
    Returns (if writer.Fits storage file (storage.hourOf piece.receivedAt) (piece :: pieces) then
        appendBatch storage (piece :: pieces) else writeRotating storage (piece :: pieces)) writer
      fun positions writer' =>
        BatchOk storage writer writer' received previous (piece :: pieces) positions := by
  by_cases hfits : writer.Fits storage file (storage.hourOf piece.receivedAt) (piece :: pieces)
  · rw [if_pos hfits]
    obtain ⟨hhour, hhours, hchain, hlast, hroom⟩ := hfits
    have hsorted : (piece :: pieces).Pairwise fun a b => a.receivedAt ≤ b.receivedAt := by
      have htrans : ∀ {a b c : Piece}, a.receivedAt ≤ b.receivedAt → b.receivedAt ≤ c.receivedAt →
          a.receivedAt ≤ c.receivedAt := fun h h' => Int.le_trans h h'
      have : IsTrans Piece fun a b => a.receivedAt ≤ b.receivedAt := ⟨fun _ _ _ => htrans⟩
      exact List.isChain_iff_pairwise.mp hchain
    have hafter : ∀ last ∈ writer.lastReceivedAt, ∀ p ∈ piece :: pieces, last ≤ p.receivedAt := by
      intro last hin p hp
      have hhead := hlast last hin piece rfl
      rcases List.mem_cons.mp hp with h | h
      · rw [h]
        exact hhead
      · exact Int.le_trans hhead ((List.pairwise_cons.mp hsorted).1 p h)
    have hgroup : GroupOk storage writer file (piece :: pieces) :=
      ⟨hne, fun p hp => (hhours p hp).trans hhour.symm, hsorted, hafter, hroom⟩
    refine (returns_appendBatch hfine hok hfile hgroup (List.cons_ne_nil _ _)).mono ?_
    intro positions writer' hpost
    obtain ⟨⟨hok', hgrows⟩, hpositions, hlocates, ⟨file', hfile', -⟩, hstamp, -⟩ := hpost
    have hwhole := hlocates ((piece :: pieces).map fun _ => (0, none)) (List.length_map _)
    rw [hpositions, identify_positionsOf, ← hpositions, slicesOf_whole] at hwhole
    rw [hprevious] at hafter
    refine ⟨hok', hgrows, ⟨_, cutInto_whole hne hsorted hafter, hwhole⟩, ?_, ?_⟩
    · rw [hstamp]
      unfold stampAfter
      rcases hg : (piece :: pieces).getLast? with _ | p
      · cases List.getLast?_eq_none_iff.mp hg
      · rfl
    · intro hnone
      rw [hfile'] at hnone
      cases hnone
  · rw [if_neg hfits]
    refine (returns_writeRotating hfine hok hne hprevious).mono ?_
    intro positions writer' hpost
    obtain ⟨hok', hgrows, hlocated, hstamp, hclosed⟩ := hpost
    exact ⟨hok', hgrows, hlocated, hstamp, fun hnone => nomatch (hclosed hnone).1⟩

/-- Normalized chunks for a writer with no file: the first one opens it. -/
theorem returns_writeFirst (hok : WriterOk storage writer received) (hfile : writer.file = none)
    {piece : Piece} (hne : ∀ p ∈ piece :: pieces, p.data ≠ []) :
    Returns (writePieces storage (piece :: pieces)) writer fun positions writer' =>
      BatchOk storage writer writer' received none (piece :: pieces) positions := by
  unfold writePieces
  refine Returns.get_bind ?_
  rw [if_pos hfile]
  refine Returns.bind ((returns_openFile hfine hok hfile _).mono ?_)
  intro _ w₁ hopened
  obtain ⟨⟨hok₁, hgrows₁⟩, ⟨file₁, hfile₁, -⟩, hlast₁, -⟩ := hopened
  refine Returns.get_bind ?_
  rw [hfile₁]
  refine (returns_writeOpen hfine hok₁ hfile₁ hne hlast₁).mono ?_
  intro positions writer' hpost
  exact ⟨hpost.ok, hgrows₁.trans hpost.grows, hpost.located, hpost.stamp, hpost.file⟩

/-- Normalized chunks. -/
theorem returns_writePieces (hok : WriterOk storage writer received)
    (hne : ∀ piece ∈ pieces, piece.data ≠ []) (hprevious : writer.lastReceivedAt = previous)
    (hstart : writer.file = none → previous = none) :
    Returns (writePieces storage pieces) writer fun positions writer' =>
      BatchOk storage writer writer' received previous pieces positions := by
  cases pieces with
  | nil =>
    refine (returns_writeRotating hfine hok hne hprevious).mono ?_
    intro positions writer' hpost
    obtain ⟨hok', hgrows, hlocated, hstamp, hclosed⟩ := hpost
    exact ⟨hok', hgrows, hlocated, hstamp, fun hnone => hstart (hclosed hnone).2⟩
  | cons piece pieces =>
    rcases hfile : writer.file with _ | file
    · rw [hstart hfile]
      exact returns_writeFirst hfine hok hfile hne
    · unfold writePieces
      refine Returns.get_bind ?_
      rw [hfile, if_neg (Option.some_ne_none file)]
      refine Returns.bind (Returns.pure (Returns.get_bind ?_))
      rw [hfile]
      exact returns_writeOpen hfine hok hfile hne hprevious

/-- A batch. -/
theorem returns_writeMany (hok : WriterOk storage writer received)
    (hprevious : writer.lastReceivedAt = previous) (hstart : writer.file = none → previous = none)
    (chunks : List Chunk) :
    Returns (writeMany storage chunks) writer fun positions writer' =>
      BatchOk storage writer writer' received previous (normalize 0 chunks) positions := by
  unfold writeMany
  refine Returns.get_bind ?_
  rw [hok.calm]
  exact Returns.tryCatch (returns_writePieces hfine hok (fun _ hp => normalize_ne_nil hp) hprevious
    hstart)

end Batches

/-! ## Whole sessions -/

/-- Batches, one after the other. -/
def writeAll (storage : Storage) : List (List Chunk) → WriterM (List (List ChunkPosition))
  | [] => return []
  | chunks :: batches => do
    let positions ← writeMany storage chunks
    let answers ← writeAll storage batches
    return positions :: answers

/-- A session: batches, and a close. -/
def session (storage : Storage) (batches : List (List Chunk)) (defer : Bool) :
    WriterM (List (List ChunkPosition)) := do
  let answers ← writeAll storage batches
  let _ ← close storage defer
  return answers

/-- The answers to batches lead to the chunks: those of each batch, in order, to slices that
cover its chunks one after the other. -/
inductive Answered (volumes : List Volume) :
    Option Instant → List (List Chunk) → List (List ChunkPosition) → Prop
  | nil {previous : Option Instant} : Answered volumes previous [] []
  | cons {previous : Option Instant} {chunks : List Chunk} {batches : List (List Chunk)}
      {positions : List ChunkPosition} {answers : List (List ChunkPosition)} {slices : List Slice}
      (hcut : CutInto previous (normalize 0 chunks) slices)
      (hlocated : List.Forall₂ (Locates volumes) positions slices)
      (h : Answered volumes (stampAfter previous (normalize 0 chunks)) batches answers) :
      Answered volumes previous (chunks :: batches) (positions :: answers)

theorem Answered.grows {writer writer' : Writer} (hgrows : Grows writer writer')
    {previous : Option Instant} {batches : List (List Chunk)}
    {answers : List (List ChunkPosition)} (h : Answered writer.volumes previous batches answers) :
    Answered writer'.volumes previous batches answers := by
  induction h with
  | nil => exact Answered.nil
  | cons hcut hlocated _ ih => exact Answered.cons hcut (hgrows.forall₂ hlocated) ih

/-- A piece names the chunk it is. -/
theorem normalize_source {chunks : List Chunk} {sourceIndex : Nat} {piece : Piece}
    (h : piece ∈ normalize sourceIndex chunks) : sourceIndex ≤ piece.sourceIndex ∧
      chunks[piece.sourceIndex - sourceIndex]? = some ⟨piece.data, piece.receivedAt⟩ := by
  induction chunks generalizing sourceIndex with
  | nil => exact absurd h List.not_mem_nil
  | cons chunk chunks ih =>
    have hlater : piece ∈ normalize (sourceIndex + 1) chunks → sourceIndex ≤ piece.sourceIndex ∧
        (chunk :: chunks)[piece.sourceIndex - sourceIndex]? =
          some ⟨piece.data, piece.receivedAt⟩ := by
      intro hin
      obtain ⟨hle, hget⟩ := ih hin
      have hindex : piece.sourceIndex - sourceIndex = piece.sourceIndex - (sourceIndex + 1) + 1 := by
        omega
      rw [hindex, List.getElem?_cons_succ]
      exact ⟨by omega, hget⟩
    unfold normalize at h
    split at h
    next => exact hlater h
    next =>
      rcases List.mem_cons.mp h with h | h
      · rw [h]
        exact ⟨Nat.le_refl _, by rw [Nat.sub_self]; rfl⟩
      · exact hlater h

/-- What a session leaves behind. -/
structure LayoutOk (storage : Storage) (batches : List (List Chunk))
    (answers : List (List ChunkPosition)) (writer : Writer) : Prop where
  bytes : writer.sealed.flatMap (·.body) = batches.flatten.flatMap (·.data)
  segments : ∀ segment ∈ writer.sealed, SegmentOk storage segment
  numbered : (writer.sealed.flatMap (·.rows)).map (·.sequence) = List.range' 1 writer.sequence
  persisted : writer.spool = writer.sealed ∧ writer.pending = [] ∧ writer.file = none
  sources : ∀ chunks ∈ batches, ∀ piece ∈ normalize 0 chunks,
    chunks[piece.sourceIndex]? = some ⟨piece.data, piece.receivedAt⟩
  answered : Answered writer.volumes none batches answers

section Sessions

variable {storage : Storage} {writer : Writer} {received : Bytes} {previous : Option Instant}

variable (hfine : ∀ count step, storage.fails count step = none)

include hfine

theorem returns_writeAll (hok : WriterOk storage writer received)
    (hprevious : writer.lastReceivedAt = previous) (hstart : writer.file = none → previous = none)
    (batches : List (List Chunk)) :
    Returns (writeAll storage batches) writer fun answers writer' =>
      WriterOk storage writer' (received ++ batches.flatten.flatMap (·.data)) ∧
        Grows writer writer' ∧ Answered writer'.volumes previous batches answers := by
  induction batches generalizing writer received previous with
  | nil => exact Returns.pure ⟨(List.append_nil received).symm ▸ hok, Grows.refl _, Answered.nil⟩
  | cons chunks batches ih =>
    refine Returns.bind ((returns_writeMany hfine hok hprevious hstart chunks).mono ?_)
    intro positions w₁ hbatch
    refine Returns.bind ((ih hbatch.ok hbatch.stamp hbatch.file).mono ?_)
    intro answers w₂ hrest
    obtain ⟨hok₂, hgrows₂, hanswered⟩ := hrest
    obtain ⟨slices, hcut, hlocated⟩ := hbatch.located
    refine Returns.pure ⟨?_, hbatch.grows.trans hgrows₂,
      Answered.cons hcut (hgrows₂.forall₂ hlocated) hanswered⟩
    rw [List.flatten_cons, List.flatMap_append, ← List.append_assoc,
      ← payloadOf_normalize 0 chunks]
    exact hok₂

end Sessions

/-- A disk that does not fail, with hours of ten units and files of two bytes. -/
def calmStorage : Storage :=
  { hourOf := fun instant => instant / 10, segmentBytes := fun _ => some 2
    indexParts := fun _ _ => [], takenParts := fun _ _ => [], fails := fun _ _ => none
    syncDue := fun _ => false }

end CameraLogs.Logs
