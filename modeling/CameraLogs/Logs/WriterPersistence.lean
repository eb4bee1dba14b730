import CameraLogs.Lib.Run
import CameraLogs.Logs.HourlyWriter

/-!
# No sealed segment is dropped

A sealed segment waits in `pending` until its manifest is in the spool. What can go
wrong on the way is a step of I/O: this file follows the segments over runs of the
writer's operations in which any step may fail.

The writer empties `pending` before the manifests are made and persisted, so a failure
of just these two steps loses what waited (`publish_loses`). With them sound every
sealed segment stays accounted for, whatever else fails (`segments_accounted`). `close`
stops at the kept error of an earlier write, or at an error of its own sealing, before
it looks at `pending`; the theorem says exactly when it does not.
-/

namespace CameraLogs.Logs

open Lib Lib.Prog

/-! ## Statements about the segments alone -/

/-- A property that looks at the segments only, and survives sealing and persisting. -/
structure Accounting (J : Writer → Prop) : Prop where
  frame : ∀ {writer writer' : Writer}, J writer → writer'.pending = writer.pending →
    writer'.sealed = writer.sealed → writer'.spool = writer.spool → J writer'
  enqueue : ∀ {writer : Writer} (segment : SealedSegment), J writer → J (writer.enqueue segment)
  persisted : ∀ {writer writer' : Writer}, J writer → writer'.pending = [] →
    writer'.sealed = writer.sealed → writer'.spool = writer.spool ++ writer.pending → J writer'

/-- Every sealed segment waits or has been persisted. -/
def Kept (writer : Writer) : Prop :=
  ∀ segment ∈ writer.sealed, segment ∈ writer.pending ∨ segment ∈ writer.spool

/-- The segment waits or has been persisted. -/
def Waits (segment : SealedSegment) (writer : Writer) : Prop :=
  segment ∈ writer.pending ∨ segment ∈ writer.spool

theorem waits_accounting (segment : SealedSegment) : Accounting (Waits segment) where
  frame h hpending _ hspool := by simpa [Waits, hpending, hspool] using h
  enqueue _ h := h.imp_left fun h => List.mem_append_left _ h
  persisted h hpending _ hspool := by
    rw [Waits, hpending, hspool, List.mem_append]
    exact .inr h.symm

theorem kept_accounting : Accounting Kept where
  frame h hpending hsealed hspool := by simpa [Kept, hpending, hsealed, hspool] using h
  enqueue segment h := by
    intro s hs
    rcases List.mem_append.mp hs with hs | hs
    · exact (h s hs).imp_left fun h => List.mem_append_left _ h
    · exact .inl (List.mem_append_right _ hs)
  persisted h hpending hsealed hspool := by
    intro s hs
    rw [hsealed] at hs
    exact (waits_accounting s).persisted (h s hs) hpending hsealed hspool

/-- A property of the segments and of the open file that every step keeps. -/
structure Stable (J : Writer → Prop) : Prop where
  frame : ∀ {writer writer' : Writer}, J writer → writer'.file = writer.file →
    writer'.pending = writer.pending → writer'.sealed = writer.sealed →
    writer'.spool = writer.spool → J writer'
  opened : ∀ {writer : Writer} (log : LogPath) (segmentMaxBytes : Nat), J writer →
    J (writer.opened log log.hour segmentMaxBytes)
  extend : ∀ {writer : Writer} (bytes : Bytes) (rows : List IndexRow), J writer →
    J (writer.extend bytes rows)
  detached : ∀ {writer : Writer}, J writer → J writer.detached
  enqueue : ∀ {writer writer' : Writer} {file : OpenFile}, J writer → writer.file = some file →
    J writer' → J (writer'.enqueue (writer.segment file))
  persisted : ∀ {writer writer' : Writer}, J writer → writer'.file = writer.file →
    writer'.pending = [] → writer'.sealed = writer.sealed →
    writer'.spool = writer.spool ++ writer.pending → J writer'

theorem Accounting.stable {J : Writer → Prop} (h : Accounting J) : Stable J where
  frame hw _ hpending hsealed hspool := h.frame hw hpending hsealed hspool
  opened _ _ hw := h.frame hw rfl rfl rfl
  extend _ _ hw := h.frame hw rfl rfl rfl
  detached hw := h.frame hw rfl rfl rfl
  enqueue _ _ hw := h.enqueue _ hw
  persisted hw _ hpending hsealed hspool := h.persisted hw hpending hsealed hspool

/-! ## What the steps keep -/

/-- The steps that make the manifests and persist them do not fail. -/
def Storage.Persists (storage : Storage) : Prop :=
  ∀ count, storage.fails count .prepareArchive = none ∧ storage.fails count .persistSpool = none

section Steps

variable {storage : Storage} {J : Writer → Prop}

variable (hJ : Stable J)

include hJ

theorem preserves_diskStep (step : DiskStep) : Preserves J (diskStep storage step) := by
  refine Triple.get_bind fun writer hw => ?_
  refine Triple.bind (Q := fun _ => J) ?_ fun _ => ?_
  · intro _ _
    exact hJ.frame hw rfl rfl rfl rfl
  · split
    · exact Preserves.pure
    · exact Preserves.throw

theorem preserves_openFile (hour : Hour) : Preserves J (openFile storage hour) := by
  refine Preserves.get_bind fun _ => Preserves.get_bind fun _ => ?_
  exact Preserves.bind (preserves_diskStep hJ _) fun _ => Preserves.modify fun _ h =>
    hJ.opened _ _ h

theorem preserves_syncFiles : Preserves J (syncFiles storage) :=
  (preserves_diskStep hJ _).bind fun _ => Preserves.modify fun _ h => hJ.frame h rfl rfl rfl rfl

theorem preserves_closeFiles : Preserves J (closeFiles storage) :=
  (preserves_diskStep hJ _).bind fun _ => (preserves_syncFiles hJ).bind fun _ =>
    preserves_diskStep hJ _

theorem preserves_writeBody (payload : Bytes) : Preserves J (writeBody storage payload) := by
  refine Triple.get_bind fun writer hw => ?_
  refine Triple.bind (Q := fun _ => J) ?_ fun _ => preserves_diskStep hJ _
  intro _ _
  exact hJ.extend _ _ hw

theorem preserves_writeIndex (rows : List IndexRow) : Preserves J (writeIndex storage rows) :=
  (preserves_diskStep hJ _).bind fun _ => Preserves.modify fun _ h => hJ.extend _ _ h

theorem preserves_appendBatch (pieces : List Piece) : Preserves J (appendBatch storage pieces) := by
  refine Preserves.get_bind fun writer => ?_
  split
  · exact Preserves.throw
  · refine (preserves_writeBody hJ _).bind fun _ => (preserves_writeIndex hJ _).bind fun _ => ?_
    refine Preserves.bind (Preserves.modify fun _ h => hJ.frame h rfl rfl rfl rfl) fun _ => ?_
    refine Preserves.get_bind fun after => ?_
    split
    · exact (preserves_syncFiles hJ).bind fun _ => Preserves.pure
    · exact Preserves.pure

theorem preserves_sealLocked : Preserves J (sealLocked storage) := by
  refine Triple.get_bind fun writer hw => ?_
  -- `J` holds of the state that was read, and of those that follow
  refine Triple.conseq (?_ : Preserves J _) (fun _ heq => heq ▸ hw) (fun _ _ h => h) fun _ _ h => h
  split
  · exact Preserves.throw
  · split
    · exact Preserves.pure
    next file hfile =>
      refine Preserves.bind (Preserves.tryCatch (preserves_closeFiles hJ) fun _ => ?_) fun _ => ?_
      · -- the file stays where it is, and so do the segments before it
        exact Preserves.bind (Preserves.modify fun _ h => hJ.frame h rfl rfl rfl rfl) fun _ =>
          Preserves.throw
      · refine Preserves.bind (Preserves.modify fun _ h => hJ.detached h) fun _ => ?_
        split
        · exact Preserves.modify fun _ h => hJ.enqueue hw hfile h
        · exact (preserves_diskStep hJ _).bind fun _ => preserves_diskStep hJ _

end Steps

/-! ## Publishing -/

/-- `J` holds and nothing waits. -/
def Cleared (J : Writer → Prop) (writer : Writer) : Prop := J writer ∧ writer.pending = []

section Publish

variable {storage : Storage}

/-- The program of `diskStep` in the state where its step is known. -/
theorem exec_diskStep (step : DiskStep) (writer : Writer) :
    (diskStep storage step).exec writer = (match storage.fails writer.steps step with
      | none => .ok ()
      | some _ => .error (.osError step), writer.tick) := by
  unfold diskStep
  rw [exec_bind_of_ok (exec_get writer), exec_bind_of_ok (exec_set _ _)]
  cases storage.fails writer.steps step <;> rfl

/-- Persisting goes through, and then the spool has the segments. -/
theorem returns_persistPending (hpersists : storage.Persists) (segments : List SealedSegment)
    (writer : Writer) : Returns (persistPending storage segments) writer fun _ writer' =>
      writer'.file = writer.file ∧ writer'.pending = writer.pending ∧
        writer'.sealed = writer.sealed ∧ writer'.spool = writer.spool ++ segments := by
  have hstep : ∀ (step : DiskStep) (w : Writer), storage.fails w.steps step = none →
      (diskStep storage step).exec w = (.ok (), w.tick) := by
    intro step w h
    rw [exec_diskStep, h]
  refine Returns.bind ⟨(), writer.tick, hstep _ _ (hpersists _).1, ?_⟩
  refine Returns.bind ⟨(), writer.tick.tick, hstep _ _ (hpersists _).2, ?_⟩
  exact Returns.modify ⟨rfl, rfl, rfl, rfl⟩

/-- With sound persistence, publishing moves what waits into the spool, and nothing that
fails afterwards takes it out again. -/
theorem publish_triple (hpersists : storage.Persists) {J : Writer → Prop} (hJ : Stable J)
    (background : Bool) : Triple J (publishPendingLocked storage background)
      (fun _ => Cleared J) (fun _ => Cleared J) := by
  refine Triple.get_bind fun writer hw => ?_
  split
  next hempty => exact Triple.pure fun _ h => h ▸ ⟨hw, hempty⟩
  next hne =>
    have hmoved : Triple (· = writer.released) (persistPending storage writer.pending)
        (fun _ => Cleared J) (fun _ => Cleared J) := by
      intro s hs
      obtain ⟨_, t, hexec, hfile, hpending, hsealed, hspool⟩ :=
        returns_persistPending hpersists writer.pending s
      rw [hexec]
      subst hs
      exact ⟨hJ.persisted hw hfile hpending hsealed hspool, hpending⟩
    refine Triple.bind (Q := fun _ => (· = writer.released)) (Triple.modify fun _ h => h ▸ rfl) ?_
    intro _
    refine Triple.bind hmoved fun _ => ?_
    split
    · exact Triple.pure fun _ h => h
    · refine Triple.bind (Q := fun _ => Cleared J) ?_ fun _ => Triple.pure fun _ h => h
      intro s hs
      rw [exec_diskStep]
      have hticked : Cleared J s.tick := ⟨hJ.frame hs.1 rfl rfl rfl rfl, hs.2⟩
      split
      all_goals simp_all

theorem preserves_publish (hpersists : storage.Persists) {J : Writer → Prop} (hJ : Stable J)
    (background : Bool) : Preserves J (publishPendingLocked storage background) :=
  (publish_triple hpersists hJ background).conseq (fun _ h => h) (fun _ _ h => h.1) fun _ _ h => h.1

end Publish

/-! ## The operations -/

section Operations

variable {storage : Storage} {J : Writer → Prop}

variable (hpersists : storage.Persists) (hJ : Stable J)

include hJ

theorem preserves_flushGroup (batch : RotatingBatch) : Preserves J (flushGroup storage batch) := by
  unfold flushGroup
  split
  · exact Preserves.pure
  · exact (preserves_appendBatch hJ _).bind fun _ => Preserves.pure

/-- By induction on the turns: a turn that finds the file full writes the group and seals. -/
theorem preserves_splitChunk (piece : Piece) (hour : Hour) (rollback : Option Instant) (fuel : Nat)
    (consumed : Nat) (batch : RotatingBatch) :
    Preserves J (splitChunk storage piece hour rollback fuel consumed batch) := by
  induction fuel generalizing consumed batch with
  | zero => exact Preserves.pure
  | succ fuel ih =>
    unfold splitChunk
    split
    · exact Preserves.pure
    · refine Preserves.get_bind fun writer => ?_
      simp only
      split
      · refine (preserves_flushGroup hJ batch).bind fun _ => (preserves_sealLocked hJ).bind fun _ => ?_
        exact (preserves_openFile hJ hour).bind fun _ => Preserves.get_bind fun _ => ih _ _
      · exact ih _ _

theorem preserves_syncDue : Preserves J (CameraLogs.Logs.syncDue storage) := by
  refine Preserves.get_bind fun writer => ?_
  split
  · exact Preserves.throw
  · split
    · exact (preserves_syncFiles hJ).bind fun _ => Preserves.pure
    · exact Preserves.pure

theorem preserves_keepArchives (archives : List SealedSegment) : Preserves J (keepArchives archives) :=
  Preserves.bind (Preserves.modify fun _ h => hJ.frame h rfl rfl rfl rfl) fun _ => Preserves.pure

include hpersists

theorem preserves_writeChunk (batch : RotatingBatch) (piece : Piece) :
    Preserves J (writeChunk storage batch piece) := by
  refine Preserves.get_bind fun writer => ?_
  simp only
  split
  · exact (preserves_openFile hJ _).bind fun _ => preserves_splitChunk hJ _ _ _ _ _ _
  · split
    · -- another hour, or a chunk that is older: the file is sealed and published
      refine (preserves_flushGroup hJ batch).bind fun _ => (preserves_sealLocked hJ).bind fun _ => ?_
      refine (preserves_publish hpersists hJ true).bind fun _ => ?_
      exact (preserves_openFile hJ _).bind fun _ => preserves_splitChunk hJ _ _ _ _ _ _
    · exact preserves_splitChunk hJ _ _ _ _ _ _

theorem preserves_writeRotating (pieces : List Piece) :
    Preserves J (writeRotating storage pieces) := by
  refine (Preserves.foldlM (preserves_writeChunk hpersists hJ) _ _).bind fun batch => ?_
  exact (preserves_flushGroup hJ batch).bind fun _ => Preserves.pure

theorem preserves_writePieces (pieces : List Piece) : Preserves J (writePieces storage pieces) := by
  cases pieces with
  | nil => exact preserves_writeRotating hpersists hJ []
  | cons piece pieces =>
    refine Preserves.get_bind fun writer => ?_
    split
    refine (preserves_openFile hJ _).bind fun _ => ?_
    -- with a file open or not, the pieces go on alike
    all_goals
      refine Preserves.get_bind fun writer => ?_
      split
      · exact preserves_writeRotating hpersists hJ _
      · split
        · exact preserves_appendBatch hJ _
        · exact preserves_writeRotating hpersists hJ _

theorem preserves_writeMany (chunks : List Chunk) : Preserves J (writeMany storage chunks) := by
  refine Preserves.get_bind fun writer => ?_
  split
  · exact Preserves.throw
  · refine Preserves.tryCatch (preserves_writePieces hpersists hJ _) fun error => ?_
    -- the error is kept, and the handles are closed as far as that goes
    refine Preserves.bind (Preserves.modify fun _ h => hJ.frame h rfl rfl rfl rfl) fun _ => ?_
    refine Preserves.get_bind fun after => ?_
    split
    · refine Preserves.bind (Preserves.tryCatch (preserves_diskStep hJ _) fun _ => ?_) fun _ => ?_
      · exact Preserves.throw
      · exact Preserves.throw
    · exact Preserves.throw

theorem preserves_rotate (now : Option Instant) : Preserves J (rotate storage now) := by
  refine (preserves_sealLocked hJ).bind fun _ => ?_
  refine (preserves_publish hpersists hJ false).bind fun archives => ?_
  split
  · exact preserves_keepArchives hJ _
  · exact (preserves_openFile hJ _).bind fun _ => preserves_keepArchives hJ _

theorem preserves_close (defer : Bool) : Preserves J (close storage defer) :=
  (preserves_sealLocked hJ).bind fun _ => (preserves_publish hpersists hJ defer).bind fun _ =>
    preserves_keepArchives hJ _

end Operations

/-! ## Runs -/

/-- What a collector calls. -/
inductive WriterCall
  | writeMany (chunks : List Chunk)
  | syncDue
  | rotate (now : Option Instant)
  | close (defer : Bool)

/-- The writer after a call, however it ended. -/
def WriterCall.run (storage : Storage) (writer : Writer) : WriterCall → Writer
  | .writeMany chunks => ((CameraLogs.Logs.writeMany storage chunks).exec writer).2
  | .syncDue => ((CameraLogs.Logs.syncDue storage).exec writer).2
  | .rotate now => ((CameraLogs.Logs.rotate storage now).exec writer).2
  | .close defer => ((CameraLogs.Logs.close storage defer).exec writer).2

/-- One call. -/
def WriterStep (storage : Storage) (writer writer' : Writer) : Prop :=
  ∃ call : WriterCall, writer' = call.run storage writer

/-- A writer that calls have brought about; any of their steps may have failed. -/
def WriterReachable (storage : Storage) : Writer → Prop :=
  Reachable (· = Writer.initial) (WriterStep storage)

theorem WriterReachable.initial {storage : Storage} : WriterReachable storage Writer.initial :=
  Reachable.initial rfl

theorem WriterReachable.call {storage : Storage} {writer : Writer}
    (h : WriterReachable storage writer) (call : WriterCall) :
    WriterReachable storage (call.run storage writer) :=
  Reachable.tail h ⟨call, rfl⟩

theorem WriterCall.run_preserves {storage : Storage} {J : Writer → Prop}
    (hpersists : storage.Persists) (hJ : Stable J) {writer : Writer} (call : WriterCall)
    (h : J writer) : J (call.run storage writer) := by
  cases call with
  | writeMany chunks => exact (preserves_writeMany hpersists hJ chunks).exec h
  | syncDue => exact (preserves_syncDue hJ).exec h
  | rotate now => exact (preserves_rotate hpersists hJ now).exec h
  | close defer => exact (preserves_close hpersists hJ defer).exec h

/-- The run lemma: every sealed segment is accounted for in every state. -/
theorem WriterReachable.kept {storage : Storage} (hpersists : storage.Persists) {writer : Writer}
    (h : WriterReachable storage writer) : Kept writer := by
  refine Reachable.invariant (I := Kept) ?_ ?_ h
  · intro s hs
    subst hs
    intro segment hin
    cases hin
  · intro s t hst hs
    obtain ⟨call, rfl⟩ := hst
    exact call.run_preserves hpersists kept_accounting.stable hs

/-! ## Closing -/

/-- Sealing goes through: no error is kept, and the steps on the open file do not fail. -/
def Writer.Seals (storage : Storage) (writer : Writer) : Prop :=
  writer.closeError = none ∧ (writer.file.isSome →
    storage.fails writer.steps .flush = none ∧ storage.fails (writer.steps + 1) .sync = none ∧
      storage.fails (writer.steps + 2) .closeHandles = none ∧ (writer.size = 0 →
        storage.fails (writer.steps + 3) .unlink = none ∧
          storage.fails (writer.steps + 4) .unlink = none))

section Closing

variable {storage : Storage}

/-- The three steps of closing: the first that fails decides. -/
theorem exec_closeFiles (writer : Writer) : (closeFiles storage).exec writer =
    match storage.fails writer.steps .flush with
    | some _ => (.error (.osError .flush), writer.tick)
    | none => match storage.fails (writer.steps + 1) .sync with
      | some _ => (.error (.osError .sync), writer.tick.tick)
      | none => match storage.fails (writer.steps + 2) .closeHandles with
        | some _ => (.error (.osError .closeHandles), writer.tick.tick.synced.tick)
        | none => (.ok (), writer.tick.tick.synced.tick) := by
  unfold closeFiles syncFiles
  rw [exec_bind, exec_diskStep]
  cases storage.fails writer.steps .flush with
  | some _ => rfl
  | none =>
    simp only [exec_bind, exec_diskStep]
    rw [show writer.tick.steps = writer.steps + 1 from rfl]
    cases storage.fails (writer.steps + 1) .sync with
    | some _ => rfl
    | none =>
      simp only [exec_modify]
      rw [show writer.tick.tick.synced.steps = writer.steps + 2 from rfl]
      cases storage.fails (writer.steps + 2) .closeHandles <;> rfl

/-- Closing the handles fails exactly where sealing does before the file is let go. -/
theorem exec_unlinks (writer : Writer) : (do
    diskStep storage .unlink
    diskStep storage .unlink : WriterM Unit).exec writer =
    match storage.fails writer.steps .unlink with
    | some _ => (.error (.osError .unlink), writer.tick)
    | none => match storage.fails (writer.steps + 1) .unlink with
      | some _ => (.error (.osError .unlink), writer.tick.tick)
      | none => (.ok (), writer.tick.tick) := by
  rw [exec_bind, exec_diskStep]
  cases storage.fails writer.steps .unlink with
  | some _ => rfl
  | none =>
    simp only [exec_diskStep]
    rw [show writer.tick.steps = writer.steps + 1 from rfl]
    cases storage.fails (writer.steps + 1) .unlink <;> rfl

/-- Sealing goes through exactly when `Seals` says so; where it does not, what waits and
what has been persisted are as before. -/
theorem sealLocked_cases (storage : Storage) (writer : Writer) :
    (∃ after, (sealLocked storage).exec writer = (.ok (), after) ∧ writer.Seals storage) ∨
    (∃ error after, (sealLocked storage).exec writer = (.error error, after) ∧
      ¬ writer.Seals storage ∧ after.pending = writer.pending ∧ after.spool = writer.spool) := by
  unfold sealLocked
  rw [exec_bind_of_ok (exec_get writer)]
  cases herror : writer.closeError with
  | some error => exact .inr ⟨error, writer, rfl, by simp [Writer.Seals, herror], rfl, rfl⟩
  | none =>
    cases hfile : writer.file with
    | none => exact .inl ⟨writer, rfl, by simp [Writer.Seals, herror, hfile]⟩
    | some file =>
      simp only [exec_bind, exec_tryCatch, exec_closeFiles]
      cases hflush : storage.fails writer.steps .flush with
      | some _ => exact .inr ⟨_, _, rfl, by simp [Writer.Seals, hfile, hflush], rfl, rfl⟩
      | none =>
        cases hsync : storage.fails (writer.steps + 1) .sync with
        | some _ => exact .inr ⟨_, _, rfl, by simp [Writer.Seals, hfile, hsync], rfl, rfl⟩
        | none =>
          cases hclose : storage.fails (writer.steps + 2) .closeHandles with
          | some _ => exact .inr ⟨_, _, rfl, by simp [Writer.Seals, hfile, hclose], rfl, rfl⟩
          | none =>
            simp only [exec_modify]
            by_cases hsize : writer.size = 0
            · rw [if_neg (not_not.mpr hsize), exec_unlinks]
              rw [show writer.tick.tick.synced.tick.detached.steps = writer.steps + 3 from rfl]
              cases hlog : storage.fails (writer.steps + 3) .unlink with
              | some _ => exact .inr ⟨_, _, rfl, by simp [Writer.Seals, hfile, hsize, hlog], rfl, rfl⟩
              | none =>
                cases hindex : storage.fails (writer.steps + 4) .unlink with
                | some _ =>
                  exact .inr ⟨_, _, rfl, by simp [Writer.Seals, hfile, hsize, hindex], rfl, rfl⟩
                | none =>
                  exact .inl ⟨_, rfl, herror, fun _ => ⟨hflush, hsync, hclose, fun _ => ⟨hlog, hindex⟩⟩⟩
            · rw [if_pos hsize]
              exact .inl ⟨_, rfl, herror, fun _ => ⟨hflush, hsync, hclose, fun h => absurd h hsize⟩⟩

/-- A close leaves no segment waiting, and the spool has every one that was sealed before. -/
def ClosesAll (storage : Storage) (defer : Bool) (writer : Writer) : Prop :=
  (WriterCall.run storage writer (.close defer)).pending = [] ∧
    ∀ segment ∈ writer.sealed, segment ∈ (WriterCall.run storage writer (.close defer)).spool

/-- Once the open file is sealed, a close settles whatever it has to account for. -/
theorem close_settles (hpersists : storage.Persists) {J : Writer → Prop} (hJ : Stable J)
    {writer sealed : Writer} (hseal : (sealLocked storage).exec writer = (.ok (), sealed))
    (defer : Bool) (h : J writer) : Cleared J (WriterCall.run storage writer (.close defer)) := by
  have hsealed : J sealed := by
    have hpreserves : Preserves J (sealLocked storage) := preserves_sealLocked hJ
    have hkeep := hpreserves.exec h
    rwa [hseal] at hkeep
  have hrest : Triple J (publishPendingLocked storage defer >>= keepArchives)
      (fun _ => Cleared J) (fun _ => Cleared J) := by
    refine Triple.bind (publish_triple hpersists hJ defer) fun archives => ?_
    refine Preserves.bind (Preserves.modify ?_) fun _ => Preserves.pure
    intro s hs
    exact ⟨hJ.frame hs.1 rfl rfl rfl rfl, hs.2⟩
  have hfinal := hrest sealed hsealed
  show Cleared J ((sealLocked storage >>= fun _ => publishPendingLocked storage defer >>=
    keepArchives).exec writer).2
  rw [exec_bind_of_ok hseal]
  split at hfinal <;> simp [*]

/-- Sealing decides: a close that gets past it persists everything, one that does not
leaves what waits where it is. -/
theorem closesAll_iff (hpersists : storage.Persists) {writer : Writer} (hkept : Kept writer)
    (defer : Bool) :
    ClosesAll storage defer writer ↔ writer.pending = [] ∨ writer.Seals storage := by
  rcases sealLocked_cases storage writer with
    ⟨sealed, hseal, hseals⟩ | ⟨error, after, hseal, hnot, hpending, hspool⟩
  · refine ⟨fun _ => .inr hseals, fun _ => ⟨?_, fun segment hin => ?_⟩⟩
    · exact (close_settles hpersists kept_accounting.stable hseal defer hkept).2
    · have hsettled := close_settles hpersists (waits_accounting segment).stable hseal defer
        (hkept segment hin)
      have hwaits := hsettled.1
      simpa [Waits, hsettled.2] using hwaits
  · have hexec : WriterCall.run storage writer (.close defer) = after := by
      show ((sealLocked storage >>= _).exec writer).2 = after
      rw [exec_bind_of_error hseal]
    unfold ClosesAll
    rw [hexec, hpending, hspool]
    refine ⟨fun h => .inl h.1, fun h => ?_⟩
    have hempty := h.resolve_right hnot
    refine ⟨hempty, fun segment hin => ?_⟩
    have hwaits := hkept segment hin
    simpa [hempty] using hwaits

end Closing

/-- **As long as no step that makes or persists the manifests fails, every sealed segment
waits or is in the spool in every state of every run, whichever other steps fail; and a
close persists all of them exactly when nothing waits or its own sealing goes through.** -/
theorem segments_accounted {storage : Storage} (hpersists : storage.Persists) {writer : Writer}
    (h : WriterReachable storage writer) :
    Kept writer ∧ ∀ defer, ClosesAll storage defer writer ↔
      writer.pending = [] ∨ writer.Seals storage :=
  ⟨h.kept hpersists, fun defer => closesAll_iff hpersists (h.kept hpersists) defer⟩

/-- Files of one byte, and one step of I/O that fails. -/
def faultyStorage (count : Nat) (step : DiskStep) : Storage :=
  { hourOf := fun instant => instant / 10, segmentBytes := fun _ => some 1
    indexParts := fun _ _ => [], takenParts := fun _ _ => []
    fails := fun count' step' => if count' = count ∧ step' = step then some 0 else none
    syncDue := fun _ => false }

/-- Two chunks of a byte; the second starts a second file. -/
def writeTwo (storage : Storage) : Writer :=
  WriterCall.run storage (WriterCall.run storage Writer.initial (.writeMany [⟨[1], 0⟩]))
    (.writeMany [⟨[2], 0⟩])

theorem writeTwo_reachable (storage : Storage) : WriterReachable storage (writeTwo storage) :=
  (WriterReachable.initial.call _).call _

/-- With the second append failing: the first segment waits behind the kept error. -/
theorem segments_accounted_failed_append :
    Kept (writeTwo (faultyStorage 7 .appendBody)) ∧
      ∀ defer, ClosesAll (faultyStorage 7 .appendBody) defer (writeTwo (faultyStorage 7 .appendBody)) ↔
        (writeTwo (faultyStorage 7 .appendBody)).pending = [] ∨
          (writeTwo (faultyStorage 7 .appendBody)).Seals (faultyStorage 7 .appendBody) :=
  segments_accounted (fun count => by simp [faultyStorage]) (writeTwo_reachable _)

/-- A spool that cannot be written once loses both segments; an append that fails keeps the
segment before it from ever being persisted. -/
theorem segments_dropped :
    (WriterReachable (faultyStorage 13 .persistSpool)
        (WriterCall.run (faultyStorage 13 .persistSpool) (writeTwo (faultyStorage 13 .persistSpool))
          (.close true)) ∧
      ¬ Kept (WriterCall.run (faultyStorage 13 .persistSpool)
        (writeTwo (faultyStorage 13 .persistSpool)) (.close true))) ∧
    (WriterReachable (faultyStorage 7 .appendBody) (writeTwo (faultyStorage 7 .appendBody)) ∧
      ¬ ClosesAll (faultyStorage 7 .appendBody) true (writeTwo (faultyStorage 7 .appendBody))) := by
  refine ⟨⟨(writeTwo_reachable _).call _, ?_⟩, writeTwo_reachable _, ?_⟩
  · unfold Kept
    decide
  · unfold ClosesAll
    decide

end CameraLogs.Logs
