import CameraLogs.Common.PurgeRounds
import CameraLogs.Lib.Blocks

/-!
# The archive of removed audit records

The summaries of the audit records removed of a day are a log that only grows; the chunks of the
day are its blocks of a hundred and its counter is its length (`DayArchived`). A transaction adds
at the end of both or of none: the part it writes is the counter divided by a hundred, which is
the number of the block that is not full, so the error for a full chunk cannot be.
-/

namespace CameraLogs.Common

open Lib Administration

variable {β : Type} {codec : Codec β} {s t : PurgeStore β} {round : PurgeRound} {row : Candidate}
  {record : Record} {refs : References} {day now : Int} {fenced : Bool}

/-! ## What a transaction does -/

/-- A record that is not protected has a summary the archive takes. -/
theorem isProtected_audit (h : isProtected codec .audit s.references record = .ok (false, refs)) :
    ∃ summary, auditSummary record = some summary ∧ codec.size summary ≤ archiveBytes := by
  have hcollection : collectionProtected codec .audit s.references record = .ok false := by
    unfold isProtected at h
    cases hcollection : collectionProtected codec .audit s.references record with
    | error raise =>
      rw [hcollection] at h
      cases h
    | ok protects =>
      rw [hcollection] at h
      cases protects with
      | true => cases h
      | false => rfl
  simp only [collectionProtected, auditProtected] at hcollection
  split at hcollection
  next => cases hcollection
  next =>
    cases hsummary : auditSummary record with
    | none =>
      rw [hsummary] at hcollection
      cases hcollection
    | some summary =>
      rw [hsummary] at hcollection
      have hall := Except.ok.inj hcollection
      simp only [Bool.or_eq_false_iff, decide_eq_false_iff_not] at hall
      exact ⟨summary, rfl, Nat.not_lt.mp hall.1.1⟩

/-- The chunk of a part with one more summary. -/
def addSummary (codec : Codec β) (s : PurgeStore β) (day now : Int) (records : List Document)
    (summary : Document) : PurgeStore β :=
  { s with
    chunks := fun day' part' =>
      if day' = day ∧ part' = deletedOf s .audit day / chunkSize then
        some (writeChunk codec (s.chunks day (deletedOf s .audit day / chunkSize))
          (records ++ [summary]) now)
      else s.chunks day' part' }

/-- The summaries of the part that the next one goes to. -/
def openPart (codec : Codec β) (s : PurgeStore β) (day : Int) : Option (List Document) :=
  (s.chunks day (deletedOf s .audit day / chunkSize)).elim (some []) (readChunk codec)

theorem archiveAudit_eq {records : List Document} {summary : Document}
    (hread : openPart codec s day = some records) (hsummary : auditSummary record = some summary)
    (hsize : codec.size summary ≤ archiveBytes) (hlength : records.length < chunkSize) :
    archiveAudit codec s record day now = .ok (addSummary codec s day now records summary) := by
  have hnot : ¬(archiveBytes < codec.size summary ∨ chunkSize ≤ records.length) := by
    rw [not_or]
    exact ⟨Nat.not_lt.mpr hsize, Nat.not_le.mpr hlength⟩
  rw [archiveAudit]
  rw [openPart] at hread
  simp only [hread, hsummary, if_neg hnot]
  rfl

theorem exists_of_map_ok {α γ ε : Type} {f : α → γ} {x : Except ε α} {y : γ} (h : x.map f = .ok y) :
    ∃ a, x = .ok a ∧ f a = y := by
  cases x with
  | error e => cases h
  | ok a => exact ⟨a, rfl, Except.ok.inj h⟩

theorem error_of_map {α γ ε : Type} {f : α → γ} {x : Except ε α} {e : ε} (h : x.map f = .error e) :
    x = .error e := by
  cases x with
  | error e' => exact congrArg Except.error (Except.error.inj h)
  | ok a => cases h

theorem isProtected_error {collection : Growth} {raise : Raise}
    (h : isProtected codec collection s.references record = .error raise) :
    raise = .unhashable := by
  unfold isProtected at h
  split at h
  next other hcollection =>
    cases h
    cases collection with
    | audit =>
      simp only [collectionProtected, auditProtected] at hcollection
      split at hcollection
      next => cases hcollection
      next =>
        split at hcollection
        next => exact (Except.error.inj hcollection).symm
        next => cases hcollection
    | events => cases hcollection
    | operations =>
      simp only [collectionProtected] at hcollection
      split at hcollection
      next => exact (Except.error.inj hcollection).symm
      next => cases hcollection
  next => cases h
  next =>
    dsimp only at h
    split at h
    next => cases h
    next => cases h

/-- What a transaction does: nothing to records and archive, or the removal of a record. -/
theorem commit_cases {removed : Option Record}
    (h : commit codec s round row fenced now = .ok (t, removed)) :
    (t.records = s.records ∧ t.days = s.days ∧ t.chunks = s.chunks ∧
      (removed.isSome → round.dryRun = true)) ∨
    ∃ record refs archived, round.dryRun = false ∧ removed = some record ∧
      record ∈ s.records round.collection ∧ record.id = row.id ∧
      isProtected codec round.collection s.references record = .ok (false, refs) ∧
      (if round.collection = .audit then
        archiveAudit codec (deleteRecord { s with references := refs } round.collection record.id)
          record record.day now
        else .ok (deleteRecord { s with references := refs } round.collection record.id)) =
        .ok archived ∧
      t = countDeleted archived round.collection record.day now := by
  unfold commit at h
  split at h
  next =>
    split at h
    next =>
      cases h
      exact .inl ⟨rfl, rfl, rfl, nofun⟩
    next record hfind =>
      have hrow := List.find?_some hfind
      simp only [Bool.and_eq_true, decide_eq_true_eq] at hrow
      split at h
      next => cases h
      next refs hprotected =>
        cases h
        exact .inl ⟨rfl, rfl, rfl, nofun⟩
      next refs hfree =>
        dsimp only at h
        split at h
        next hdry =>
          cases h
          exact .inl ⟨rfl, rfl, rfl, fun _ => hdry⟩
        next hdry =>
          obtain ⟨archived, harchived, hend⟩ := exists_of_map_ok h
          cases hend
          exact .inr ⟨record, refs, archived, Bool.eq_false_iff.mpr hdry, rfl,
            List.mem_of_find?_eq_some hfind, hrow.1, hfree, harchived, rfl⟩
  next =>
    cases h
    exact .inl ⟨rfl, rfl, rfl, nofun⟩

/-! ## The invariant -/

/-- The audit records removed of a day, in order. -/
def removedOn (history : PurgeHistory) (day : Int) : List Record :=
  (history.removed .audit).filter (·.day = day)

/-- The chunk holds these summaries. -/
structure Chunk.Holds (codec : Codec β) (chunk : Chunk β) (records : List Document) : Prop where
  payload : chunk.payload = codec.compress (codec.dumps records)
  count : chunk.count = records.length
  sha256 : chunk.sha256 = codec.sha256 (codec.dumps records)

/-- The chunks of a day are the blocks of its log, and its counter is the length. -/
structure DayArchived (codec : Codec β) (s : PurgeStore β) (day : Int) (log : List Document) :
    Prop where
  counter : deletedOf s .audit day = log.length
  plain : ∀ summary ∈ log, plainMembers summary = true
  chunks : ∀ part, match s.chunks day part with
    | none => block chunkSize log part = []
    | some chunk => block chunkSize log part ≠ [] ∧ chunk.Holds codec (block chunkSize log part)

/-- How the archive reads back what it has written. -/
structure Codec.Lawful (codec : Codec β) : Prop where
  loads_dumps : ∀ records, (∀ summary ∈ records, plainMembers summary = true) →
    codec.loads (codec.dumps records) = some records
  decompress_compress : ∀ body, codec.decompress (codec.compress body) = some body

theorem chunkSize_pos : 0 < chunkSize := by decide

theorem mem_block {α : Type} {size number : Nat} {l : List α} {x : α} (h : x ∈ block size l number) :
    x ∈ l := List.mem_of_mem_drop (List.mem_of_mem_take h)

variable {log : List Document} {summary : Document} {part : Nat} {chunk : Chunk β}

theorem readChunk_of_holds (hcodec : codec.Lawful) {records : List Document}
    (hplain : ∀ summary ∈ records, plainMembers summary = true) (h : chunk.Holds codec records) :
    readChunk codec chunk = some records := by
  rw [readChunk, h.payload, hcodec.decompress_compress, Option.bind_some,
    hcodec.loads_dumps records hplain]

/-- The chunk that is not full holds the end of the log. -/
theorem DayArchived.openPart (hcodec : codec.Lawful) (h : DayArchived codec s day log) :
    openPart codec s day = some (block chunkSize log (log.length / chunkSize)) := by
  have hchunk := h.chunks (log.length / chunkSize)
  rw [Common.openPart, h.counter]
  cases hfound : s.chunks day (log.length / chunkSize) with
  | none =>
    rw [hfound] at hchunk
    rw [hchunk]
    rfl
  | some chunk =>
    rw [hfound] at hchunk
    exact readChunk_of_holds hcodec (fun summary hsummary => h.plain summary (mem_block hsummary))
      hchunk.2

theorem length_openPart : (block chunkSize log (log.length / chunkSize)).length < chunkSize := by
  rw [(block_last chunkSize log chunkSize_pos).2]
  exact Nat.mod_lt _ chunkSize_pos

theorem archiveAudit_ok (hcodec : codec.Lawful) (h : DayArchived codec s day log)
    (hsummary : auditSummary record = some summary) (hsize : codec.size summary ≤ archiveBytes) :
    archiveAudit codec s record day now =
      .ok (addSummary codec s day now (block chunkSize log (log.length / chunkSize)) summary) :=
  archiveAudit_eq (h.openPart hcodec) hsummary hsize length_openPart

/-- One more summary, and one more in the counter. -/
theorem DayArchived.add (h : DayArchived codec s day log) (hplain : plainMembers summary = true) :
    DayArchived codec (countDeleted (addSummary codec s day now
      (block chunkSize log (log.length / chunkSize)) summary) .audit day now) day
      (log ++ [summary]) where
  counter := by
    have hcounter : deletedOf (addSummary codec s day now
        (block chunkSize log (log.length / chunkSize)) summary) .audit day = log.length := h.counter
    simp [countDeleted, deletedOf] at hcounter ⊢
    exact hcounter
  plain := by
    intro other hother
    obtain hold | hnew := List.mem_append.mp hother
    · exact h.plain other hold
    · rwa [List.mem_singleton.mp hnew]
  chunks := by
    intro part
    show match (if day = day ∧ part = deletedOf s .audit day / chunkSize then _ else s.chunks day part)
      with | none => _ | some chunk => _
    rw [h.counter]
    by_cases hpart : part = log.length / chunkSize
    · rw [if_pos ⟨rfl, hpart⟩, hpart, block_append_self chunkSize_pos]
      exact ⟨List.append_ne_nil_of_right_ne_nil _ (List.cons_ne_nil _ _), rfl, rfl, rfl⟩
    · rw [if_neg fun hsame => hpart hsame.2, block_append_other chunkSize_pos _ hpart]
      exact h.chunks part

/-- What is removed of another day leaves the archive of this one. -/
theorem DayArchived.other {day' : Int} (hday : day' ≠ day) {records : List Document}
    (h : DayArchived codec s day' log) :
    DayArchived codec (countDeleted (addSummary codec s day now records summary) .audit day now)
      day' log where
  counter := by
    have hcounter := h.counter
    simp only [deletedOf, countDeleted, addSummary] at hcounter ⊢
    rw [if_neg fun hsame => hday hsame.2]
    exact hcounter
  plain := h.plain
  chunks := by
    intro part
    have hchunk := h.chunks part
    simp only [countDeleted, addSummary]
    rw [if_neg fun hsame => hday hsame.1]
    exact hchunk

theorem DayArchived.congr (hdays : t.days .audit day = s.days .audit day)
    (hchunks : t.chunks = s.chunks) (h : DayArchived codec s day log) :
    DayArchived codec t day log where
  counter := by
    rw [deletedOf, hdays]
    exact h.counter
  plain := h.plain
  chunks := by
    rw [hchunks]
    exact h.chunks

/-! ## Summaries are plain -/

theorem plainMembers_cons {key : String} {value : BsonValue} {members : Document} :
    plainMembers ((key, value) :: members) = true ↔
      key.toList.head? ≠ some '$' ∧ value.plain = true ∧ plainMembers members = true := by
  simp [plainMembers, and_assoc]

theorem plainMembers_set {key : String} {value : BsonValue} {members : Document}
    (hkey : key.toList.head? ≠ some '$') (hvalue : value.plain = true)
    (h : plainMembers members = true) : plainMembers (members.set key value) = true := by
  induction members with
  | nil => exact plainMembers_cons.mpr ⟨hkey, hvalue, h⟩
  | cons member members ih =>
    obtain ⟨hown, hplain, hrest⟩ := plainMembers_cons.mp h
    unfold Document.set
    split
    next => exact plainMembers_cons.mpr ⟨hkey, hvalue, hrest⟩
    next => exact plainMembers_cons.mpr ⟨hown, hplain, ih hrest⟩

theorem plainMembers_fields {document : Document} {keys : List String}
    (hkeys : ∀ key ∈ keys, key.toList.head? ≠ some '$')
    (hplain : ∀ key ∈ keys, (document.get key).plain = true) :
    plainMembers (keys.filterMap fun key => (document.field key).map (key, ·)) = true := by
  induction keys with
  | nil => rfl
  | cons key keys ih =>
    have hrest := ih (fun key' hkey' => hkeys key' (List.mem_cons_of_mem _ hkey'))
      fun key' hkey' => hplain key' (List.mem_cons_of_mem _ hkey')
    have hvalue := hplain key List.mem_cons_self
    rw [Document.get] at hvalue
    cases hfield : document.field key with
    | none =>
      rw [List.filterMap_cons_none (by rw [hfield]; rfl)]
      exact hrest
    | some value =>
      rw [hfield] at hvalue
      rw [List.filterMap_cons_some (by rw [hfield]; rfl)]
      exact plainMembers_cons.mpr ⟨hkeys key List.mem_cons_self, hvalue, hrest⟩

theorem auditSummary_plain (hsummary : auditSummary record = some summary)
    (hplain : ∀ key ∈ ARCHIVE_FIELDS, (record.document.get key).plain = true) :
    plainMembers summary = true := by
  obtain ⟨outcome, -, rfl⟩ := Option.map_eq_some_iff.mp hsummary
  have hfields := @plainMembers_fields record.document _ (by decide) hplain
  exact plainMembers_set (by decide) rfl (plainMembers_set (by decide) rfl hfields)

/-! ## Runs -/

/-- A step of the purge or of what goes on beside it. -/
def PurgeStep (codec : Codec β) (s t : PurgeSystem β) : Prop :=
  ∃ act : PurgeAct, (∀ records references, act = .write records references → Writable records) ∧
    act.apply codec s = some t

/-- Nothing has been removed yet. -/
structure PurgeStart (s : PurgeSystem β) : Prop where
  writable : Writable s.store.records
  days : ∀ day, s.store.days .audit day = none
  chunks : ∀ day part, s.store.chunks day part = none
  removed : s.history.removed .audit = []

structure PurgedInv (codec : Codec β) (s : PurgeSystem β) : Prop where
  writable : Writable s.store.records
  archived : ∀ day, ∃ log, log.map some = (removedOn s.history day).map auditSummary ∧
    DayArchived codec s.store day log

theorem PurgeStart.inv {s : PurgeSystem β} (h : PurgeStart s) : PurgedInv codec s where
  writable := h.writable
  archived := by
    intro day
    refine ⟨[], by rw [removedOn, h.removed]; rfl, ⟨?_, nofun, ?_⟩⟩
    · rw [deletedOf, h.days]
      rfl
    · intro part
      rw [h.chunks]
      show block chunkSize [] part = []
      simp [block]

theorem Writable.delete {s : PurgeStore β} {collection : Growth} {id : Identifier}
    (h : Writable s.records) : Writable (deleteRecord s collection id).records := by
  refine ⟨fun collection' => ?_, fun record hrecord => ?_⟩
  · simp only [deleteRecord]
    split
    next => exact (h.1 collection).sublist (List.filter_sublist.map _)
    next => exact h.1 collection'
  · refine h.2 record ?_
    simp only [deleteRecord] at hrecord
    split at hrecord
    next heq => exact heq ▸ (List.mem_filter.mp hrecord).1
    next => exact hrecord

theorem removedOn_note {history : PurgeHistory} {collection : Growth} {removed : Option Record} :
    removedOn (noteExamined history collection row removed) day = removedOn history day ++
      if collection = .audit then removed.toList.filter (·.day = day) else [] := by
  by_cases haudit : collection = .audit
  · rw [removedOn, noteExamined, haudit]
    simp [removedOn]
  · rw [removedOn, noteExamined]
    simp only [setAt_other _ _ (Ne.symm haudit), if_neg haudit, List.append_nil]
    rfl

/-- What a transaction does to the archive, where it is no dry run. -/
theorem PurgedInv.transact {s : PurgeSystem β} {store : PurgeStore β} {removed : Option Record}
    (hcodec : codec.Lawful) (h : PurgedInv codec s)
    (hcommit : commit codec s.store round row fenced now = .ok (store, removed))
    (hdry : round.dryRun = false) :
    Writable store.records ∧ ∀ day, ∃ log,
      log.map some =
        (removedOn (noteExamined s.history round.collection row removed) day).map auditSummary ∧
      DayArchived codec store day log := by
  obtain ⟨hrecords, hdays, hchunks, hnone⟩ | ⟨record, refs, archived, -, rfl, hmem, -, hfree,
    harchived, rfl⟩ := commit_cases hcommit
  · have hremoved : removed = none := by
      cases removed with
      | none => rfl
      | some record => exact absurd (hnone rfl) (by simp [hdry])
    subst hremoved
    refine ⟨hrecords ▸ h.writable, fun day => ?_⟩
    obtain ⟨log, hlog, hday⟩ := h.archived day
    refine ⟨log, ?_, hday.congr (by rw [hdays]) hchunks⟩
    rw [hlog, removedOn_note]
    simp
  · have hwritable := @Writable.delete _ _ round.collection record.id h.writable
    by_cases haudit : round.collection = .audit
    · rw [haudit] at hmem hfree harchived hwritable ⊢
      rw [if_pos rfl] at harchived
      obtain ⟨summary, hsummary, hsize⟩ := isProtected_audit hfree
      obtain ⟨log, hlog, hday⟩ := h.archived record.day
      have hdeleted : DayArchived codec (deleteRecord { s.store with references := refs } .audit
          record.id) record.day log := hday.congr (s := s.store) rfl rfl
      rw [archiveAudit_ok hcodec hdeleted hsummary hsize] at harchived
      cases harchived
      refine ⟨hwritable, fun day => ?_⟩
      by_cases hsame : day = record.day
      · subst hsame
        refine ⟨log ++ [summary], ?_, hdeleted.add (auditSummary_plain hsummary
          (h.writable.2 record hmem))⟩
        rw [removedOn_note, List.map_append, List.map_append, hlog]
        simp [hsummary]
      · obtain ⟨log', hlog', hday'⟩ := h.archived day
        have hother : DayArchived codec (deleteRecord { s.store with references := refs } .audit
            record.id) day log' := hday'.congr (s := s.store) rfl rfl
        refine ⟨log', ?_, hother.other hsame⟩
        rw [hlog', removedOn_note]
        simp [Ne.symm hsame]
    · rw [if_neg haudit] at harchived
      cases harchived
      refine ⟨hwritable, fun day => ?_⟩
      obtain ⟨log, hlog, hday⟩ := h.archived day
      refine ⟨log, ?_, hday.congr (s := s.store) ?_ rfl⟩
      · rw [hlog, removedOn_note, if_neg haudit, List.append_nil]
      · exact if_neg fun hsame => haudit hsame.1.symm

theorem PurgedInv.congr {s t : PurgeSystem β} (h : PurgedInv codec s)
    (hstore : t.store = s.store) (hremoved : t.history.removed = s.history.removed) :
    PurgedInv codec t where
  writable := by
    rw [hstore]
    exact h.writable
  archived := by
    intro day
    rw [hstore, removedOn, hremoved]
    exact h.archived day

theorem PurgedInv.step {s t : PurgeSystem β} (hcodec : codec.Lawful) (hst : PurgeStep codec s t)
    (h : PurgedInv codec s) : PurgedInv codec t := by
  obtain ⟨act, hwrite, hact⟩ := hst
  cases act with
  | start collection cutoff batchSize owner dryRun =>
    simp only [PurgeAct.apply] at hact
    split at hact
    next => cases hact
    next =>
      cases hact
      exact h.congr rfl rfl
  | transact unexpired now =>
    simp only [PurgeAct.apply] at hact
    split at hact
    next => cases hact
    next round hround =>
      split at hact
      next => cases hact
      next row rest htodo =>
        cases hact
        unfold transactRow
        split
        next => exact h.congr rfl rfl
        next store removed hcommit =>
          by_cases hdry : round.dryRun
          · -- a dry run writes the tasks' revisions only
            obtain ⟨hrecords, hdays, hchunks, -⟩ | ⟨_, _, _, hreal, _⟩ := commit_cases hcommit
            · simp only [if_pos hdry]
              refine ⟨hrecords ▸ h.writable, fun day => ?_⟩
              obtain ⟨log, hlog, hday⟩ := h.archived day
              exact ⟨log, hlog, hday.congr (by rw [hdays]) hchunks⟩
            · rw [hdry] at hreal
              cases hreal
          · obtain ⟨hwritable, harchived⟩ := h.transact hcodec hcommit (Bool.eq_false_iff.mpr hdry)
            simp only [if_neg hdry]
            exact ⟨hwritable, harchived⟩
  | abort =>
    cases hact
    exact h
  | finish unexpired =>
    simp only [PurgeAct.apply] at hact
    split at hact
    next => cases hact
    next round hround =>
      split at hact
      next =>
        cases hact
        unfold finishRound
        split
        next => exact h.congr rfl rfl
        next =>
          split
          next => exact h.congr rfl rfl
          next => exact h.congr rfl rfl
      next => cases hact
  | crash =>
    cases hact
    exact h.congr rfl rfl
  | takeover owner =>
    cases hact
    exact h.congr rfl rfl
  | write records references =>
    cases hact
    refine ⟨hwrite _ _ rfl, fun day => ?_⟩
    obtain ⟨log, hlog, hday⟩ := h.archived day
    exact ⟨log, hlog, hday.congr (s := s.store) rfl rfl⟩

/-- The summaries of the day's chunks one after the other, up to a number of parts. -/
def readDay (codec : Codec β) (s : PurgeStore β) (day : Int) (parts : Nat) : List Document :=
  (List.range parts).flatMap fun part => ((s.chunks day part).bind (readChunk codec)).getD []

/-- What a day's chunks are, beside what they hold. -/
structure Chunk.Sound (codec : Codec β) (chunk : Chunk β) : Prop where
  bounded : chunk.count ≤ chunkSize
  /-- Count and digest match the payload. -/
  payload : ∃ body records, codec.decompress chunk.payload = some body ∧
    codec.loads body = some records ∧ chunk.count = records.length ∧ chunk.sha256 = codec.sha256 body

theorem DayArchived.sound (hcodec : codec.Lawful) (h : DayArchived codec s day log)
    (hchunk : s.chunks day part = some chunk) : chunk.Sound codec := by
  have hholds := h.chunks part
  rw [hchunk] at hholds
  obtain ⟨-, hpayload, hcount, hdigest⟩ := hholds
  refine ⟨?_, codec.dumps (block chunkSize log part), block chunkSize log part, ?_, ?_, hcount, hdigest⟩
  · rw [hcount]
    exact length_block_le
  · rw [hpayload, hcodec.decompress_compress]
  · exact hcodec.loads_dumps _ fun summary hsummary => h.plain summary (mem_block hsummary)

theorem DayArchived.readDay (hcodec : codec.Lawful) (h : DayArchived codec s day log) {parts : Nat}
    (hparts : ∀ part, (s.chunks day part).isSome → part < parts) :
    readDay codec s day parts = log := by
  have hpart : ∀ part, ((s.chunks day part).bind (readChunk codec)).getD [] =
      block chunkSize log part := by
    intro part
    have hchunk := h.chunks part
    cases hfound : s.chunks day part with
    | none =>
      rw [hfound] at hchunk
      exact hchunk.symm
    | some chunk =>
      rw [hfound] at hchunk
      rw [Option.bind_some, readChunk_of_holds hcodec
        (fun summary hsummary => h.plain summary (mem_block hsummary)) hchunk.2]
      rfl
  have hend : block chunkSize log parts = [] := by
    have hchunk := h.chunks parts
    cases hfound : s.chunks day parts with
    | none =>
      rw [hfound] at hchunk
      exact hchunk
    | some chunk => exact absurd (hparts parts (by rw [hfound]; rfl)) (Nat.lt_irrefl _)
  rw [Common.readDay, List.flatMap_congr fun part _ => hpart part, flatMap_block]
  exact List.take_of_length_le ((block_eq_nil_iff chunkSize_pos).mp hend)

/-- The error for a full chunk, and the one for a chunk that cannot be read, cannot be. -/
theorem PurgedInv.commit_error {s : PurgeSystem β} (hcodec : codec.Lawful) (h : PurgedInv codec s)
    {raise : Raise} (hcommit : commit codec s.store round row fenced now = .error raise) :
    raise = .unhashable := by
  unfold commit at hcommit
  split at hcommit
  next =>
    split at hcommit
    next => cases hcommit
    next record hfind =>
      split at hcommit
      next other hprotected =>
        cases hcommit
        exact isProtected_error hprotected
      next => cases hcommit
      next refs hfree =>
        dsimp only at hcommit
        split at hcommit
        next => cases hcommit
        next =>
          have harchive := error_of_map hcommit
          split at harchive
          next haudit =>
            -- the summary fits, and the part has room
            rw [haudit] at hfree harchive
            obtain ⟨summary, hsummary, hsize⟩ := isProtected_audit hfree
            obtain ⟨log, -, hday⟩ := h.archived record.day
            have hdeleted : DayArchived codec (deleteRecord { s.store with references := refs }
                .audit record.id) record.day log := hday.congr (s := s.store) rfl rfl
            rw [archiveAudit_ok hcodec hdeleted hsummary hsize] at harchive
            cases harchive
          next => cases harchive
  next => cases hcommit

/-- Texts and what is compressed of them. -/
inductive Body where
  | text (records : List Document)
  | gzip (body : Body)

/-- A codec that keeps what it is given. -/
def plainCodec : Codec Body where
  size summary := summary.length * 64
  dumps := .text
  loads
    | .text records => some records
    | .gzip _ => none
  compress := .gzip
  decompress
    | .text _ => none
    | .gzip body => some body
  sha256
    | .text records => toString records.length
    | .gzip _ => ""

theorem plainCodec_lawful : plainCodec.Lawful := ⟨fun _ _ => rfl, fun _ => rfl⟩

def noReferences : References where
  reserved _ := false
  openCommand _ := false
  openOperation _ := false
  tasks _ := none
  runs _ := none
  openCommandOfRun _ := false
  endpointLockOfRun _ := false

def oneLogin : Record := ⟨.objectId 1, 5, [("actor", .string "u"), ("action", .string "login_failed")]⟩

/-- A store with one audit record, of the first day. -/
def oneLoginSystem : PurgeSystem Body where
  store := ⟨fun
    | .audit => [oneLogin]
    | _ => [], noReferences, fun _ _ => none, fun _ _ => none⟩
  owner := "owner"
  cursors _ := none
  round := none
  history := ⟨fun _ => [], fun _ => [], fun _ => [], fun _ => none, fun _ => 0⟩

/-- The record is removed in a round of its own. -/
def oneLoginRemoved : PurgeSystem Body :=
  (runActs (PurgeAct.apply plainCodec) [.start .audit 10 100 "owner" false, .transact true 20,
    .finish true] oneLoginSystem).getD oneLoginSystem

theorem oneLogin_start : PurgeStart oneLoginSystem where
  writable := by
    refine ⟨fun collection => ?_, ?_⟩
    · cases collection <;> decide
    · decide
  days _ := rfl
  chunks _ _ := rfl
  removed := rfl

theorem oneLogin_reached : Reachable PurgeStart (PurgeStep plainCodec) oneLoginRemoved := by
  have hstarted := (Reachable.initial oneLogin_start).tail
    (show PurgeStep plainCodec _ _ from ⟨.start .audit 10 100 "owner" false, nofun, rfl⟩)
  have hremoved := hstarted.tail
    (show PurgeStep plainCodec _ _ from ⟨.transact true 20, nofun, rfl⟩)
  exact hremoved.tail (show PurgeStep plainCodec _ _ from ⟨.finish true, nofun, rfl⟩)

end CameraLogs.Common
