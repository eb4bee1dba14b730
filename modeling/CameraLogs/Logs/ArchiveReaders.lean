import CameraLogs.Lib.Run
import CameraLogs.Logs.Source

/-!
# Reading archives through kept readers

Members of archives can only be read forwards. `ArchiveReaders` keeps the readers of members
between reads, each at the position it has come to and with a piece of what lies before it. A
read takes a reader of the same version of the same file and member, if there is one that
serves the offset, and opens a new one otherwise; afterwards the reader is kept under its new
position.

A read through kept readers gives what a read of the file as it is gives, or an error
(`read_plain`): a kept reader belongs to a version, and no version is used twice.
-/

namespace CameraLogs.Logs

open CameraLogs.Lib

/-- How much of what has been read is kept. -/
@[irreducible] def tailBytes : Nat := 524288

/-- How much is skipped at once. -/
def skipBytes : Nat := 262144

structure ReaderKey where
  identity : String
  path : String
  version : Option Nat
  member : Option String
  offset : Nat
  deriving DecidableEq

/-- `_Reader` -/
structure KeptReader where
  source : LogSource
  /-- Where the stream of the source is. -/
  position : Nat
  touched : Nat
  tail : Bytes
  tailStart : Nat
  deriving DecidableEq

structure ArchiveReaders where
  capacity : Nat
  idleSeconds : Nat
  /-- From the oldest to the latest. -/
  idle : List (ReaderKey × KeptReader)
  closed : Bool

namespace ArchiveReaders

def prune (readers : ArchiveReaders) (now : Nat) : ArchiveReaders :=
  { readers with idle := readers.idle.filter fun kept => now < kept.2.touched + readers.idleSeconds }

def close (readers : ArchiveReaders) : ArchiveReaders := { readers with idle := [], closed := true }

/-- Another version of the file. -/
def stale (old key : ReaderKey) : Bool := old.path = key.path && old.version ≠ key.version

/-- The keys are the same but for the offset. -/
def sameMember (old key : ReaderKey) : Bool :=
  old.identity = key.identity && old.path = key.path && old.version = key.version &&
    old.member = key.member

/-- The reader is past the offset and still has what lies between. -/
def candidate (key : ReaderKey) (kept : ReaderKey × KeptReader) : Bool :=
  sameMember kept.1 key && kept.2.tailStart ≤ key.offset && key.offset ≤ kept.1.offset

def pop (readers : ArchiveReaders) (key : ReaderKey) : ArchiveReaders :=
  { readers with idle := readers.idle.filter fun kept => kept.1 ≠ key }

/-- `_take` -/
def take (readers : ArchiveReaders) (key : ReaderKey) (now : Nat) :
    Except SourceError (Option KeptReader) × ArchiveReaders :=
  let readers := readers.prune now
  if readers.closed then (.error .closed, readers)
  else
    let readers := { readers with idle := readers.idle.filter fun kept => !stale kept.1 key }
    match readers.idle.find? fun kept => kept.1 = key with
    | some (_, reader) => (.ok (some reader), readers.pop key)
    | none =>
      match readers.idle.reverse.find? (candidate key) with
      | some (old, reader) => (.ok (some reader), readers.pop old)
      | none => (.ok none, readers)

/-- `_put` -/
def put (readers : ArchiveReaders) (key : ReaderKey) (reader : KeptReader) (now : Nat) :
    ArchiveReaders :=
  if readers.closed then readers
  else
    let idle := (readers.pop key).idle ++ [(key, { reader with touched := now })]
    { readers with idle := idle.drop (idle.length - readers.capacity) }

end ArchiveReaders

/-! ## Reading from a stream -/

/-- `LimitedReader` over the stream of a member. -/
structure LimitedStream where
  content : Bytes
  position : Nat
  remaining : Nat

def LimitedStream.read (stream : LimitedStream) (size : Nat) : Bytes × LimitedStream :=
  if stream.remaining = 0 then ([], stream)
  else
    let data := (stream.content.drop stream.position).take (min size stream.remaining)
    (data, { stream with
      position := stream.position + data.length
      remaining := stream.remaining - data.length })

/-- Skip so many bytes; none when the stream ends before. -/
def LimitedStream.skip : Nat → Nat → LimitedStream → Option LimitedStream
  | 0, remaining, stream => if remaining = 0 then some stream else none
  | fuel + 1, remaining, stream =>
    if remaining = 0 then some stream
    else
      let (skipped, stream) := stream.read (min skipBytes remaining)
      if skipped = [] then none else stream.skip fuel (remaining - skipped.length)

/-- The end of what a read may give: the watermark, if it is not past the end. -/
def readCap (source : LogSource) (watermark : Option Nat) : Nat :=
  min (watermark.getD source.content.length) source.content.length

/-- What there is of a range before the position of the reader. -/
def KeptReader.cached (reader : KeptReader) (offset size : Nat) : Bytes :=
  if offset < reader.position then (reader.tail.drop (offset - reader.tailStart)).take size else []

/-- The reader when it has read on to a position. -/
def KeptReader.advanced (reader : KeptReader) (offset : Nat) (fresh : Bytes) (position : Nat) :
    KeptReader :=
  if fresh = [] then { reader with position }
  else
    let previous := if offset ≤ reader.position then reader.tail else []
    let tail := (previous ++ fresh).drop ((previous ++ fresh).length - tailBytes)
    { reader with position, tail, tailStart := position - tail.length }

def KeptReader.readArchive (reader : KeptReader) (offset size cap : Nat) :
    Bytes × Option KeptReader :=
  let cached := reader.cached offset size
  let stream : LimitedStream := ⟨reader.source.content, reader.position, cap - reader.position⟩
  match stream.skip (offset - reader.position) (offset - reader.position) with
  | none => ([], none)
  | some stream =>
    let (fresh, stream) :=
      if cached.length < size then stream.read (size - cached.length) else ([], stream)
    (cached ++ fresh, some (reader.advanced offset fresh stream.position))

/-- The body of a read, once there is a reader: the data, and the reader where it is now. -/
def KeptReader.read (reader : KeptReader) (offset limit : Nat) (watermark : Option Nat) :
    Bytes × Option KeptReader :=
  let cap := readCap reader.source watermark
  if cap ≤ offset then ([], none)
  else if reader.source.archive = false then
    ((reader.source.content.drop offset).take (min limit (cap - offset)), none)
  else reader.readArchive offset (min limit (cap - offset)) cap

/-! ## One read -/

structure ReadRequest where
  identity : String
  path : String
  member : Option String
  offset : Nat
  limit : Nat
  watermark : Option Nat

/-- The version a read finds the file in. -/
def ReadRequest.version (request : ReadRequest) (disk : Disk) : Except SourceError (Option Nat) :=
  if isArchivePath request.path then
    match disk.archives request.path with
    | none => .error .missing
    | some file => .ok (some file.signature)
  else .ok none

/-- A read with a reader; `fault` is that the open file cannot be read. -/
def ArchiveReaders.readWith (readers : ArchiveReaders) (request : ReadRequest) (key : ReaderKey)
    (reader : KeptReader) (fault : Bool) (now : Nat) : Except SourceError Bytes × ArchiveReaders :=
  if fault then (.error .fault, readers)
  else
    let (data, after) := reader.read request.offset request.limit request.watermark
    match after with
    | none => (.ok data, readers)
    | some after =>
      if isArchivePath request.path && reader.source.version = key.version && data ≠ [] then
        (.ok data, readers.put { key with offset := after.position } after now)
      else (.ok data, readers)

/-- The part of a read after `_take`. -/
def ArchiveReaders.readTaken (readers : ArchiveReaders) (disk : Disk) (request : ReadRequest)
    (key : ReaderKey) (taken : Option KeptReader) (fault : Bool) (now : Nat) :
    Except SourceError Bytes × ArchiveReaders :=
  match taken with
  | some reader => readers.readWith request key reader fault now
  | none =>
    match openLogSource disk request.path request.member true with
    | .error error => (.error error, readers)
    | .ok source =>
      readers.readWith request key
        { source, position := 0, touched := now, tail := [], tailStart := 0 } fault now

def ArchiveReaders.read (readers : ArchiveReaders) (disk : Disk) (request : ReadRequest)
    (fault : Bool) (now : Nat) : Except SourceError Bytes × ArchiveReaders :=
  match request.version disk with
  | .error error => (.error error, readers)
  | .ok version =>
    let key : ReaderKey :=
      ⟨request.identity, request.path, version, request.member, request.offset⟩
    match readers.take key now with
    | (.error error, readers) => (.error error, readers)
    | (.ok taken, readers) => readers.readTaken disk request key taken fault now

/-- A read of the file as it is: what lies between the offset, the limit and the watermark. -/
def plainRead (disk : Disk) (request : ReadRequest) : Except SourceError Bytes :=
  (openLogSource disk request.path request.member true).map fun source =>
    (source.content.take (readCap source request.watermark)).drop request.offset |>.take request.limit

/-! ## Reads between which the files change -/

structure ReadersState where
  disk : Disk
  /-- No archive has had this version or a later one. -/
  clock : Nat
  readers : ArchiveReaders

inductive ReaderAct
  | read (request : ReadRequest) (fault : Bool) (now : Nat)
  /-- An archive is written, or another one takes its place. -/
  | replace (path : String) (content : Option (List TarMember))
  | remove (path : String)
  | raw (path : String) (content : Option Bytes)
  | publish (path : String) (published : Option (String × Nat × String))
  | prune (now : Nat)
  | evict (key : ReaderKey)
  | close

def ReaderAct.apply : ReaderAct → ReadersState → ReadersState
  | .read request fault now, state =>
    { state with readers := (state.readers.read state.disk request fault now).2 }
  | .replace path content, state =>
    let file : File (List TarMember) := { content, signature := state.clock }
    { state with
      disk.archives := Function.update state.disk.archives path (some file)
      clock := state.clock + 1 }
  | .remove path, state =>
    { state with disk.archives := Function.update state.disk.archives path none }
  | .raw path content, state =>
    { state with disk.raw := Function.update state.disk.raw path content }
  | .publish path published, state =>
    { state with disk.published := Function.update state.disk.published path published }
  | .prune now, state => { state with readers := state.readers.prune now }
  | .evict key, state => { state with readers := state.readers.pop key }
  | .close, state => { state with readers := state.readers.close }

def ReadersStep (state after : ReadersState) : Prop := ∃ act : ReaderAct, act.apply state = after

/-- Nothing is kept yet. -/
structure ReadersInitial (state : ReadersState) : Prop where
  idle : state.readers.idle = []
  versions : ∀ path file, state.disk.archives path = some file → file.signature < state.clock

/-! ## What a reader gives -/

variable {reader : KeptReader} {stream stream' : LimitedStream} {offset limit : Nat}
  {watermark : Option Nat}

/-- What a reader has kept is what lies before its position. -/
structure KeptReader.Ok (reader : KeptReader) : Prop where
  start : reader.tailStart ≤ reader.position
  tail : reader.tail = (reader.source.content.take reader.position).drop reader.tailStart

theorem LimitedStream.read_spec {size : Nat} (stream : LimitedStream) :
    stream.read size =
      ((stream.content.drop stream.position).take (min size stream.remaining),
        { stream with
          position := stream.position +
            ((stream.content.drop stream.position).take (min size stream.remaining)).length
          remaining := stream.remaining -
            ((stream.content.drop stream.position).take (min size stream.remaining)).length }) := by
  unfold LimitedStream.read
  split
  · rename_i hnone
    simp [hnone]
    cases stream
    simp_all
  · rfl

theorem LimitedStream.skip_spec {fuel remaining : Nat} (hfuel : remaining ≤ fuel)
    (hremaining : remaining ≤ stream.remaining)
    (hcontent : stream.position + stream.remaining ≤ stream.content.length) :
    stream.skip fuel remaining = some { stream with
      position := stream.position + remaining
      remaining := stream.remaining - remaining } := by
  induction fuel generalizing remaining stream with
  | zero =>
    rw [Nat.le_zero.1 hfuel]
    rfl
  | succ fuel ih =>
    unfold LimitedStream.skip
    split
    · rename_i hzero
      rw [hzero]
      rfl
    · rename_i hpositive
      have hlength : ((stream.content.drop stream.position).take
          (min (min skipBytes remaining) stream.remaining)).length = min skipBytes remaining := by
        rw [List.length_take, List.length_drop]
        omega
      have hskip : 0 < min skipBytes remaining := by
        unfold skipBytes
        omega
      simp only [LimitedStream.read_spec]
      have hdata : (stream.content.drop stream.position).take
          (min (min skipBytes remaining) stream.remaining) ≠ [] :=
        List.ne_nil_of_length_pos (by rw [hlength]; exact hskip)
      rw [if_neg hdata]
      rw [ih (by rw [hlength]; omega) (by simp only [hlength]; omega) (by simp only [hlength]; omega)]
      simp only [hlength, Option.some.injEq, LimitedStream.mk.injEq, true_and]
      omega

/-- Two pieces, the second of which begins where the first one ends. -/
theorem take_drop_append {content : Bytes} {start middle stop : Nat} (hstart : start ≤ middle)
    (hmiddle : middle ≤ content.length) :
    (content.take middle).drop start ++ (content.drop middle).take stop =
      (content.take (middle + stop)).drop start := by
  rw [List.take_add, List.drop_append_of_le_length]
  rw [List.length_take]
  omega

/-- Where something begins that is so long and ends at a position. -/
theorem drop_eq_drop_sub {content : Bytes} {start stop count : Nat} (hstop : stop ≤ content.length)
    (hcount : start + count ≤ stop) :
    ((content.take stop).drop start).drop count =
      (content.take stop).drop (stop - (((content.take stop).drop start).drop count).length) := by
  rw [List.drop_drop, List.length_drop, List.length_take]
  congr 1
  omega

/-- A reader that serves an offset: what it has kept is what lies before its position, and it
is past the offset and has kept what lies between, or has kept nothing. -/
structure KeptReader.Serves (reader : KeptReader) (offset : Nat) : Prop where
  ok : reader.Ok
  bound : reader.position ≤ reader.source.content.length
  start : reader.tailStart ≤ offset
  serves : offset ≤ reader.position ∨ reader.tail = []

theorem KeptReader.Serves.cached {size : Nat} (h : reader.Serves offset) :
    reader.cached offset size =
      ((reader.source.content.take reader.position).drop offset).take size := by
  unfold KeptReader.cached
  split
  · rw [h.ok.tail, List.drop_drop, Nat.add_sub_cancel' h.start]
  · rename_i hpast
    rw [List.drop_eq_nil_of_le (by rw [List.length_take]; omega), List.take_nil]

/-- What a reader has kept when it has read on to a position. -/
theorem KeptReader.Serves.advanced {fresh : Bytes} {count : Nat} (h : reader.Serves offset)
    (hfresh : fresh = (reader.source.content.drop (max reader.position offset)).take count)
    (hcount : max reader.position offset + count ≤ reader.source.content.length)
    (hmoved : fresh ≠ [] ∨ offset ≤ reader.position) :
    (reader.advanced offset fresh (max reader.position offset + fresh.length)).Ok := by
  have hlength : fresh.length = count := by
    rw [hfresh, List.length_take, List.length_drop]
    omega
  unfold KeptReader.advanced
  split
  · rename_i hnone
    have hbehind : offset ≤ reader.position := hmoved.resolve_left (fun hne => hne hnone)
    rw [Nat.max_eq_left hbehind, hnone]
    exact h.ok
  · -- what is kept of it begins where the tail did, or at the offset
    obtain ⟨start, hstart, hprevious⟩ : ∃ start ≤ max reader.position offset,
        (if offset ≤ reader.position then reader.tail else []) =
          (reader.source.content.take (max reader.position offset)).drop start := by
      split
      · rename_i hbehind
        rw [Nat.max_eq_left hbehind]
        exact ⟨reader.tailStart, h.ok.start, h.ok.tail⟩
      · refine ⟨max reader.position offset, Nat.le_refl _, ?_⟩
        rw [List.drop_eq_nil_of_le (List.length_take_le _ _)]
    have hboth : (if offset ≤ reader.position then reader.tail else []) ++ fresh =
        (reader.source.content.take (max reader.position offset + count)).drop start := by
      rw [hprevious, hfresh]
      exact take_drop_append hstart (by omega)
    dsimp only
    rw [hboth, hlength]
    refine ⟨Nat.sub_le _ _, drop_eq_drop_sub hcount ?_⟩
    rw [List.length_drop, List.length_take]
    omega

theorem KeptReader.Serves.readArchive {size cap : Nat} (h : reader.Serves offset)
    (hcap : cap ≤ reader.source.content.length) (hsize : offset + size ≤ cap) (hend : offset < cap) :
    (reader.readArchive offset size cap).1 = (reader.source.content.drop offset).take size ∧
      ∀ after, (reader.readArchive offset size cap).2 = some after →
        (reader.readArchive offset size cap).1 ≠ [] →
        after.source = reader.source ∧ after.Ok ∧ after.position ≤ reader.source.content.length := by
  have hbound := h.bound
  have hskip : LimitedStream.skip (offset - reader.position) (offset - reader.position)
      ⟨reader.source.content, reader.position, cap - reader.position⟩ =
        some ⟨reader.source.content, max reader.position offset,
          cap - max reader.position offset⟩ := by
    rw [LimitedStream.skip_spec (Nat.le_refl _) (by dsimp only; omega) (by dsimp only; omega)]
    simp only [Option.some.injEq, LimitedStream.mk.injEq, true_and]
    omega
  have hcached : (reader.cached offset size).length = min size (reader.position - offset) := by
    rw [h.cached, List.length_take, List.length_drop, List.length_take]
    omega
  -- the fresh part goes on where the cached one ends
  obtain ⟨fresh, hfresh, hread⟩ : ∃ fresh, fresh =
      (reader.source.content.drop (max reader.position offset)).take
        (size - (reader.cached offset size).length) ∧
      reader.readArchive offset size cap = (reader.cached offset size ++ fresh,
        some (reader.advanced offset fresh (max reader.position offset + fresh.length))) := by
    refine ⟨_, rfl, ?_⟩
    simp only [KeptReader.readArchive, hskip]
    split
    · rename_i hshort
      rw [LimitedStream.read_spec]
      have hremaining : min (size - (reader.cached offset size).length)
          (cap - max reader.position offset) = size - (reader.cached offset size).length := by
        omega
      simp only [hremaining]
    · rename_i hlong
      rw [Nat.sub_eq_zero_of_le (Nat.le_of_not_lt hlong)]
      simp
  have hlength : fresh.length = size - (reader.cached offset size).length := by
    rw [hfresh, List.length_take, List.length_drop]
    omega
  have hdata : reader.cached offset size ++ fresh = (reader.source.content.drop offset).take size := by
    rw [h.cached, List.drop_take, List.take_take, hfresh, hcached]
    obtain hwhole | hmore := Nat.le_total size (reader.position - offset)
    · rw [Nat.min_eq_left hwhole, Nat.sub_self, List.take_zero, List.append_nil]
    · have hnext : max reader.position offset = offset + (reader.position - offset) := by omega
      rw [Nat.min_eq_right hmore, hnext, ← List.drop_drop, ← List.take_add, Nat.add_sub_cancel' hmore]
  rw [hread]
  refine ⟨hdata, fun after hafter hne => ?_⟩
  cases hafter
  dsimp only at hne
  have hmoved : fresh ≠ [] ∨ offset ≤ reader.position := by
    by_contra hnot
    obtain ⟨hfresh, hbefore⟩ := not_or.1 hnot
    refine hne (List.append_eq_nil_iff.2 ⟨List.eq_nil_of_length_eq_zero ?_, not_not.1 hfresh⟩)
    rw [hcached]
    omega
  refine ⟨?_, h.advanced (hlength.symm ▸ hfresh) (by omega) hmoved, ?_⟩
  · unfold KeptReader.advanced
    split <;> rfl
  · unfold KeptReader.advanced
    split
    · dsimp only; omega
    · dsimp only; omega

/-- A reader that serves the offset gives what the member has there. -/
theorem KeptReader.Serves.read (h : reader.Serves offset) :
    (reader.read offset limit watermark).1 =
        ((reader.source.content.take (readCap reader.source watermark)).drop offset).take limit ∧
      ∀ after, (reader.read offset limit watermark).2 = some after →
        (reader.read offset limit watermark).1 ≠ [] →
        after.source = reader.source ∧ after.Ok ∧
          after.position ≤ reader.source.content.length := by
  have hcap : readCap reader.source watermark ≤ reader.source.content.length := Nat.min_le_right _ _
  simp only [KeptReader.read]
  generalize readCap reader.source watermark = cap at hcap ⊢
  have hplain : ((reader.source.content.take cap).drop offset).take limit =
      (reader.source.content.drop offset).take (min limit (cap - offset)) := by
    rw [List.drop_take, List.take_take]
  rw [hplain]
  split
  · rename_i hend
    rw [Nat.sub_eq_zero_of_le hend, Nat.min_zero, List.take_zero]
    exact ⟨rfl, nofun⟩
  split
  · exact ⟨rfl, nofun⟩
  · exact h.readArchive hcap (by omega) (by omega)

/-! ## The kept readers -/

variable {disk : Disk} {readers : ArchiveReaders} {key : ReaderKey} {now : Nat} {clock : Nat}

/-- A kept reader is of a version that the file has had; while the file still has it, the
reader is one of its member. -/
structure Keeps (disk : Disk) (clock : Nat) (key : ReaderKey) (reader : KeptReader) : Prop where
  ok : reader.Ok
  bound : reader.position ≤ reader.source.content.length
  offset : key.offset = reader.position
  archive : isArchivePath key.path = true
  version : ∃ version < clock, key.version = some version
  current : ∀ file, disk.archives key.path = some file → key.version = some file.signature →
    openArchive (some file) key.member true none = .ok reader.source

/-- Every kept reader is one. -/
def AllKeep (disk : Disk) (clock : Nat) (readers : ArchiveReaders) : Prop :=
  ∀ kept ∈ readers.idle, Keeps disk clock kept.1 kept.2

theorem AllKeep.mono {fewer : ArchiveReaders} (h : AllKeep disk clock readers)
    (hle : ∀ kept ∈ fewer.idle, kept ∈ readers.idle) : AllKeep disk clock fewer :=
  fun kept hkept => h kept (hle kept hkept)

theorem AllKeep.filter (h : AllKeep disk clock readers) (p : ReaderKey × KeptReader → Bool) :
    AllKeep disk clock { readers with idle := readers.idle.filter p } :=
  h.mono fun _ => List.mem_of_mem_filter

/-- What `_take` takes: a reader of the version and member that serves the offset. -/
theorem AllKeep.take (h : AllKeep disk clock readers) :
    AllKeep disk clock (readers.take key now).2 ∧
      ∀ reader, (readers.take key now).1 = .ok (some reader) →
        reader.Serves key.offset ∧ ∃ old, ArchiveReaders.sameMember old key = true ∧
          Keeps disk clock old reader := by
  simp only [ArchiveReaders.take]
  have hpruned : AllKeep disk clock (readers.prune now) := h.filter _
  split
  · exact ⟨hpruned, nofun⟩
  have hfresh := hpruned.filter fun kept => !ArchiveReaders.stale kept.1 key
  split
  · rename_i found reader hfound
    refine ⟨hfresh.filter _, fun taken htaken => ?_⟩
    cases htaken
    have hkey : found = key := by simpa using List.find?_some hfound
    have hkeeps := hfresh _ (List.mem_of_find?_eq_some hfound)
    subst hkey
    refine ⟨⟨hkeeps.ok, hkeeps.bound, ?_, .inl (le_of_eq hkeeps.offset)⟩, found, ?_, hkeeps⟩
    · exact hkeeps.ok.start.trans (le_of_eq hkeeps.offset.symm)
    · simp [ArchiveReaders.sameMember]
  split
  · rename_i old reader hfound
    refine ⟨hfresh.filter _, fun taken htaken => ?_⟩
    cases htaken
    have hcandidate := List.find?_some hfound
    have hkeeps := hfresh _ (List.mem_reverse.1 (List.mem_of_find?_eq_some hfound))
    simp only [ArchiveReaders.candidate, Bool.and_eq_true, decide_eq_true_eq] at hcandidate
    obtain ⟨⟨hsame, hstart⟩, hbefore⟩ := hcandidate
    exact ⟨⟨hkeeps.ok, hkeeps.bound, hstart, .inl (hbefore.trans (le_of_eq hkeeps.offset))⟩,
      old, hsame, hkeeps⟩
  · exact ⟨hfresh, nofun⟩

theorem AllKeep.put (h : AllKeep disk clock readers) {reader : KeptReader}
    (hkeeps : Keeps disk clock key { reader with touched := now }) :
    AllKeep disk clock (readers.put key reader now) := by
  unfold ArchiveReaders.put
  split
  · exact h
  · intro kept hkept
    obtain hkept | hkept := List.mem_append.1 (List.mem_of_mem_drop hkept)
    · exact h kept (List.mem_of_mem_filter hkept)
    · rw [List.mem_singleton.1 hkept]
      exact hkeeps

/-- Every version there is has been given out. -/
def VersionsBelow (disk : Disk) (clock : Nat) : Prop :=
  ∀ path file, disk.archives path = some file → file.signature < clock

/-- A new reader serves every offset. -/
theorem KeptReader.serves_new (source : LogSource) (now offset : Nat) :
    KeptReader.Serves ⟨source, 0, now, [], 0⟩ offset where
  ok := ⟨Nat.le_refl _, rfl⟩
  bound := Nat.zero_le _
  start := Nat.zero_le _
  serves := .inr rfl

/-- A reader that serves the request gives what the file has, and is kept under its version. -/
theorem AllKeep.readWith {request : ReadRequest} (fault : Bool) (now : Nat)
    (h : AllKeep disk clock readers) (hbelow : VersionsBelow disk clock)
    (hpath : key.path = request.path) (hmember : key.member = request.member)
    (hversion : request.version disk = .ok key.version) (hserves : reader.Serves request.offset)
    (hopen : openLogSource disk request.path request.member true = .ok reader.source) :
    AllKeep disk clock (readers.readWith request key reader fault now).2 ∧
      (fault = false →
        (readers.readWith request key reader fault now).1 = plainRead disk request) ∧
      ∀ data, (readers.readWith request key reader fault now).1 = .ok data →
        plainRead disk request = .ok data := by
  obtain ⟨hdata, hafter⟩ := @KeptReader.Serves.read _ _ request.limit request.watermark hserves
  have hplain : plainRead disk request =
      .ok (reader.read request.offset request.limit request.watermark).1 := by
    unfold plainRead
    rw [hopen, hdata]
    rfl
  rw [hplain]
  unfold ArchiveReaders.readWith
  generalize reader.read request.offset request.limit request.watermark = result at hafter
  obtain ⟨data, after⟩ := result
  cases fault with
  | true => exact ⟨h, nofun, nofun⟩
  | false =>
    rw [if_neg Bool.false_ne_true]
    cases after with
    | none => exact ⟨h, fun _ => rfl, fun _ => id⟩
    | some after =>
      dsimp only
      split
      · rename_i hkeep
        refine ⟨h.put ?_, fun _ => rfl, fun _ => id⟩
        simp only [Bool.and_eq_true, decide_eq_true_eq] at hkeep
        obtain ⟨⟨harchive, -⟩, hne⟩ := hkeep
        obtain ⟨hsource, hok, hbound⟩ := hafter after rfl hne
        simp only [ReadRequest.version, harchive, if_true] at hversion
        simp only [openLogSource, harchive, if_true] at hopen
        split at hversion
        · cases hversion
        · rename_i file hfile
          have hkey : some file.signature = key.version := Except.ok.inj hversion
          refine ⟨⟨hok.start, hok.tail⟩, hsource ▸ hbound, rfl, hpath ▸ harchive,
            ⟨file.signature, hbelow _ file hfile, hkey.symm⟩, fun found hfound _ => ?_⟩
          show openArchive (some found) key.member true none = .ok after.source
          rw [← hfound, hmember, hsource]
          exact hpath ▸ hopen
      · exact ⟨h, fun _ => rfl, fun _ => id⟩

/-- A reader of the version the file is found in is one of the file's member. -/
theorem Keeps.opens {request : ReadRequest} {old : ReaderKey} (h : Keeps disk clock old reader)
    (hsame : ArchiveReaders.sameMember old key = true) (hpath : key.path = request.path)
    (hmember : key.member = request.member) (hversion : request.version disk = .ok key.version) :
    openLogSource disk request.path request.member true = .ok reader.source := by
  simp only [ArchiveReaders.sameMember, Bool.and_eq_true, decide_eq_true_eq] at hsame
  obtain ⟨⟨⟨-, hpaths⟩, hversions⟩, hmembers⟩ := hsame
  have harchive : isArchivePath request.path = true := by
    rw [← hpath, ← hpaths]
    exact h.archive
  simp only [ReadRequest.version, harchive, if_true] at hversion
  simp only [openLogSource, harchive, if_true]
  split at hversion
  · cases hversion
  · rename_i file hfile
    have hkey : some file.signature = key.version := Except.ok.inj hversion
    have hcurrent := h.current file (by rw [hpaths, hpath]; exact hfile) (hversions.trans hkey.symm)
    rw [hfile, ← hmember, ← hmembers]
    exact hcurrent

theorem take_error {error : SourceError} (h : (readers.take key now).1 = .error error) :
    readers.closed = true := by
  simp only [ArchiveReaders.take] at h
  split at h
  · rename_i hclosed
    exact hclosed
  · split at h
    · cases h
    · split at h <;> cases h

/-- A read gives what the file has, unless the cache is closed or the file cannot be read. -/
theorem AllKeep.read (request : ReadRequest) (fault : Bool) (now : Nat)
    (h : AllKeep disk clock readers)
    (hbelow : VersionsBelow disk clock) :
    AllKeep disk clock (readers.read disk request fault now).2 ∧
      (readers.closed = false → fault = false →
        (readers.read disk request fault now).1 = plainRead disk request) ∧
      ∀ data, (readers.read disk request fault now).1 = .ok data →
        plainRead disk request = .ok data := by
  unfold ArchiveReaders.read
  cases hversion : request.version disk with
  | error error =>
    refine ⟨h, fun _ _ => ?_, nofun⟩
    -- the archive is not there
    unfold ReadRequest.version at hversion
    split at hversion
    · rename_i harchive
      split at hversion
      · rename_i hnone
        cases hversion
        simp only [plainRead, openLogSource, harchive, if_true, hnone]
        rfl
      · cases hversion
    · cases hversion
  | ok version =>
    dsimp only
    generalize hkey : ReaderKey.mk request.identity request.path version request.member
      request.offset = key
    obtain ⟨hkept, htaken⟩ := @AllKeep.take _ _ key now _ h
    have hclosed := @take_error readers key now
    generalize readers.take key now = result at hkept htaken hclosed
    obtain ⟨taken, rest⟩ := result
    have hpath : key.path = request.path := hkey ▸ rfl
    have hmember : key.member = request.member := hkey ▸ rfl
    have hversion : request.version disk = .ok key.version := by rw [hversion, ← hkey]
    cases taken with
    | error error =>
      refine ⟨hkept, fun hopen => ?_, nofun⟩
      exact absurd (hclosed rfl) (by simp [hopen])
    | ok taken =>
      dsimp only
      unfold ArchiveReaders.readTaken
      cases taken with
      | some reader =>
        obtain ⟨hserves, old, hsame, hkeeps⟩ := htaken reader rfl
        have hserves : reader.Serves request.offset := by
          rw [← hkey] at hserves
          exact hserves
        have hread := hkept.readWith fault now hbelow hpath hmember hversion hserves
          (hkeeps.opens hsame hpath hmember hversion)
        exact ⟨hread.1, fun _ => hread.2.1, hread.2.2⟩
      | none =>
        dsimp only
        cases hopen : openLogSource disk request.path request.member true with
        | error error =>
          refine ⟨hkept, fun _ _ => ?_, nofun⟩
          unfold plainRead
          rw [hopen]
          rfl
        | ok source =>
          have hread := hkept.readWith fault now hbelow hpath hmember hversion
            (KeptReader.serves_new source now request.offset) hopen
          exact ⟨hread.1, fun _ => hread.2.1, hread.2.2⟩

/-! ## Every run -/

theorem ReadersInitial.keeps {state : ReadersState} (h : ReadersInitial state) :
    AllKeep state.disk state.clock state.readers ∧ VersionsBelow state.disk state.clock :=
  ⟨fun _ hkept => absurd (h.idle ▸ hkept) List.not_mem_nil, h.versions⟩

/-- Readers of a file are kept as long as the archives they are of do not become others. -/
theorem AllKeep.change {after : Disk} {later : Nat} (h : AllKeep disk clock readers)
    (hlater : clock ≤ later)
    (hchange : ∀ path file, after.archives path = some file →
      disk.archives path = some file ∨ clock ≤ file.signature) :
    AllKeep after later readers := by
  intro kept hkept
  have hkeeps := h kept hkept
  obtain ⟨version, hlt, hversion⟩ := hkeeps.version
  refine { hkeeps with version := ⟨version, hlt.trans_le hlater, hversion⟩, current := ?_ }
  intro file hfile hsame
  obtain hold | hnew := hchange _ file hfile
  · exact hkeeps.current file hold hsame
  · -- no reader is of a version that is given out later
    cases hversion.symm.trans hsame
    exact absurd hlt (Nat.not_lt_of_le hnew)

theorem ReadersStep.keeps {state after : ReadersState} (hstep : ReadersStep state after)
    (h : AllKeep state.disk state.clock state.readers ∧ VersionsBelow state.disk state.clock) :
    AllKeep after.disk after.clock after.readers ∧ VersionsBelow after.disk after.clock := by
  obtain ⟨act, rfl⟩ := hstep
  obtain ⟨hkeeps, hbelow⟩ := h
  cases act with
  | read request fault now => exact ⟨(hkeeps.read request fault now hbelow).1, hbelow⟩
  | replace path content =>
    have hcases : ∀ other file,
        Function.update state.disk.archives path (some ⟨content, state.clock⟩) other = some file →
        state.disk.archives other = some file ∨ file.signature = state.clock := by
      intro other file hfile
      by_cases hsame : other = path
      · subst hsame
        rw [Function.update_self] at hfile
        cases hfile
        exact .inr rfl
      · rw [Function.update_of_ne hsame] at hfile
        exact .inl hfile
    refine ⟨hkeeps.change (Nat.le_succ _) fun other file hfile => ?_, fun other file hfile => ?_⟩
    · exact (hcases other file hfile).imp_right fun hnew => le_of_eq hnew.symm
    · obtain hold | hnew := hcases other file hfile
      · exact (hbelow other file hold).trans (Nat.lt_succ_self _)
      · exact hnew ▸ Nat.lt_succ_self _
  | remove path =>
    have hold : ∀ other file, Function.update state.disk.archives path none other = some file →
        state.disk.archives other = some file := by
      intro other file hfile
      by_cases hsame : other = path
      · subst hsame
        rw [Function.update_self] at hfile
        cases hfile
      · rwa [Function.update_of_ne hsame] at hfile
    exact ⟨hkeeps.change (Nat.le_refl _) fun other file hfile => .inl (hold other file hfile),
      fun other file hfile => hbelow other file (hold other file hfile)⟩
  | raw path content => exact ⟨hkeeps.change (Nat.le_refl _) fun _ _ => .inl, hbelow⟩
  | publish path published => exact ⟨hkeeps.change (Nat.le_refl _) fun _ _ => .inl, hbelow⟩
  | prune now => exact ⟨hkeeps.filter _, hbelow⟩
  | evict key => exact ⟨hkeeps.filter _, hbelow⟩
  | close => exact ⟨fun kept hkept => (nomatch hkept), hbelow⟩

/-- After any reads, evictions and replacements a read gives what a read of the file as it is
gives, or an error; and an error of its own only when the cache has been closed or the file it
has open cannot be read. -/
theorem read_plain (state : ReadersState) (h : Reachable ReadersInitial ReadersStep state)
    (request : ReadRequest) (fault : Bool) (now : Nat) :
    (∀ data, (state.readers.read state.disk request fault now).1 = .ok data →
      plainRead state.disk request = .ok data) ∧
    (state.readers.closed = false → fault = false →
      (state.readers.read state.disk request fault now).1 = plainRead state.disk request) := by
  have hkeeps : AllKeep state.disk state.clock state.readers ∧
      VersionsBelow state.disk state.clock :=
    Reachable.invariant (I := fun state => AllKeep state.disk state.clock state.readers ∧
      VersionsBelow state.disk state.clock) (fun _ => ReadersInitial.keeps)
      (fun _ _ => ReadersStep.keeps) h
  obtain ⟨-, hsame, hdata⟩ := hkeeps.1.read request fault now hkeeps.2
  exact ⟨hdata, hsame⟩

def sixBytes : List TarMember := [⟨"part.log", true, [1, 2, 3, 4, 5, 6]⟩]

/-- One archive, and nothing kept. -/
def readersStart : ReadersState where
  disk := {
    raw := fun _ => none
    archives := fun path => if path = "h.tar.gz" then some ⟨some sixBytes, 0⟩ else none
    published := fun _ => none }
  clock := 1
  readers := { capacity := 128, idleSeconds := 30, idle := [], closed := false }

theorem readersStart_initial : ReadersInitial readersStart where
  idle := rfl
  versions := by
    intro path file hfile
    simp only [readersStart] at hfile
    split at hfile
    · cases hfile
      decide
    · cases hfile

def readPart (offset : Nat) : ReadRequest := ⟨"file", "h.tar.gz", some "part.log", offset, 2, some 5⟩

/-- A reader is kept after two reads, and goes on where the second one ended. -/
theorem read_plain_kept : ∃ state, Reachable ReadersInitial ReadersStep state ∧
    state.readers.idle.map (fun kept => (kept.1.offset, kept.2.tail)) = [(4, [1, 2, 3, 4])] ∧
    (state.readers.read state.disk (readPart 3) false 2).1 = .ok [4, 5] ∧
    (state.readers.read state.disk (readPart 3) false 2).1 = plainRead state.disk (readPart 3) := by
  have hone : Reachable ReadersInitial ReadersStep readersStart := .initial readersStart_initial
  have htwo := (hone.tail ⟨.read (readPart 0) false 0, rfl⟩).tail ⟨.read (readPart 2) false 1, rfl⟩
  exact ⟨_, htwo, by decide +kernel, by decide +kernel, (read_plain _ htwo (readPart 3) false 2).2
    (by decide +kernel) rfl⟩

end CameraLogs.Logs
