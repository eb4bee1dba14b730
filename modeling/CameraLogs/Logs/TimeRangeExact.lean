import CameraLogs.Logs.TimeRange

/-!
# A time range is read exactly

The rows a scan accepts are blocks that follow one another from the start of the file. Each
of them is yielded whole, as far as the file goes, or not at all (`BlockPieces`); the scan
goes on until a block reaches beyond the watermark, a row is refused, or the rows are at an
end (`ScanEnd`). A row at the watermark is still looked at, as its check comes before the
read that finds the end.
-/

namespace CameraLogs.Logs

variable {range : TimeRangeScan} {stream : ByteStream} {fileId : String}
  {cancelled : Nat → Bool}

/-! ## Reads -/

theorem ByteStream.read_eq_nil (position : Nat) {requested : Nat} (hpos : 0 < requested) :
    stream.read position requested = [] ↔ stream.content.length ≤ position := by
  have := stream.granted_pos position requested hpos
  rw [ByteStream.read, List.take_eq_nil_iff, List.drop_eq_nil_iff]
  omega

theorem ByteStream.length_read_le (stream : ByteStream) (position requested : Nat) :
    (stream.read position requested).length ≤ requested ∧
      (stream.read position requested).length ≤ stream.content.length - position := by
  have := stream.granted_le position requested
  rw [ByteStream.read, List.length_take, List.length_drop]
  omega

/-- What is read, and then what follows it, are the bytes in their order. -/
theorem ByteStream.read_append (position : Nat) {requested remaining : Nat}
    (hle : requested ≤ remaining) :
    stream.read position requested ++
        (stream.content.drop (position + (stream.read position requested).length)).take
          (remaining - (stream.read position requested).length) =
      (stream.content.drop position).take remaining := by
  have hgranted := stream.granted_le position requested
  generalize hread : stream.read position requested = data
  have hfront : data <+: (stream.content.drop position).take remaining := by
    rw [← hread, ByteStream.read]
    have htake := List.take_prefix (stream.granted position requested)
      ((stream.content.drop position).take remaining)
    rwa [List.take_take, Nat.min_eq_left (hgranted.trans hle)] at htake
  have hdata := List.prefix_iff_eq_take.mp hfront
  have hrest : (stream.content.drop (position + data.length)).take (remaining - data.length) =
      ((stream.content.drop position).take remaining).drop data.length := by
    rw [List.drop_take, List.drop_drop]
  rw [hrest]
  nth_rewrite 1 [hdata]
  exact List.take_append_drop _ _

/-! ## Blocks -/

/-- A row that is accepted where it starts. -/
structure TimeBlock where
  offset : Nat
  length : Nat
  stamp : Instant

def TimeBlock.line (block : TimeBlock) : TimeIndexLine :=
  .row block.offset block.length (.zoned block.stamp)

/-- The blocks follow one another from a position on. -/
def Contiguous : Nat → List TimeBlock → Prop
  | _, [] => True
  | position, block :: blocks =>
    block.offset = position ∧ Contiguous (position + block.length) blocks

def totalLength (blocks : List TimeBlock) : Nat := (blocks.map (·.length)).sum

theorem checkLine_line {block : TimeBlock} :
    checkLine block.offset block.line = .ok (block.length, block.stamp) := by
  have hlength : ¬ ((block.length : Int) < 0) := by omega
  simp [checkLine, TimeBlock.line, hlength]

theorem checkLine_ok {position length : Nat} {stamp : Instant} {line : TimeIndexLine}
    (h : checkLine position line = .ok (length, stamp)) :
    line = TimeBlock.line ⟨position, length, stamp⟩ := by
  cases line with
  | raises error => cases h
  | row offset rowLength receivedAt =>
    simp only [checkLine] at h
    split at h
    · cases h
    · rename_i hrow
      cases receivedAt with
      | naive => cases h
      | unparsable => cases h
      | zoned rowStamp =>
        cases h
        obtain ⟨hoffset, hlength⟩ := not_or.mp hrow
        simp only [TimeBlock.line, TimeIndexLine.row.injEq, and_true]
        omega

/-- The row is refused with a `ValueError`, or the index raises one in its place. -/
def Refused (position : Nat) : TimeIndexLine → Prop
  | .raises error => ∃ text, error = .valueError text
  | .row offset length receivedAt =>
    offset ≠ position ∨ length < 0 ∨ ∀ stamp, receivedAt ≠ .zoned stamp

theorem refused_iff {position : Nat} {line : TimeIndexLine} :
    Refused position line ↔ ∃ text, checkLine position line = .error (.valueError text) := by
  cases line with
  | raises error => simp [Refused, checkLine]
  | row offset length receivedAt =>
    simp only [Refused, checkLine]
    split
    · rename_i hrow
      exact ⟨fun _ => ⟨_, rfl⟩, fun _ => or_assoc.mp (.inl hrow)⟩
    · rename_i hrow
      obtain ⟨hoffset, hlength⟩ := not_or.mp hrow
      cases receivedAt with
      | zoned stamp => simp [hoffset, hlength]
      | naive => simp
      | unparsable => simp

/-! ## The pieces of a block -/

/-- The pieces stand one after the other from a position on. -/
def Placed : Nat → List TimePiece → Prop
  | _, [] => True
  | position, piece :: pieces =>
    piece.offset = position ∧ Placed (position + piece.data.length) pieces

/-- What is yielded of a block: its bytes below the watermark, in pieces, or nothing. -/
structure BlockPieces (range : TimeRangeScan) (stream : ByteStream) (fileId : String)
    (block : TimeBlock) (pieces : List TimePiece) : Prop where
  skipped : range.accepts block.stamp = false → pieces = []
  bytes : range.accepts block.stamp = true → pieces.flatMap (·.data) =
    (stream.content.drop block.offset).take block.length
  placed : Placed block.offset pieces
  pieces : ∀ piece ∈ pieces, piece.fileId = fileId ∧ piece.receivedAt = block.stamp ∧
    piece.length = piece.data.length ∧ 1 ≤ piece.length ∧ piece.length ≤ maxPieceBytes

/-- A piece in front of the pieces of the rest of the block. -/
theorem BlockPieces.cons {position remaining : Nat} {stamp : Instant} {data : Bytes}
    {rest : List TimePiece} (hpos : data ≠ []) (hle : data.length ≤ maxPieceBytes)
    (hbytes : data ++ (stream.content.drop (position + data.length)).take
      (remaining - data.length) = (stream.content.drop position).take remaining)
    (h : BlockPieces range stream fileId
      ⟨position + data.length, remaining - data.length, stamp⟩ rest) :
    BlockPieces range stream fileId ⟨position, remaining, stamp⟩
      (range.piece fileId stamp position data ++ rest) := by
  cases haccepts : range.accepts stamp with
  | false =>
    rw [TimeRangeScan.piece, haccepts, if_neg Bool.false_ne_true, List.nil_append,
      h.skipped haccepts]
    exact ⟨fun _ => rfl, fun hyes => absurd (haccepts.symm.trans hyes) Bool.false_ne_true,
      trivial, nofun⟩
  | true =>
    rw [TimeRangeScan.piece, haccepts, if_pos rfl, List.singleton_append]
    refine ⟨fun hno => absurd (hno.symm.trans haccepts) Bool.false_ne_true, fun _ => ?_,
      ⟨rfl, h.placed⟩, ?_⟩
    · rw [List.flatMap_cons, h.bytes haccepts]
      exact hbytes
    · intro piece hpiece
      obtain rfl | hrest := List.mem_cons.mp hpiece
      · exact ⟨rfl, rfl, rfl, List.length_pos_of_ne_nil hpos, hle⟩
      · exact h.pieces piece hrest

theorem BlockPieces.nil {position remaining : Nat} {stamp : Instant}
    (hnone : (stream.content.drop position).take remaining = []) :
    BlockPieces range stream fileId ⟨position, remaining, stamp⟩ [] :=
  ⟨fun _ => rfl, fun _ => hnone.symm, trivial, nofun⟩

/-- Where the loop over a block ends: behind it, or at the watermark inside it. -/
def blockEndOf (stream : ByteStream) (position length : Nat) : BlockEnd :=
  if position + length ≤ stream.content.length then .advanced (position + length) else .watermark

theorem scanBlock_exact {rounds position remaining : Nat} {stamp : Instant}
    (hrounds : remaining ≤ rounds) (hposition : position ≤ stream.content.length) :
    BlockPieces range stream fileId ⟨position, remaining, stamp⟩
      (range.scanBlock stream fileId (fun _ => false) stamp rounds position remaining).1 ∧
    (range.scanBlock stream fileId (fun _ => false) stamp rounds position remaining).2 =
      blockEndOf stream position remaining := by
  induction rounds generalizing position remaining with
  | zero =>
    have hzero : remaining = 0 := Nat.le_zero.mp hrounds
    subst hzero
    exact ⟨.nil List.take_zero, by simp [TimeRangeScan.scanBlock, blockEndOf, hposition]⟩
  | succ rounds ih =>
    simp only [TimeRangeScan.scanBlock, Bool.false_eq_true, if_false]
    by_cases hzero : remaining = 0
    · subst hzero
      rw [if_pos rfl]
      exact ⟨.nil List.take_zero, by simp [blockEndOf, hposition]⟩
    · have hrequest : 0 < min maxPieceBytes remaining := by
        rw [maxPieceBytes]
        omega
      have ⟨hrequested, hleft⟩ := stream.length_read_le position (min maxPieceBytes remaining)
      have hbytes := stream.read_append position (Nat.min_le_right maxPieceBytes remaining)
      have hnil := stream.read_eq_nil position hrequest
      generalize stream.read position (min maxPieceBytes remaining) = data at *
      rw [if_neg hzero]
      by_cases hend : data = []
      · have hpast := hnil.mp hend
        rw [if_pos hend]
        refine ⟨.nil (by rw [List.drop_eq_nil_of_le hpast, List.take_nil]), ?_⟩
        rw [blockEndOf, if_neg (by omega)]
      · have hdata := List.length_pos_of_ne_nil hend
        have ⟨hpieces, hblockEnd⟩ :=
          @ih (position + data.length) (remaining - data.length) (by omega) (by omega)
        rw [if_neg hend]
        refine ⟨.cons hend (hrequested.trans (Nat.min_le_left _ _)) hbytes hpieces, ?_⟩
        rw [hblockEnd, blockEndOf, blockEndOf]
        have hsame : position + data.length + (remaining - data.length) = position + remaining := by
          omega
        rw [hsame]

/-! ## The scan -/

/-- A scan that is not cancelled. -/
def TimeRangeScan.scanAll (range : TimeRangeScan) (stream : ByteStream) (fileId : String) :
    Nat → List TimeIndexLine → List TimePiece × Option ScanError :=
  range.scanFrom stream fileId fun _ => false

/-- How a scan ends that has come to a position, with these rows left. -/
inductive ScanEnd (size position : Nat) : List TimeIndexLine → Option ScanError → Prop
  /-- The last block reaches beyond the watermark: the rows behind it are not looked at. -/
  | watermark (lines : List TimeIndexLine) (hpast : size < position) :
    ScanEnd size position lines none
  | refused {line : TimeIndexLine} {lines : List TimeIndexLine} {error : ScanError}
    (hposition : position ≤ size) (hcheck : checkLine position line = .error error) :
    ScanEnd size position (line :: lines) (some error)
  | complete (hposition : position = size) : ScanEnd size position [] none
  | unindexed (hposition : position < size) :
    ScanEnd size position [] (some (.valueError "时间查询缺少完整接收时间索引"))

/-- What is yielded of a block in a scan that is not cancelled. -/
def blockPieces (range : TimeRangeScan) (stream : ByteStream) (fileId : String)
    (block : TimeBlock) : List TimePiece :=
  (range.scanBlock stream fileId (fun _ => false) block.stamp block.length block.offset
    block.length).1

theorem blockPieces_exact {block : TimeBlock} (hoffset : block.offset ≤ stream.content.length) :
    BlockPieces range stream fileId block (blockPieces range stream fileId block) :=
  (scanBlock_exact (Nat.le_refl _) hoffset).1

/-- A row that is accepted: its pieces, and the rest of the scan unless it reaches beyond the
watermark. -/
theorem scanAll_block {block : TimeBlock} (lines : List TimeIndexLine)
    (hposition : block.offset ≤ stream.content.length) :
    range.scanAll stream fileId block.offset (block.line :: lines) =
      if block.offset + block.length ≤ stream.content.length then
        (blockPieces range stream fileId block ++
          (range.scanAll stream fileId (block.offset + block.length) lines).1,
          (range.scanAll stream fileId (block.offset + block.length) lines).2)
      else (blockPieces range stream fileId block, none) := by
  have ⟨_, hend⟩ := @scanBlock_exact range stream fileId block.length block.offset
    block.length block.stamp (Nat.le_refl _) hposition
  simp only [TimeRangeScan.scanAll, TimeRangeScan.scanFrom, checkLine_line, blockPieces]
  generalize range.scanBlock stream fileId (fun _ => false) block.stamp block.length block.offset
    block.length = out at *
  obtain ⟨pieces, blockEnd⟩ := out
  simp only [blockEndOf] at hend
  by_cases hwithin : block.offset + block.length ≤ stream.content.length
  · rw [if_pos hwithin] at hend
    subst hend
    exact (if_pos hwithin).symm
  · rw [if_neg hwithin] at hend
    subst hend
    exact (if_neg hwithin).symm

theorem scanAll_error {position : Nat} {line : TimeIndexLine} {lines : List TimeIndexLine}
    {error : ScanError} (h : checkLine position line = .error error) :
    range.scanAll stream fileId position (line :: lines) = ([], some error) := by
  simp [TimeRangeScan.scanAll, TimeRangeScan.scanFrom, h]

theorem scanAll_nil {position : Nat} :
    range.scanAll stream fileId position [] =
      if stream.content.length ≤ position then ([], none)
      else ([], some (.valueError "时间查询缺少完整接收时间索引")) := by
  simp only [TimeRangeScan.scanAll, TimeRangeScan.scanFrom,
    stream.read_eq_nil position Nat.one_pos]

/-- From a position on, the scan yields the blocks that it accepts and then ends. -/
theorem scanAll_exact {position : Nat} {index : List TimeIndexLine}
    (hposition : position ≤ stream.content.length) :
    ∃ blocks groups rest, index = blocks.map TimeBlock.line ++ rest ∧
      Contiguous position blocks ∧ (∀ block ∈ blocks, block.offset ≤ stream.content.length) ∧
      List.Forall₂ (BlockPieces range stream fileId) blocks groups ∧
      (range.scanAll stream fileId position index).1 = groups.flatten ∧
      ScanEnd stream.content.length (position + totalLength blocks) rest
        (range.scanAll stream fileId position index).2 := by
  induction index generalizing position with
  | nil =>
    refine ⟨[], [], [], rfl, trivial, nofun, .nil, ?_⟩
    rw [scanAll_nil, totalLength, List.map_nil, List.sum_nil, Nat.add_zero]
    split
    · exact ⟨rfl, .complete (by omega)⟩
    · exact ⟨rfl, .unindexed (by omega)⟩
  | cons line lines ih =>
    cases hcheck : checkLine position line with
    | error error =>
      refine ⟨[], [], line :: lines, rfl, trivial, nofun, .nil, ?_⟩
      rw [scanAll_error hcheck]
      exact ⟨rfl, .refused hposition hcheck⟩
    | ok row =>
      obtain ⟨length, stamp⟩ := row
      obtain rfl := checkLine_ok hcheck
      have hpieces : BlockPieces range stream fileId ⟨position, length, stamp⟩ _ :=
        blockPieces_exact hposition
      have hscan := @scanAll_block range stream fileId ⟨position, length, stamp⟩ lines hposition
      rw [hscan]
      by_cases hwithin : position + length ≤ stream.content.length
      · -- the block ends at or before the watermark, and the scan goes on behind it
        obtain ⟨blocks, groups, rest, rfl, hcontiguous, hoffsets, hgroups, hall, hend⟩ := ih hwithin
        refine ⟨⟨position, length, stamp⟩ :: blocks, _ :: groups, rest, rfl,
          ⟨rfl, hcontiguous⟩, ?_, .cons hpieces hgroups, ?_, ?_⟩
        · intro block hblock
          obtain rfl | hrest := List.mem_cons.mp hblock
          · exact hposition
          · exact hoffsets block hrest
        · rw [if_pos hwithin, List.flatten_cons, ← hall]
        · rw [if_pos hwithin]
          have htotal : position + totalLength (⟨position, length, stamp⟩ :: blocks) =
              position + length + totalLength blocks := by
            simp only [totalLength, List.map_cons, List.sum_cons]
            omega
          rw [htotal]
          exact hend
      · refine ⟨[⟨position, length, stamp⟩], [_], lines, rfl, ⟨rfl, trivial⟩, ?_,
          .cons hpieces .nil, ?_, ?_⟩
        · intro block hblock
          rw [List.mem_singleton.mp hblock]
          exact hposition
        · rw [if_neg hwithin]
          simp
        · rw [if_neg hwithin]
          refine .watermark lines ?_
          simp only [totalLength, List.map_cons, List.map_nil, List.sum_cons, List.sum_nil]
          omega

/-- Behind blocks that end at or before the watermark the scan stands where they end. -/
theorem scanAll_append_error {position : Nat} {blocks : List TimeBlock} {rest : List TimeIndexLine}
    (hcontiguous : Contiguous position blocks)
    (hwithin : position + totalLength blocks ≤ stream.content.length) :
    (range.scanAll stream fileId position (blocks.map TimeBlock.line ++ rest)).2 =
      (range.scanAll stream fileId (position + totalLength blocks) rest).2 := by
  induction blocks generalizing position with
  | nil => rfl
  | cons block blocks ih =>
    have htotal : position + totalLength (block :: blocks) =
        position + block.length + totalLength blocks := by
      simp only [totalLength, List.map_cons, List.sum_cons]
      omega
    obtain ⟨rfl, hrest⟩ := hcontiguous
    rw [htotal] at hwithin ⊢
    rw [List.map_cons, List.cons_append, scanAll_block _ (by omega), if_pos (by omega)]
    exact ih hrest hwithin

/-- Behind blocks that reach beyond the watermark the rows are not looked at. -/
theorem scanAll_beyond {position : Nat} {blocks : List TimeBlock} (rest : List TimeIndexLine)
    (hcontiguous : Contiguous position blocks) (hposition : position ≤ stream.content.length)
    (hbeyond : stream.content.length < position + totalLength blocks) :
    range.scanAll stream fileId position (blocks.map TimeBlock.line ++ rest) =
      range.scanAll stream fileId position (blocks.map TimeBlock.line) := by
  induction blocks generalizing position with
  | nil =>
    simp only [totalLength, List.map_nil, List.sum_nil] at hbeyond
    omega
  | cons block blocks ih =>
    have htotal : position + totalLength (block :: blocks) =
        position + block.length + totalLength blocks := by
      simp only [totalLength, List.map_cons, List.sum_cons]
      omega
    obtain ⟨rfl, hrest⟩ := hcontiguous
    rw [htotal] at hbeyond
    rw [List.map_cons, List.cons_append, scanAll_block _ hposition, scanAll_block _ hposition]
    by_cases hwithin : block.offset + block.length ≤ stream.content.length
    · rw [if_pos hwithin, if_pos hwithin, ih hrest hwithin hbeyond]
    · rw [if_neg hwithin, if_neg hwithin]

/-- A `ValueError` comes of a row refused where the blocks before it end at or before the
watermark, or of bytes behind the last row. -/
theorem scanAll_valueError {index : List TimeIndexLine} :
    (∃ text, (range.scanAll stream fileId 0 index).2 = some (.valueError text)) ↔
      (∃ blocks line lines, index = blocks.map TimeBlock.line ++ line :: lines ∧
        Contiguous 0 blocks ∧ totalLength blocks ≤ stream.content.length ∧
        Refused (totalLength blocks) line) ∨
      ∃ blocks, index = blocks.map TimeBlock.line ∧ Contiguous 0 blocks ∧
        totalLength blocks < stream.content.length := by
  constructor
  · intro ⟨text, herror⟩
    obtain ⟨blocks, _, rest, rfl, hcontiguous, -, -, -, hend⟩ :=
      @scanAll_exact range stream fileId 0 index (Nat.zero_le _)
    rw [herror, Nat.zero_add] at hend
    cases hend with
    | refused hposition hcheck =>
      exact .inl ⟨blocks, _, _, rfl, hcontiguous, hposition, refused_iff.mpr ⟨text, hcheck⟩⟩
    | unindexed hposition => exact .inr ⟨blocks, List.append_nil _, hcontiguous, hposition⟩
  · intro h
    obtain ⟨blocks, line, lines, rfl, hcontiguous, hwithin, hrefused⟩ |
      ⟨blocks, rfl, hcontiguous, hleft⟩ := h
    · obtain ⟨text, hcheck⟩ := refused_iff.mp hrefused
      refine ⟨text, ?_⟩
      rw [scanAll_append_error hcontiguous (by omega), Nat.zero_add, scanAll_error hcheck]
    · refine ⟨"时间查询缺少完整接收时间索引", ?_⟩
      have hscan := @scanAll_append_error range stream fileId 0 blocks [] hcontiguous (by omega)
      rw [List.append_nil] at hscan
      rw [hscan, Nat.zero_add, scanAll_nil, if_neg (by omega)]

/-! ## Cancellation -/

/-- A cancelled loop over a block has yielded a first part of the block's pieces. -/
theorem scanBlock_cancelled {stamp : Instant} {rounds position remaining : Nat} :
    ((range.scanBlock stream fileId cancelled stamp rounds position remaining).2 = .cancelled ∧
      (range.scanBlock stream fileId cancelled stamp rounds position remaining).1 <+:
        (range.scanBlock stream fileId (fun _ => false) stamp rounds position remaining).1) ∨
    range.scanBlock stream fileId cancelled stamp rounds position remaining =
      range.scanBlock stream fileId (fun _ => false) stamp rounds position remaining := by
  induction rounds generalizing position remaining with
  | zero => exact .inr rfl
  | succ rounds ih =>
    simp only [TimeRangeScan.scanBlock, Bool.false_eq_true, if_false]
    by_cases hzero : remaining = 0
    · rw [if_pos hzero, if_pos hzero]
      exact .inr rfl
    · rw [if_neg hzero, if_neg hzero]
      cases cancelled position with
      | true => exact .inl ⟨rfl, List.nil_prefix⟩
      | false =>
        rw [if_neg Bool.false_ne_true]
        split
        · exact .inr rfl
        · obtain ⟨hend, hfront⟩ | hsame := @ih
            (position + (stream.read position (min maxPieceBytes remaining)).length)
            (remaining - (stream.read position (min maxPieceBytes remaining)).length)
          · exact .inl ⟨hend, (List.prefix_append_right_inj _).mpr hfront⟩
          · rw [hsame]
            exact .inr rfl

theorem scanFrom_cancelled {position : Nat} {index : List TimeIndexLine} :
    ((range.scanFrom stream fileId cancelled position index).2 = some .interrupted ∧
      (range.scanFrom stream fileId cancelled position index).1 <+:
        (range.scanAll stream fileId position index).1) ∨
    range.scanFrom stream fileId cancelled position index =
      range.scanAll stream fileId position index := by
  induction index generalizing position with
  | nil => exact .inr rfl
  | cons line lines ih =>
    simp only [TimeRangeScan.scanAll, TimeRangeScan.scanFrom]
    cases checkLine position line with
    | error error => exact .inr rfl
    | ok row =>
      obtain ⟨length, stamp⟩ := row
      have hblock := @scanBlock_cancelled range stream fileId cancelled stamp length position length
      simp only
      generalize range.scanBlock stream fileId cancelled stamp length position length = out at *
      generalize range.scanBlock stream fileId (fun _ => false) stamp length position length =
        whole at *
      obtain ⟨pieces, blockEnd⟩ := out
      obtain ⟨all, wholeEnd⟩ := whole
      obtain ⟨hend, hfront⟩ | hsame := hblock
      · simp only at hend hfront
        subst hend
        refine .inl ⟨rfl, ?_⟩
        cases wholeEnd with
        | advanced => exact hfront.trans (List.prefix_append _ _)
        | watermark | cancelled => exact hfront
      · cases hsame
        cases blockEnd with
        | watermark | cancelled => exact .inr rfl
        | advanced position =>
          obtain ⟨hend, hfront⟩ | hsame := @ih position
          · exact .inl ⟨hend, (List.prefix_append_right_inj _).mpr hfront⟩
          · simp only [hsame]
            exact .inr rfl

/-- A scan yields the bytes of the file whose block was received in the window, block by
block, in pieces of 1 to 4096 bytes at their offsets; it raises a `ValueError` exactly when a
row is refused where the blocks before it end at or before the watermark, or bytes are left
behind the last row; and rows behind a block that reaches beyond the watermark are ignored.
A cancelled scan has yielded a first part of this. -/
theorem timeRange_exact (range : TimeRangeScan) (stream : ByteStream) (fileId : String)
    (index : List TimeIndexLine) :
    (∃ blocks groups rest, index = blocks.map TimeBlock.line ++ rest ∧ Contiguous 0 blocks ∧
      (∀ block ∈ blocks, block.offset ≤ stream.content.length) ∧
      List.Forall₂ (BlockPieces range stream fileId) blocks groups ∧
      (range.scan stream fileId (fun _ => false) index).1 = groups.flatten ∧
      ScanEnd stream.content.length (totalLength blocks) rest
        (range.scan stream fileId (fun _ => false) index).2) ∧
    ((∃ text, (range.scan stream fileId (fun _ => false) index).2 = some (.valueError text)) ↔
      (∃ blocks line lines, index = blocks.map TimeBlock.line ++ line :: lines ∧
        Contiguous 0 blocks ∧ totalLength blocks ≤ stream.content.length ∧
        Refused (totalLength blocks) line) ∨
      ∃ blocks, index = blocks.map TimeBlock.line ∧ Contiguous 0 blocks ∧
        totalLength blocks < stream.content.length) ∧
    (∀ blocks rest, Contiguous 0 blocks → stream.content.length < totalLength blocks →
      range.scan stream fileId (fun _ => false) (blocks.map TimeBlock.line ++ rest) =
        range.scan stream fileId (fun _ => false) (blocks.map TimeBlock.line)) ∧
    ∀ cancelled : Nat → Bool,
      ((range.scan stream fileId cancelled index).2 = some .interrupted ∧
        (range.scan stream fileId cancelled index).1 <+:
          (range.scan stream fileId (fun _ => false) index).1) ∨
      range.scan stream fileId cancelled index = range.scan stream fileId (fun _ => false) index := by
  refine ⟨?_, scanAll_valueError, fun blocks rest hcontiguous hbeyond => ?_,
    fun _ => scanFrom_cancelled⟩
  · obtain ⟨blocks, groups, rest, hindex, hcontiguous, hoffsets, hgroups, hall, hend⟩ :=
      @scanAll_exact range stream fileId 0 index (Nat.zero_le _)
    rw [Nat.zero_add] at hend
    exact ⟨blocks, groups, rest, hindex, hcontiguous, hoffsets, hgroups, hall, hend⟩
  · exact scanAll_beyond rest hcontiguous (Nat.zero_le _) (by omega)

/-- A file of ten bytes whose reads return all that is asked for. -/
def tenBytes : ByteStream where
  content := List.replicate 10 0x61
  granted := fun _ requested => requested
  granted_pos := fun _ _ h => h
  granted_le := fun _ _ => Nat.le_refl _

/-- A row that lies beyond the watermark is refused where it is the first one there. -/
theorem row_at_watermark_refused :
    let range : TimeRangeScan := ⟨0, 9⟩
    (range.scan tenBytes "file" (fun _ => false)
      [.row 0 10 (.zoned 5), .row 12 5 (.zoned 5)]).2 = some (.valueError "时间查询索引不连续") ∧
    (range.scan tenBytes "file" (fun _ => false) [.row 0 10 (.zoned 5)]).2 = none ∧
    tenBytes.content.length ≤ 12 := by
  decide +kernel

end CameraLogs.Logs
