import CameraLogs.Lib.CursorText
import CameraLogs.Logs.FileOrder

/-!
# The catalogued bytes of a gap

Where a live view has lost bytes, the catalog knows which files they are in: the files from the
one before the gap to the one after it, in the order of the catalog. The first page freezes this
list of fragments in its cursor, which is signed, and later pages are taken from there.

The signature is the platform's: `hmac` of a key and a text.
-/

namespace CameraLogs.Logs

open Lib

/-- What the gap catalog reads of a file's document; `bytes` is none where it is no integer. -/
structure GapFile where
  document : FileDocument
  status : Option String
  bytes : Option Int
  deriving DecidableEq

/-- An end of a gap. -/
structure GapAnchor where
  fileId : String
  offset : Nat
  sessionId : String
  deriving DecidableEq

/-- The bytes of a file from `start` to before `stop`. -/
structure GapFragment where
  fileId : String
  sessionId : Option String
  start : Nat
  stop : Nat
  deriving DecidableEq

structure GapPage where
  items : List Json
  nextCursor : Option (List Char)
  unrecoverable : Json

/-- A refused request, of status 422. -/
structure Unprocessable where
  detail : String
  deriving DecidableEq

/-! ## Dictionaries, their keys in order -/

def jsonString (text : String) : Json := .str text.toList

/-- `_anchor_key` -/
def anchorKey (anchor : GapAnchor) : Json :=
  .obj [("fileId".toList, jsonString anchor.fileId), ("offset".toList, .int anchor.offset),
    ("sessionId".toList, jsonString anchor.sessionId)]

def anchorsJson (before after : GapAnchor) : Json :=
  .obj [("after".toList, anchorKey after), ("before".toList, anchorKey before)]

def GapFragment.json (fragment : GapFragment) : Json :=
  .obj [("end".toList, .int fragment.stop), ("fileId".toList, jsonString fragment.fileId),
    ("sessionId".toList, fragment.sessionId.elim .null jsonString),
    ("start".toList, .int fragment.start)]

def issueJson (reason message : String) : Json :=
  .obj [("message".toList, jsonString message), ("reason".toList, jsonString reason)]

def unavailableFile (id : String) : Json :=
  issueJson "FILE_UNAVAILABLE" ("文件 " ++ id ++ " 已删除或缺少可靠字节水位，无法补读。")

def cursorValue (anchors : Json) (position : Nat) (snapshot : List Json) (unrecoverable : Json) :
    Json :=
  .obj [("anchors".toList, anchors), ("position".toList, .int position),
    ("snapshot".toList, .arr snapshot), ("unrecoverable".toList, unrecoverable)]

/-! ## Cursors -/

@[irreducible] def maxCursorLength : Nat := 262144

variable (hmac : List UInt8 → List UInt8 → List Char) (signingKey : List UInt8)

/-- `_encode_cursor` -/
def encodeGapCursor (value : Json) : List Char :=
  encodeText value ++ '.' :: hmac signingKey (encodeUtf8 (encodeText value))

/-- An integer; a truth value is one too. -/
def jsonInt : Json → Option Int
  | .int value => some value
  | .bool value => some (if value then 1 else 0)
  | _ => none

/-- `value.split(".", 1)` into two. -/
def splitDot (value : List Char) : Option (List Char × List Char) :=
  match value.dropWhile (· ≠ '.') with
  | [] => none
  | _ :: signature => some (value.takeWhile (· ≠ '.'), signature)

/-- The payload and the signature of a cursor that is not too long. -/
def gapCursorParts (value : List Char) : Option (List Char × List Char) :=
  if maxCursorLength < value.length then none else splitDot value

def invalidGapCursor : Unprocessable := ⟨"缺口目录游标无效"⟩

/-- `_cursor`: the value of a cursor; the first request has none. -/
def readGapCursor (value : Option (List Char)) : Except Unprocessable (Option Json) :=
  match value.filter (· ≠ []) with
  | none => .ok none
  | some value =>
    let result : Option Json := do
      let (payload, signature) ← gapCursorParts value
      if signature = hmac signingKey (encodeUtf8 payload) then
        (decodeText payload).filter fun result => ((result.get "position".toList).bind jsonInt).isSome
      else none
    match result with
    | none => .error invalidGapCursor
    | some result => .ok (some result)

/-- An item of a snapshot names a file and bytes of it. -/
def isFragment (item : Json) : Bool :=
  let start := (item.get "start".toList).bind jsonInt
  let stop := (item.get "end".toList).bind jsonInt
  (match item.get "fileId".toList with
    | some (.str _) => true
    | _ => false) &&
    start.any fun start => stop.any fun stop => 0 ≤ start && start < stop

def otherAnchors : Unprocessable := ⟨"缺口目录游标与当前锚点不匹配"⟩

def invalidPosition : Unprocessable := ⟨"缺口目录游标位置无效"⟩

/-- A page of a saved snapshot. -/
def snapshotPage (anchors unrecoverable : Json) (snapshot : List Json) (position : Int)
    (limit : Nat) : Except Unprocessable GapPage :=
  if position < 0 ∨ (snapshot.length : Int) < position ∨ ¬ snapshot.all isFragment = true then
    .error invalidPosition
  else
    let next := position.toNat + limit
    .ok
      { items := (snapshot.drop position.toNat).take limit
        nextCursor :=
          if next < snapshot.length then
            some (encodeGapCursor hmac signingKey (cursorValue anchors next snapshot unrecoverable))
          else none
        unrecoverable }

/-- A page of the snapshot in the value of a cursor. -/
def savedPage (saved anchors : Json) (limit : Nat) : Except Unprocessable GapPage :=
  match saved.get "anchors".toList, saved.get "snapshot".toList with
  | some savedAnchors, some (.arr snapshot) =>
    -- two values are equal where their texts are
    if savedAnchors.dumps true ≠ anchors.dumps true then .error otherAnchors
    else
      snapshotPage hmac signingKey anchors ((saved.get "unrecoverable".toList).getD (.arr []))
        snapshot (((saved.get "position".toList).bind jsonInt).getD 0) limit
  | _, _ => .error otherAnchors

/-- `catalog_cursor_page`: a page of the snapshot in the cursor, where there is one. -/
def catalogCursorPage (cursor : Option (List Char)) (anchors : Json) (limit : Nat) :
    Except Unprocessable (Option GapPage) :=
  match readGapCursor hmac signingKey cursor with
  | .error refused => .error refused
  | .ok none => .ok none
  | .ok (some saved) => (savedPage hmac signingKey saved anchors limit).map some

/-! ## The first page -/

variable {τ : Type} [LinearOrder τ] (clock : Clock τ)

/-- `ordered_files` -/
def orderedGapFiles (files : List GapFile) : List GapFile :=
  (orderedFiles clock (files.map GapFile.document)).filterMap fun document =>
    files.find? (·.document.id = document.id)

/-- The place of a file in the order: of two files of one identifier the later one. -/
def positionOf (ordered : List GapFile) (id : String) : Option Nat :=
  (ordered.zipIdx.reverse.find? (·.1.document.id = id)).map Prod.snd

/-- The bytes of a file, where it has a watermark. -/
def GapFile.watermark (file : GapFile) : Option Nat :=
  file.bytes.bind fun bytes => if 0 ≤ bytes then some bytes.toNat else none

/-- The file is deleted or has no watermark. -/
def GapFile.unavailable (file : GapFile) : Bool :=
  file.status = some "DELETED" || file.watermark.isNone

/-- The fragment of a file, from `start` to `stop` or to the file's end. -/
def GapFile.fragment (file : GapFile) (start : Nat) (stop : Option Nat) : GapFragment :=
  { fileId := file.document.id, sessionId := file.document.sessionId, start,
    stop := stop.getD (file.watermark.getD 0) }

/-- The fragments and the issues of the files from one anchor to the other: the first file from
the first anchor on, the last one up to the last. -/
def gapFragments (beforeOffset afterOffset : Nat) (selected : List GapFile) :
    List GapFragment × List Json :=
  selected.zipIdx.foldl (fun (snapshot, issues) (file, relative) =>
    if file.unavailable then (snapshot, issues ++ [unavailableFile file.document.id])
    else
      let fragment := file.fragment (if relative = 0 then beforeOffset else 0)
        (if relative = selected.length - 1 then some afterOffset else none)
      if fragment.start < fragment.stop then (snapshot ++ [fragment], issues)
      else (snapshot, issues)) ([], [])

/-- A page without fragments, and why. -/
def emptyPage (reason message : String) : GapPage :=
  { items := [], nextCursor := none, unrecoverable := .arr [issueJson reason message] }

/-- The page of a request without a cursor. -/
def firstGapPage (files : List GapFile) (before after : GapAnchor) (limit : Nat) : GapPage :=
  let ordered := orderedGapFiles clock files
  match positionOf ordered before.fileId, positionOf ordered after.fileId with
  | some beforeIndex, some afterIndex =>
    if afterIndex < beforeIndex then
      emptyPage "CATALOG_UNAVAILABLE" "缺口两端未能在已保存目录中按顺序定位。"
    else
      match (ordered[beforeIndex]?).bind GapFile.watermark,
          (ordered[afterIndex]?).bind GapFile.watermark with
      | some beforeBytes, some afterBytes =>
        if beforeBytes < before.offset ∨ afterBytes < after.offset ∨
            beforeIndex = afterIndex ∧ after.offset < before.offset then
          emptyPage "WATERMARK_NOT_READY" "缺口边界尚未全部写入服务端目录。"
        else
          let selected := (ordered.take (afterIndex + 1)).drop beforeIndex
          let (snapshot, issues) := gapFragments before.offset after.offset selected
          if 200 < snapshot.length then
            emptyPage "CATALOG_TOO_BROAD" "缺口跨越的已保存片段过多，请缩小范围或通过小时归档查看。"
          else
            let items := snapshot.map GapFragment.json
            { items := items.take limit
              nextCursor :=
                if limit < items.length then
                  some (encodeGapCursor hmac signingKey
                    (cursorValue (anchorsJson before after) limit items (.arr issues)))
                else none
              unrecoverable := .arr issues }
      | _, _ => emptyPage "CATALOG_UNAVAILABLE" "目录缺少已确认的文件字节水位。"
  | _, _ => emptyPage "CATALOG_UNAVAILABLE" "缺口两端未能在已保存目录中按顺序定位。"

/-- `catalog_gap_fragments` -/
def catalogGapFragments (files : List GapFile) (before after : GapAnchor) (limit : Nat)
    (cursor : Option (List Char)) : Except Unprocessable GapPage :=
  match catalogCursorPage hmac signingKey cursor (anchorsJson before after) limit with
  | .error refused => .error refused
  | .ok (some page) => .ok page
  | .ok none => .ok (firstGapPage hmac signingKey clock files before after limit)

end CameraLogs.Logs
