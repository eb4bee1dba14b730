import CameraLogs.Lib.CursorText
import Mathlib.Algebra.GroupWithZero.Nat
import CameraLogs.Logs.FileOrder
import Mathlib.Data.Sum.Order

/-!
# Cursors of event pages

The cursor of a page is the time and the identifier of its last event, with the collection and a
digest of the query it is good for, as a text of a URL. Identifiers are object ids or texts; the
database has texts before object ids.

The digest and the texts of times are the platform's: `Platform`.
-/

namespace CameraLogs.Administration

open Lib Logs

/-- The twelve bytes of an object id, as a number. -/
abbrev ObjectId := Fin (16 ^ 24)

instance neZero_objectIds : NeZero (16 ^ 24 : Nat) := ⟨by decide⟩

inductive Identifier where
  | objectId (id : ObjectId)
  | string (text : List Char)
  deriving DecidableEq

/-- The database's order of identifiers. -/
def Identifier.key : Identifier → List Char ⊕ₗ ObjectId
  | .string text => toLex (.inl text)
  | .objectId id => toLex (.inr id)

structure HttpError where
  status : Nat
  detail : String
  deriving DecidableEq

/-- What the digest and the texts of times are. -/
structure Platform where
  /-- `sha256(data).hexdigest()` -/
  sha256 : List UInt8 → List Char
  /-- `isoformat()` of a time in UTC. -/
  isoformat : Int → List Char
  fromisoformat : List Char → Option Datetime
  /-- `value == 1` -/
  floatIsOne : FloatText → Bool

/-- `_utc_database_time`: a time without an offset is one of UTC. -/
def utcDatabaseTime : Datetime → Int
  | .aware instant => instant
  | .naive wall => wall

/-! ## Queries -/

/-- What a query is made of. -/
inductive Value where
  | none
  | bool (value : Bool)
  | int (value : Int)
  | float (value : FloatText)
  | str (value : List Char)
  | date (value : Datetime)
  | objectId (value : ObjectId)
  | list (items : List Value)
  | dict (members : List (List Char × Value))

def dateKey : List Char := ['$', 'd', 'a', 't', 'e']
def objectIdKey : List Char := ['$', 'o', 'b', 'j', 'e', 'c', 't', 'I', 'd']

/-- So many hexadecimal digits of a number. -/
def hexText : Nat → Nat → List Char
  | 0, _ => []
  | width + 1, n => hexText width (n / 16) ++ [hexChar (n % 16)]

/-- `str(id)` -/
def ObjectId.text (id : ObjectId) : List Char := hexText 24 id.val

def hexNat (text : List Char) : Option Nat :=
  text.foldlM (fun n c => (hexValue c).map (n * 16 + ·)) 0

/-- `ObjectId(text)` -/
def parseObjectId (text : List Char) : Option ObjectId :=
  if text.length = 24 then (hexNat text).bind fun n => if h : n < 16 ^ 24 then some ⟨n, h⟩ else none
  else none

variable (platform : Platform)

mutual

/-- `_canonical` -/
def canonical : Value → Json
  | .none => .null
  | .bool value => .bool value
  | .int value => .int value
  | .float value => .float value
  | .str value => .str value
  | .date value => .obj [(dateKey, .str (platform.isoformat (utcDatabaseTime value)))]
  | .objectId value => .obj [(objectIdKey, .str value.text)]
  | .list items => .arr (canonicalItems items)
  | .dict members => .obj ((canonicalMembers members).insertionSort fun x y => x.1 ≤ y.1)

def canonicalItems : List Value → List Json
  | [] => []
  | x :: xs => canonical x :: canonicalItems xs

def canonicalMembers : List (List Char × Value) → List (List Char × Json)
  | [] => []
  | (key, x) :: xs => (key, canonical x) :: canonicalMembers xs

end

/-- The text of a query that its digest is made of. -/
def queryText (query : Value) : List UInt8 := encodeUtf8 ((canonical platform query).dumps false)

/-- `_query_hash` -/
def queryHash (query : Value) : List Char := platform.sha256 (queryText platform query)

/-- Two queries are equal up to the order of their keys and the zones of their dates. -/
def SameQuery (query query' : Value) : Prop :=
  (canonical platform query).sortKeys = (canonical platform query').sortKeys

/-! ## Cursors -/

/-- `EventCursorAnchor` -/
structure EventCursorAnchor where
  eventTime : Int
  identifier : Identifier
  deriving DecidableEq

def invalidCursor : HttpError := ⟨422, "管理事件游标无效"⟩

def objectIdType : List Char := ['o', 'b', 'j', 'e', 'c', 't', 'I', 'd']
def stringType : List Char := ['s', 't', 'r', 'i', 'n', 'g']

/-- `_encode_identifier` -/
def encodeIdentifier : Identifier → Except HttpError (List Char × List Char)
  | .objectId id => .ok (objectIdType, id.text)
  | .string text =>
    if text = [] then .error ⟨422, "管理事件游标不支持该主键类型"⟩ else .ok (stringType, text)

def keyV : List Char := ['v']
def keyCollection : List Char := ['c', 'o', 'l', 'l', 'e', 'c', 't', 'i', 'o', 'n']
def keyQueryHash : List Char := ['q', 'u', 'e', 'r', 'y', 'H', 'a', 's', 'h']
def keyLegacyTime : List Char := ['l', 'e', 'g', 'a', 'c', 'y', 'T', 'i', 'm', 'e']
def keyTime : List Char := ['t', 'i', 'm', 'e']
def keyIdType : List Char := ['i', 'd', 'T', 'y', 'p', 'e']
def keyId : List Char := ['i', 'd']

def cursorPayload (collection : List Char) (query : Value) (legacyTime : Bool) (time : Int)
    (idType id : List Char) : Json :=
  .obj [(keyV, .int 1), (keyCollection, .str collection),
    (keyQueryHash, .str (queryHash platform query)), (keyLegacyTime, .bool legacyTime),
    (keyTime, .str (platform.isoformat time)), (keyIdType, .str idType), (keyId, .str id)]

def encodeEventCursor (collection : List Char) (query : Value) (legacyTime : Bool)
    (eventTime : Option Datetime) (identifier : Identifier) : Except HttpError (List Char) :=
  match eventTime with
  | none => .error ⟨422, "管理事件缺少游标时间键"⟩
  | some eventTime => do
    let (idType, id) ← encodeIdentifier identifier
    .ok (encodeText (cursorPayload platform collection query legacyTime
      (utcDatabaseTime eventTime) idType id))

/-- `value == 1` -/
def isOne : Json → Bool
  | .int value => value = 1
  | .bool value => value
  | .float value => platform.floatIsOne value
  | _ => false

def jsonText : Json → Option (List Char)
  | .str text => some text
  | _ => none

/-- The names of the members are those of a cursor. -/
def hasCursorFields : Json → Bool
  | .obj members =>
    let names := members.map Prod.fst
    let expected := [keyV, keyCollection, keyQueryHash, keyLegacyTime, keyTime, keyIdType, keyId]
    expected.all (names.contains ·) && names.all (expected.contains ·)
  | _ => false

/-- The members name this collection, this query and this kind of time. -/
def cursorMatches (payload : Json) (collection : List Char) (query : Value) (legacyTime : Bool) :
    Bool :=
  hasCursorFields payload && (payload.get keyV).any (isOne platform) &&
    (payload.get keyCollection).bind jsonText = some collection &&
    (payload.get keyQueryHash).bind jsonText = some (queryHash platform query) &&
    (payload.get keyLegacyTime).any fun
      | .bool value => value = legacyTime
      | _ => false

def decodeIdentifier (idType id : List Char) : Option Identifier :=
  if idType = objectIdType then (parseObjectId id).map .objectId
  else if idType = stringType then some (.string id)
  else none

def decodeEventCursor (value collection : List Char) (query : Value) (legacyTime : Bool) :
    Except HttpError EventCursorAnchor :=
  let anchor : Option EventCursorAnchor := do
    let payload ← decodeText value
    let time ← (payload.get keyTime).bind jsonText
    let eventTime ← platform.fromisoformat time
    let idType ← (payload.get keyIdType).bind jsonText
    let id ← (payload.get keyId).bind jsonText
    if cursorMatches platform payload collection query legacyTime && id ≠ [] then
      match eventTime with
      | .naive _ => none
      | .aware instant => (decodeIdentifier idType id).map (⟨instant, ·⟩)
    else none
  match anchor with
  | none => .error invalidCursor
  | some anchor => .ok anchor

/-! ## The events behind a cursor -/

def opOr : List Char := ['$', 'o', 'r']
def opAnd : List Char := ['$', 'a', 'n', 'd']
def opLt : List Char := ['$', 'l', 't']
def opType : List Char := ['$', 't', 'y', 'p', 'e']
def fieldId : List Char := ['_', 'i', 'd']

/-- The identifiers behind one, at the same time. -/
def sameTimeClause : Identifier → List (List Char × Value)
  | .objectId id =>
    [(opOr, .list [.dict [(fieldId, .dict [(opType, .str objectIdType), (opLt, .objectId id)])],
      .dict [(fieldId, .dict [(opType, .str stringType)])]])]
  | .string text => [(fieldId, .dict [(opType, .str stringType), (opLt, .str text)])]

def afterEventCursorClause (timeField : List Char) (eventTime : Datetime)
    (identifier : Identifier) : Value :=
  let databaseTime := Datetime.naive (utcDatabaseTime eventTime)
  .dict [(opOr, .list [.dict [(timeField, .dict [(opLt, .date databaseTime)])],
    .dict ((timeField, .date databaseTime) :: sameTimeClause identifier)])]

/-! ## A cursor is read back -/

variable {platform} {collection : List Char} {query : Value} {legacyTime : Bool} {time : Int}
  {idType id : List Char}

theorem hexNat_append_digit (text : List Char) {n d : Nat} (h : hexNat text = some n)
    (hd : d < 16) : hexNat (text ++ [hexChar d]) = some (n * 16 + d) := by
  have hfold : text.foldlM (fun n c => (hexValue c).map (n * 16 + ·)) 0 = some n := h
  rw [hexNat, List.foldlM_append, hfold]
  simp [hexValue_hexChar d hd]

theorem hexNat_hexText : ∀ (width n : Nat), n < 16 ^ width → hexNat (hexText width n) = some n
  | 0, n, h => by
    have hzero : n = 0 := by simpa using h
    rw [hzero]
    rfl
  | width + 1, n, h => by
    have hlt : n / 16 < 16 ^ width := Nat.div_lt_of_lt_mul (by rwa [Nat.pow_succ'] at h)
    rw [hexText, hexNat_append_digit _ (hexNat_hexText width (n / 16) hlt)
      (Nat.mod_lt _ (by decide))]
    congr 1
    omega

theorem length_hexText : ∀ width n : Nat, (hexText width n).length = width
  | 0, _ => rfl
  | width + 1, n => by
    rw [hexText, List.length_append, length_hexText width]
    rfl

theorem parseObjectId_text (id : ObjectId) : parseObjectId id.text = some id := by
  rw [parseObjectId, ObjectId.text, if_pos (length_hexText 24 id.val),
    hexNat_hexText 24 id.val id.isLt, Option.bind_some, dif_pos id.isLt]

theorem ObjectId.text_ne_nil (id : ObjectId) : id.text ≠ [] := by
  intro hnil
  have hlen := length_hexText 24 id.val
  rw [ObjectId.text] at hnil
  rw [hnil] at hlen
  cases hlen

/-- The payload in the order of its names. -/
theorem sortKeys_cursorPayload :
    (cursorPayload platform collection query legacyTime time idType id).sortKeys =
      .obj [(keyCollection, .str collection), (keyId, .str id), (keyIdType, .str idType),
        (keyLegacyTime, .bool legacyTime), (keyQueryHash, .str (queryHash platform query)),
        (keyTime, .str (platform.isoformat time)), (keyV, .int 1)] := by
  rfl

/-- What is read of an encoded payload. -/
theorem decodeText_cursorPayload : ∃ payload,
    decodeText (encodeText (cursorPayload platform collection query legacyTime time idType id)) =
        some payload ∧
      payload.get keyTime = some (.str (platform.isoformat time)) ∧
      payload.get keyIdType = some (.str idType) ∧ payload.get keyId = some (.str id) ∧
      payload.get keyV = some (.int 1) ∧ payload.get keyCollection = some (.str collection) ∧
      payload.get keyQueryHash = some (.str (queryHash platform query)) ∧
      payload.get keyLegacyTime = some (.bool legacyTime) ∧ hasCursorFields payload = true := by
  refine ⟨_, decodeText_encodeText _, ?_⟩
  rw [sortKeys_cursorPayload]
  exact ⟨rfl, rfl, rfl, rfl, rfl, rfl, rfl, rfl⟩

/-- A cursor matches just the collection, the digest and the kind of time it was made for. -/
theorem cursorMatches_iff {payload : Json} {collection' : List Char} {query' : Value}
    {legacyTime' : Bool} (hv : payload.get keyV = some (.int 1))
    (hcollection : payload.get keyCollection = some (.str collection))
    (hquery : payload.get keyQueryHash = some (.str (queryHash platform query)))
    (hlegacy : payload.get keyLegacyTime = some (.bool legacyTime))
    (hfields : hasCursorFields payload = true) :
    cursorMatches platform payload collection' query' legacyTime' = true ↔
      collection = collection' ∧ queryHash platform query = queryHash platform query' ∧
        legacyTime = legacyTime' := by
  simp [cursorMatches, hv, hcollection, hquery, hlegacy, hfields, isOne, jsonText, and_assoc]

theorem encodeEventCursor_ok {eventTime : Option Datetime} {identifier : Identifier}
    {text : List Char}
    (h : encodeEventCursor platform collection query legacyTime eventTime identifier = .ok text) :
    ∃ datetime idType id, eventTime = some datetime ∧
      encodeIdentifier identifier = .ok (idType, id) ∧
      text = encodeText (cursorPayload platform collection query legacyTime
        (utcDatabaseTime datetime) idType id) := by
  unfold encodeEventCursor at h
  cases eventTime with
  | none => cases h
  | some datetime =>
    cases hid : encodeIdentifier identifier with
    | error error =>
      rw [hid] at h
      cases h
    | ok pair =>
      rw [hid] at h
      cases h
      exact ⟨datetime, pair.1, pair.2, rfl, rfl, rfl⟩

theorem decodeIdentifier_encode {identifier : Identifier}
    (h : encodeIdentifier identifier = .ok (idType, id)) :
    id ≠ [] ∧ decodeIdentifier idType id = some identifier := by
  cases identifier with
  | objectId oid =>
    cases h
    refine ⟨oid.text_ne_nil, ?_⟩
    rw [decodeIdentifier, if_pos rfl, parseObjectId_text]
    rfl
  | string text =>
    rw [encodeIdentifier] at h
    by_cases hnil : text = []
    · rw [if_pos hnil] at h
      cases h
    · rw [if_neg hnil] at h
      cases h
      exact ⟨hnil, rfl⟩

/-- An encoded cursor is read back as the time and the identifier it was made of. -/
theorem decode_encode_eventCursor {eventTime : Datetime} {identifier : Identifier}
    {text : List Char}
    (h : encodeEventCursor platform collection query legacyTime (some eventTime) identifier =
      .ok text)
    (hiso : platform.fromisoformat (platform.isoformat (utcDatabaseTime eventTime)) =
      some (.aware (utcDatabaseTime eventTime))) :
    decodeEventCursor platform text collection query legacyTime =
      .ok ⟨utcDatabaseTime eventTime, identifier⟩ := by
  obtain ⟨_, idType, id, hsome, hid, rfl⟩ := encodeEventCursor_ok h
  cases hsome
  obtain ⟨hne, hdecode⟩ := decodeIdentifier_encode hid
  obtain ⟨payload, hpayload, htime, htype, hident, hv, hcollection, hquery, hlegacy, hfields⟩ :=
    @decodeText_cursorPayload platform collection query legacyTime (utcDatabaseTime eventTime)
      idType id
  have hmatches : cursorMatches platform payload collection query legacyTime = true :=
    (cursorMatches_iff hv hcollection hquery hlegacy hfields).mpr ⟨rfl, rfl, rfl⟩
  simp [decodeEventCursor, hpayload, htime, htype, hident, jsonText, hiso, hmatches, hne, hdecode]

/-- A cursor is refused where the collection, the digest or the kind of time is another. -/
theorem decode_other_eventCursor {eventTime : Option Datetime} {identifier : Identifier}
    {text collection' : List Char} {query' : Value} {legacyTime' : Bool}
    (h : encodeEventCursor platform collection query legacyTime eventTime identifier = .ok text)
    (hother : ¬ (collection = collection' ∧ queryHash platform query = queryHash platform query' ∧
      legacyTime = legacyTime')) :
    decodeEventCursor platform text collection' query' legacyTime' = .error invalidCursor := by
  obtain ⟨datetime, idType, id, -, -, rfl⟩ := encodeEventCursor_ok h
  obtain ⟨payload, hpayload, htime, htype, hident, hv, hcollection, hquery, hlegacy, hfields⟩ :=
    @decodeText_cursorPayload platform collection query legacyTime (utcDatabaseTime datetime)
      idType id
  have hmatches : cursorMatches platform payload collection' query' legacyTime' = false :=
    Bool.eq_false_iff.mpr
      fun hm => hother ((cursorMatches_iff hv hcollection hquery hlegacy hfields).mp hm)
  simp [decodeEventCursor, hpayload, htime, htype, hident, jsonText, hmatches]

/-- Where the digest tells two texts apart, it tells two queries apart. -/
theorem queryHash_ne {query query' : Value}
    (hdigest : platform.sha256 (queryText platform query) =
      platform.sha256 (queryText platform query') →
        queryText platform query = queryText platform query')
    (hother : ¬ SameQuery platform query query') :
    queryHash platform query ≠ queryHash platform query' := by
  intro hsame
  exact hother (Json.render_injective false (encodeUtf8_injective (hdigest hsame)))

theorem encodeText_ne_nil {value : Json} : encodeText value ≠ [] := by
  intro hnil
  have hread := decodeText_encodeText value
  rw [hnil] at hread
  exact absurd hread (by rw [show decodeText [] = none from rfl]; exact nofun)

end CameraLogs.Administration
