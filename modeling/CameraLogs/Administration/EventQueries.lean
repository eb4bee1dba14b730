import CameraLogs.Administration.EventCursor
import CameraLogs.Lib.Dict
import Mathlib

/-!
# Pages of events behind a cursor

The events of a collection that match a query are listed from the latest on, those of one time by
descending identifier. The condition of the cursor is joined to the caller's query with `$and`,
so that a `$or` of the query stays what it is.

What the database makes of conditions other than those the cursor uses, and of the level and the
outcome of an event, is its own: `Database`.
-/

namespace CameraLogs.Administration

open Lib Logs

variable {μ : Type}

structure Event (μ : Type) where
  id : Identifier
  createdAt : Option Int
  detectedAt : Option Int
  body : μ

/-- What the database decides. -/
structure Database (μ : Type) where
  /-- A condition on a field that is none of the cursor's. -/
  otherMatches : List Char → Value → Event μ → Bool
  /-- A condition on the derived `level` or `outcome`. -/
  derivedMatches : List Char → Value → Event μ → Bool

def fieldCreatedAt : List Char := ['c', 'r', 'e', 'a', 't', 'e', 'd', 'A', 't']
def fieldDetectedAt : List Char := ['d', 'e', 't', 'e', 'c', 't', 'e', 'd', 'A', 't']
def fieldEventTime : List Char := ['_', 'e', 'v', 'e', 'n', 't', 'T', 'i', 'm', 'e']
def dateType : List Char := ['d', 'a', 't', 'e']

/-- `{"$ifNull": ["$createdAt", "$detectedAt"]}` -/
def Event.eventTime (event : Event μ) : Option Int := event.createdAt.or event.detectedAt

inductive Bson where
  | date (instant : Int)
  | objectId (id : ObjectId)
  | string (text : List Char)
  deriving DecidableEq

def Identifier.bson : Identifier → Bson
  | .objectId id => .objectId id
  | .string text => .string text

/-- The value of a field that pages are sorted by; null is a value. -/
def Event.sortedField (event : Event μ) (field : List Char) : Option (Option Bson) :=
  if field = fieldId then some (some event.id.bson)
  else if field = fieldCreatedAt then some (event.createdAt.map .date)
  else if field = fieldDetectedAt then some (event.detectedAt.map .date)
  else if field = fieldEventTime then some (event.eventTime.map .date)
  else none

/-! ## Matching -/

/-- `$lt`, between values of one type. -/
def bsonLt (value : Option Bson) : Value → Bool
  | .date bound => value.any fun
    | .date instant => instant < utcDatabaseTime bound
    | _ => false
  | .objectId bound => value.any fun
    | .objectId id => id < bound
    | _ => false
  | .str bound => value.any fun
    | .string text => text < bound
    | _ => false
  | _ => false

def bsonType : Bson → List Char
  | .date _ => dateType
  | .objectId _ => objectIdType
  | .string _ => stringType

variable (db : Database μ)

def matchOperator (field : List Char) (event : Event μ) (value : Option Bson)
    (condition : List Char × Value) : Bool :=
  if condition.1 = opLt then bsonLt value condition.2
  else
    match condition.2 with
    | .str name =>
      if condition.1 = opType then value.any (bsonType · = name)
      else db.otherMatches field (.dict [condition]) event
    | _ => db.otherMatches field (.dict [condition]) event

/-- The condition of one field. -/
def matchField (field : List Char) (condition : Value) (event : Event μ) : Bool :=
  match event.sortedField field, condition with
  | some value, .none => value.isNone
  | some value, .date instant => value = some (.date (utcDatabaseTime instant))
  | some value, .objectId id => value = some (.objectId id)
  | some value, .str text => value = some (.string text)
  | some value, .dict (operator :: operators) =>
    (operator :: operators).all (matchOperator db field event value)
  | _, _ => db.otherMatches field condition event

mutual

/-- The event matches the query. -/
def matchQuery : Value → Event μ → Bool
  | .dict members, event => matchMembers members event
  | _, _ => false

def matchMembers : List (List Char × Value) → Event μ → Bool
  | [], _ => true
  | (key, condition) :: rest, event => matchMember key condition event && matchMembers rest event

def matchMember (key : List Char) : Value → Event μ → Bool
  | .list items, event =>
    if key = opAnd then matchAll items event
    else if key = opOr then matchAny items event
    else matchField db key (.list items) event
  | condition, event => matchField db key condition event

def matchAll : List Value → Event μ → Bool
  | [], _ => true
  | query :: queries, event => matchQuery query event && matchAll queries event

def matchAny : List Value → Event μ → Bool
  | [], _ => false
  | query :: queries, event => matchQuery query event || matchAny queries event

end

/-! ## Sorting -/

/-- A time and an identifier in the database's order, null before each time. -/
abbrev SortKey := WithBot Int ×ₗ (List Char ⊕ₗ ObjectId)

def Event.sortKey (time : Event μ → Option Int) (event : Event μ) : SortKey :=
  toLex (time event, event.id.key)

/-- `sort([(time, -1), ("_id", -1)])` -/
def sortEvents (time : Event μ → Option Int) (events : List (Event μ)) : List (Event μ) :=
  events.insertionSort fun a b => b.sortKey time ≤ a.sortKey time

/-! ## Pages -/

def filterLevel : List Char := ['l', 'e', 'v', 'e', 'l']
def filterOutcome : List Char := ['o', 'u', 't', 'c', 'o', 'm', 'e']

/-- `split_derived_filters` -/
def splitDerivedFilters : Value → Value × List (List Char × Value)
  | .dict members =>
    let isDerived (member : List Char × Value) : Bool :=
      member.1 = filterLevel || member.1 = filterOutcome
    (.dict (members.filter (!isDerived ·)), members.filter isDerived)
  | query => (query, [])

def matchDerived (derived : List (List Char × Value)) (event : Event μ) : Bool :=
  derived.all fun (name, value) => db.derivedMatches name value event

/-- `_and_clause` -/
def andClause (query : Value) : Option Value → Value
  | none => query
  | some clause => .dict [(opAnd, .list [query, clause])]

structure EventPage (μ : Type) where
  items : List (Event μ)
  pageSize : Nat
  hasMore : Bool
  nextCursor : Option (List Char)
  total : Option Nat

variable (platform : Platform)

/-- `_present_cursor_page`: the events of a page, of which one more has been read. -/
def presentCursorPage (collection : List Char) (query : Value) (legacyTime : Bool)
    (pageSize : Nat) (total : Option Nat) (items : List (Event μ)) :
    Except HttpError (EventPage μ) := do
  let hasMore := decide (pageSize < items.length)
  let visible := items.take pageSize
  let timeOf (event : Event μ) := if legacyTime then event.eventTime else event.createdAt
  let nextCursor ←
    match if hasMore then visible.getLast? else none with
    | none => .ok none
    | some last =>
      (encodeEventCursor platform collection query legacyTime ((timeOf last).map .aware)
        last.id).map some
  let present (event : Event μ) :=
    if legacyTime then { event with createdAt := event.eventTime } else event
  .ok { items := visible.map present, pageSize, hasMore, nextCursor, total }

/-- The anchor of a cursor; the first page has an empty one. -/
def readCursor (cursor collection : List Char) (query : Value) (legacyTime : Bool) :
    Except HttpError (Option EventCursorAnchor) :=
  if cursor = [] then .ok none
  else (decodeEventCursor platform cursor collection query legacyTime).map some

def cursorClause (timeField : List Char) (anchor : Option EventCursorAnchor) : Option Value :=
  anchor.map fun anchor =>
    afterEventCursorClause timeField (.aware anchor.eventTime) anchor.identifier

/-- The number of the events that match, where it is asked for. -/
def countEvents (events : List (Event μ)) (query : Value) (includeTotal : Bool) : Option Nat :=
  if includeTotal then
    some (events.countP fun event => matchQuery db (splitDerivedFilters query).1 event &&
      matchDerived db (splitDerivedFilters query).2 event)
  else none

def eventCursorPage (events : List (Event μ)) (collection : List Char) (query : Value)
    (cursor : List Char) (pageSize : Nat) (includeTotal : Bool) :
    Except HttpError (EventPage μ) := do
  let anchor ← readCursor platform cursor collection query false
  let (databaseQuery, derived) := splitDerivedFilters query
  let filtered := andClause databaseQuery (cursorClause fieldCreatedAt anchor)
  let found := sortEvents Event.createdAt (events.filter (matchQuery db filtered))
  -- without a derived condition the events are found in order, with one they are filtered again
  let items :=
    if derived.isEmpty then found.take (pageSize + 1)
    else (found.filter (matchDerived db derived)).take (pageSize + 1)
  presentCursorPage platform collection query false pageSize
    (countEvents db events query includeTotal) items

def eventsCollection : List Char := ['e', 'v', 'e', 'n', 't', 's']

/-- There is an event of the time before `createdAt`. -/
def hasLegacy (events : List (Event μ)) : Bool :=
  events.any fun event => event.createdAt.isNone && event.detectedAt.isSome

/-- The query with a condition on the time of an event. -/
def withTimeRange (legacy : Bool) (timeRange : Option Value) : Value → Value
  | .dict members =>
    match timeRange with
    | none => .dict members
    | some range =>
      if legacy then
        .dict (Dict.upsert Prod.fst (opOr, .list [.dict [(fieldCreatedAt, range)],
          .dict [(fieldCreatedAt, .none), (fieldDetectedAt, range)]]) members)
      else .dict (Dict.upsert Prod.fst (fieldCreatedAt, range) members)
  | query => query

def runtimeEventCursorPage (events : List (Event μ)) (query : Value) (cursor : List Char)
    (pageSize : Nat) (timeRange : Option Value) (includeTotal : Bool) :
    Except HttpError (EventPage μ) :=
  let query := withTimeRange (hasLegacy events) timeRange query
  if hasLegacy events then do
    let anchor ← readCursor platform cursor eventsCollection query true
    let (sourceQuery, derived) := splitDerivedFilters query
    let matching := events.filter (matchQuery db sourceQuery)
    let behind := match cursorClause fieldEventTime anchor with
      | none => matching
      | some clause => matching.filter (matchQuery db clause)
    let found := sortEvents Event.eventTime behind
    presentCursorPage platform eventsCollection query true pageSize
      (countEvents db events query includeTotal)
      ((found.filter (matchDerived db derived)).take (pageSize + 1))
  else eventCursorPage db platform events eventsCollection query cursor pageSize includeTotal

end CameraLogs.Administration
