import CameraLogs.Administration.EventQueries
import CameraLogs.Administration.DerivedFields

/-!
# Queries of runtime events

A query of runtime events is composed by several helpers: the texts that are asked for are the
members of a dictionary, the conditions of a summary and of an object are joined to it with
`$and`, and the condition of a time is set in it or joined to it, as the events that have no
`createdAt` yet and the kind of the page want it. The level and the outcome are taken out of the
query only then, from where they were put first.

The events are listed with numbered pages or behind a cursor.
-/

namespace CameraLogs.Administration

open Lib Logs

/-! ## The database -/

def opGte : List Char := ['$', 'g', 't', 'e']

/-- What a condition by a text is met by: the text, or a list with it. -/
def matchesText (text : List Char) : BsonValue → Bool
  | .array items => items.any (·.isText (String.ofList text))
  | value => value.isText (String.ofList text)

/-- `$gte`, between dates. -/
def dateGte (value : Option Bson) (bound : Datetime) : Bool :=
  value.any fun
    | .date instant => utcDatabaseTime bound ≤ instant
    | _ => false

/-- Conditions that are no other than these, such as regular expressions. -/
abbrev OtherConditions := List Char → Value → Event Document → Bool

def matchCondition (other : OtherConditions) (name : List Char) (condition : Value)
    (event : Event Document) : Bool :=
  match event.sortedField name, condition with
  | some value, .dict [(operator, .date bound)] =>
    if operator = opGte then dateGte value bound else other name condition event
  | none, .str text => (event.body.field (String.ofList name)).any (matchesText text)
  | _, _ => other name condition event

def derivedName (name : List Char) : List Char :=
  (if name = filterLevel then "_derivedLevel" else "_derivedOutcome").toList

/-- The database of the events: the level and the outcome are derived by its expressions. -/
def eventDatabase (other : OtherConditions) : Database Document where
  otherMatches := matchCondition other
  derivedMatches name condition event :=
    matchCondition other (derivedName name) condition { event with body := deriveFields event.body }

/-! ## Filters -/

/-- `value if value` -/
def given (value : Option (List Char)) : Option (List Char) := value.filter (· ≠ [])

structure EventFilters where
  taskId : Option (List Char)
  nodeId : Option (List Char)
  type : Option (List Char)
  level : Option (List Char)
  outcome : Option (List Char)
  requestId : Option (List Char)
  summary : Option (List Char)
  object : Option (List Char)
  /-- `_utc_range` of the start and the end. -/
  timeRange : Option (Datetime × Datetime)

variable {μ : Type} (filters : EventFilters)

/-- The texts that are asked for, under the names of their fields. -/
def EventFilters.conditions : List (List Char × List Char) :=
  [(['t', 'a', 's', 'k', 'I', 'd'], filters.taskId), (['n', 'o', 'd', 'e', 'I', 'd'], filters.nodeId),
    (['t', 'y', 'p', 'e'], filters.type), (filterLevel, filters.level),
    (filterOutcome, filters.outcome),
    (['r', 'e', 'q', 'u', 'e', 's', 't', 'I', 'd'], filters.requestId)].filterMap
      fun (name, value) => (given value).map (name, ·)

def EventFilters.query : Value :=
  .dict (filters.conditions.map fun (name, text) => (name, .str text))

/-- The conditions of a summary and of an object; looking up the objects can be refused. -/
structure Clauses where
  /-- `runtime_event_summary_clause` -/
  summary : List Char → Value
  /-- `runtime_event_object_clause` -/
  object : List Char → Except HttpError Value

variable (clauses : Clauses)

def runtimeEventFilters (query : Value) (summary object : Option (List Char)) :
    Except HttpError Value :=
  let result := andClause query ((given summary).map clauses.summary)
  match given object with
  | none => .ok result
  | some value => (clauses.object value).map fun clause => andClause result (some clause)

/-- `{"$gte": lower, "$lt": upper}` -/
def rangeValue (range : Datetime × Datetime) : Value :=
  .dict [(opGte, .date range.1), (opLt, .date range.2)]

/-! ## Numbered pages -/

/-- An event with the time it is shown with. -/
def Event.dated (event : Event μ) : Event μ := { event with createdAt := event.eventTime }

structure NumberedPage (μ : Type) where
  items : List (Event μ)
  total : Nat
  page : Nat
  pageSize : Nat

/-- `$skip` and `$limit` -/
def pageOf (page pageSize : Nat) (events : List (Event μ)) : List (Event μ) :=
  (events.drop ((page - 1) * pageSize)).take pageSize

variable (db : Database μ) (events : List (Event μ))

/-- `_derived_page` -/
def derivedPage (databaseQuery : Value) (derived : List (List Char × Value)) (page pageSize : Nat)
    (eventTime : Bool) : NumberedPage μ :=
  let matching := events.filter (matchQuery db databaseQuery)
  -- the time of an old event is sorted by after it is computed, the stored one before
  let ordered :=
    if eventTime then sortEvents Event.eventTime (matching.filter (matchDerived db derived))
    else (sortEvents Event.createdAt matching).filter (matchDerived db derived)
  let items := pageOf page pageSize ordered
  { items := if eventTime then items.map Event.dated else items,
    total := (matching.filter (matchDerived db derived)).length, page, pageSize }

def eventPage (query : Value) (page pageSize : Nat) : NumberedPage μ :=
  let (databaseQuery, derived) := splitDerivedFilters query
  if derived.isEmpty then
    { items := pageOf page pageSize
        (sortEvents Event.createdAt (events.filter (matchQuery db databaseQuery))),
      total := events.countP (matchQuery db databaseQuery), page, pageSize }
  else derivedPage db events databaseQuery derived page pageSize false

/-- `{"$or": [{"createdAt": range}, {"createdAt": None, "detectedAt": range}]}` -/
def legacyRange (range : Value) : Value :=
  .dict [(opOr, .list [.dict [(fieldCreatedAt, range)],
    .dict [(fieldCreatedAt, .none), (fieldDetectedAt, range)]])]

/-- The query with a condition on the time of an event, for a numbered page. -/
def pageTimeRange (legacy : Bool) (timeRange : Option Value) (query : Value) : Value :=
  if legacy then andClause query (timeRange.map legacyRange)
  else withTimeRange false timeRange query

def runtimeEventPage (query : Value) (page pageSize : Nat) (timeRange : Option Value) :
    NumberedPage μ :=
  let query := pageTimeRange (hasLegacy events) timeRange query
  if hasLegacy events then
    let (databaseQuery, derived) := splitDerivedFilters query
    if derived.isEmpty then
      { items := (pageOf page pageSize (sortEvents Event.eventTime
          (events.filter (matchQuery db databaseQuery)))).map Event.dated,
        total := events.countP (matchQuery db databaseQuery), page, pageSize }
    else derivedPage db events databaseQuery derived page pageSize true
  else eventPage db events query page pageSize

/-! ## The route -/

/-- `runtime_events` without a cursor. -/
def runtimeEvents (page pageSize : Nat) : Except HttpError (NumberedPage μ) :=
  (runtimeEventFilters clauses filters.query filters.summary filters.object).map fun query =>
    runtimeEventPage db events query page pageSize (filters.timeRange.map rangeValue)

/-- `runtime_events` behind a cursor. -/
def runtimeEventsBehind (platform : Platform) (cursor : List Char) (pageSize : Nat)
    (includeTotal : Bool) : Except HttpError (EventPage μ) := do
  let query ← runtimeEventFilters clauses filters.query filters.summary filters.object
  runtimeEventCursorPage db platform events query cursor pageSize
    (filters.timeRange.map rangeValue) includeTotal

/-! ## What is asked for -/

/-- A condition by a text, the level and the outcome being the derived ones. -/
def holdsDerived (condition : List Char × List Char) (event : Event μ) : Bool :=
  if condition.1 = filterLevel ∨ condition.1 = filterOutcome then
    db.derivedMatches condition.1 (.str condition.2) event
  else db.otherMatches condition.1 (.str condition.2) event

/-- The same of the fields that are stored. -/
def holdsStored (condition : List Char × List Char) (event : Event μ) : Bool :=
  db.otherMatches condition.1 (.str condition.2) event

/-- The time of the event is in the range. -/
def inRange (range : Datetime × Datetime) (event : Event μ) : Bool :=
  event.eventTime.any fun time => utcDatabaseTime range.1 ≤ time && time < utcDatabaseTime range.2

/-- The event meets the conditions on its summary, its object and its time. -/
def meetsClauses (event : Event μ) : Bool :=
  (given filters.summary).all (fun value => matchQuery db (clauses.summary value) event) &&
    (given filters.object).all (fun value =>
      (clauses.object value).toOption.any (matchQuery db · event)) &&
    filters.timeRange.all (inRange · event)

/-- The event meets every condition that is given. -/
def Meets (event : Event μ) : Bool :=
  filters.conditions.all (holdsDerived db · event) && meetsClauses filters clauses db event

/-- The conditions by the texts are below other conditions of the query. -/
def buried (filters : EventFilters) (numbered legacy : Bool) : Bool :=
  (given filters.summary).isSome || (given filters.object).isSome ||
    (numbered && legacy && filters.timeRange.isSome)

end CameraLogs.Administration
