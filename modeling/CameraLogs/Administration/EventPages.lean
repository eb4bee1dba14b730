import CameraLogs.Administration.EventQueries
import CameraLogs.Lib.Paging

/-!
# Walking the pages of events

A page is a keyset page of the events that match, in the strict order of time and identifier
(`eventCursorPage_keyset`): the condition of a cursor says of an event that its sort key is
below that of the cursor (`matchQuery_after`), and a cursor is read back as it was written.
-/

namespace CameraLogs.Administration

open Lib Logs

variable {μ : Type} {db : Database μ} {platform : Platform} {collection : List Char}
  {query : Value} {events : List (Event μ)} {event : Event μ}

/-- The event matches the query, its conditions on level and outcome included. -/
def Matches (db : Database μ) (query : Value) (event : Event μ) : Bool :=
  matchQuery db (splitDerivedFilters query).1 event &&
    matchDerived db (splitDerivedFilters query).2 event

/-- The events that match, from the latest on. -/
def listedEvents (db : Database μ) (query : Value) (events : List (Event μ)) : List (Event μ) :=
  sortEvents Event.createdAt (events.filter (Matches db query))

/-! ## The condition of a cursor -/

theorem Identifier.key_injective {id id' : Identifier} (h : id.key = id'.key) : id = id' := by
  cases id with
  | objectId id =>
    cases id' with
    | objectId id' => rw [Sum.inr.inj h]
    | string text => cases h
  | string text =>
    cases id' with
    | objectId id' => cases h
    | string text' => rw [Sum.inl.inj h]

theorem matchField_idType (name : List Char) (event : Event μ) :
    matchField db fieldId (.dict [(opType, .str name)]) event =
      decide (bsonType event.id.bson = name) := Bool.and_true _

theorem matchField_idBelow (name : List Char) (bound : Value) (event : Event μ) :
    matchField db fieldId (.dict [(opType, .str name), (opLt, bound)]) event =
      (decide (bsonType event.id.bson = name) && bsonLt (some event.id.bson) bound) :=
  congrArg (decide (bsonType event.id.bson = name) && ·) (Bool.and_true _)

/-- Of the events of one time those behind an identifier have a smaller one. -/
theorem matchMembers_sameTime (id : Identifier) (event : Event μ) :
    matchMembers db (sameTimeClause id) event = decide (event.id.key < id.key) := by
  cases id with
  | objectId id =>
    have hclause : matchMembers db (sameTimeClause (.objectId id)) event =
        (matchField db fieldId (.dict [(opType, .str objectIdType), (opLt, .objectId id)]) event ||
          matchField db fieldId (.dict [(opType, .str stringType)]) event) := by
      simp [sameTimeClause, matchMembers, matchMember, matchAny, matchQuery, opOr, opAnd]
    rw [hclause, matchField_idBelow, matchField_idType]
    cases hid : event.id with
    | objectId id' => simp [Identifier.bson, Identifier.key, bsonType, bsonLt, objectIdType, stringType]
    | string text => simp [Identifier.bson, Identifier.key, bsonType, objectIdType, stringType]
  | string text =>
    have hclause : matchMembers db (sameTimeClause (.string text)) event =
        matchField db fieldId (.dict [(opType, .str stringType), (opLt, .str text)]) event := by
      simp [sameTimeClause, matchMembers, matchMember]
    rw [hclause, matchField_idBelow]
    cases hid : event.id with
    | objectId id => simp [Identifier.bson, Identifier.key, bsonType, objectIdType, stringType]
    | string text' => simp [Identifier.bson, Identifier.key, bsonType, bsonLt, stringType]

/-- The events behind a cursor are those whose key is below that of the cursor, whichever time of
an event the field has. -/
theorem matchQuery_behind {field : List Char} {time : Event μ → Option Int}
    (hfield : event.sortedField field = some ((time event).map .date)) (bound : Int)
    (id : Identifier) {instant : Int} (htime : time event = some instant) :
    matchQuery db (afterEventCursorClause field (.aware bound) id) event =
      decide (event.sortKey time < (toLex (some bound, id.key) : SortKey)) := by
  have hvalue : event.sortedField field = some (some (.date instant)) := by
    rw [hfield, htime]
    rfl
  have hclause : matchQuery db (afterEventCursorClause field (.aware bound) id) event =
      (decide (instant < bound) || decide (instant = bound) &&
        matchMembers db (sameTimeClause id) event) := by
    have hbefore : matchField db field (.dict [(opLt, .date (.naive bound))]) event =
        decide (instant < bound) := by
      simp only [matchField, hvalue]
      exact Bool.and_true _
    have hsame : matchField db field (.date (.naive bound)) event = decide (instant = bound) := by
      simp [matchField, hvalue, utcDatabaseTime]
    have hdate : utcDatabaseTime (.aware bound) = bound := rfl
    simp [afterEventCursorClause, matchQuery, matchMembers, matchMember, matchAny, opAnd, opOr,
      hbefore, hsame, hdate]
  rw [hclause, matchMembers_sameTime, Bool.eq_iff_iff, decide_eq_true_iff, Event.sortKey, htime,
    Prod.Lex.toLex_lt_toLex]
  simp only [Bool.or_eq_true, Bool.and_eq_true, decide_eq_true_eq]
  exact or_congr WithBot.coe_lt_coe.symm (and_congr_left' WithBot.coe_inj.symm)

theorem matchQuery_after (time : Int) (id : Identifier) (event : Event μ) {instant : Int}
    (hcreated : event.createdAt = some instant) :
    matchQuery db (afterEventCursorClause fieldCreatedAt (.aware time) id) event =
      decide (event.sortKey Event.createdAt < (toLex (some time, id.key) : SortKey)) :=
  matchQuery_behind rfl time id hcreated

/-! ## Pages -/

theorem matchQuery_andClause (databaseQuery : Value) (clause : Option Value) (event : Event μ) :
    matchQuery db (andClause databaseQuery clause) event =
      (matchQuery db databaseQuery event && clause.all (matchQuery db · event)) := by
  cases clause with
  | none => simp [andClause]
  | some clause => simp [andClause, matchQuery, matchMembers, matchMember, matchAll]

theorem sortKey_id {time : Event μ → Option Int} {event event' : Event μ}
    (h : event.sortKey time = event'.sortKey time) : event.id = event'.id :=
  Identifier.key_injective (congrArg (fun key : SortKey => (ofLex key).2) h)

theorem nodup_sortKeys {time : Event μ → Option Int} {l : List (Event μ)}
    (hids : (l.map (·.id)).Nodup) : (l.map (Event.sortKey time)).Nodup := by
  rw [List.nodup_map_iff_inj_on (List.Nodup.of_map _ hids)]
  intro event hevent event' hevent' heq
  exact List.inj_on_of_nodup_map hids hevent hevent' (sortKey_id heq)

theorem sortEvents_strict {time : Event μ → Option Int} {l : List (Event μ)}
    (hids : (l.map (·.id)).Nodup) :
    (sortEvents time l).Pairwise fun a b => a.sortKey time > b.sortKey time :=
  sorted_desc (nodup_sortKeys hids)

theorem mem_sortEvents {time : Event μ → Option Int} {l : List (Event μ)} :
    event ∈ sortEvents time l ↔ event ∈ l :=
  (List.perm_insertionSort _ l).mem_iff

theorem nodup_ids_filter (hids : (events.map (·.id)).Nodup) (p : Event μ → Bool) :
    ((events.filter p).map (·.id)).Nodup :=
  hids.sublist (List.filter_sublist.map _)

theorem listedEvents_strict (hids : (events.map (·.id)).Nodup) :
    (listedEvents db query events).Pairwise
      fun a b => a.sortKey Event.createdAt > b.sortKey Event.createdAt :=
  sortEvents_strict (nodup_ids_filter hids _)

theorem mem_listedEvents :
    event ∈ listedEvents db query events ↔ event ∈ events ∧ Matches db query event = true := by
  rw [listedEvents, mem_sortEvents, List.mem_filter]

/-- The events a page is taken from are those listed behind its cursor. -/
theorem found_behind (hids : (events.map (·.id)).Nodup)
    (hdates : ∀ event ∈ events, event.createdAt.isSome) (anchor : Option EventCursorAnchor) :
    (sortEvents Event.createdAt (events.filter (matchQuery db
      (andClause (splitDerivedFilters query).1 (cursorClause fieldCreatedAt anchor))))).filter
        (matchDerived db (splitDerivedFilters query).2) =
      behind (Event.sortKey Event.createdAt) (· > ·) (listedEvents db query events)
        (anchor.map fun anchor => toLex (some anchor.eventTime, anchor.identifier.key)) := by
  refine eq_of_strict ((sortEvents_strict (nodup_ids_filter hids _)).filter _)
    ((listedEvents_strict hids).filter _) fun event => ?_
  rw [List.mem_filter, mem_sortEvents, List.mem_filter, behind, List.mem_filter, mem_listedEvents,
    matchQuery_andClause, Matches]
  have hclause (hevent : event ∈ events) :
      (cursorClause fieldCreatedAt anchor).all (matchQuery db · event) =
        (anchor.map fun anchor => (toLex (some anchor.eventTime, anchor.identifier.key) :
          SortKey)).all fun key => decide (key > event.sortKey Event.createdAt) := by
    cases anchor with
    | none => rfl
    | some anchor =>
      obtain ⟨instant, hinstant⟩ := Option.isSome_iff_exists.mp (hdates event hevent)
      exact matchQuery_after anchor.eventTime anchor.identifier event hinstant
  constructor
  · rintro ⟨⟨hevent, hquery⟩, hderived⟩
    rw [hclause hevent, Bool.and_eq_true] at hquery
    exact ⟨⟨hevent, Bool.and_eq_true_iff.mpr ⟨hquery.1, hderived⟩⟩, hquery.2⟩
  · rintro ⟨⟨hevent, hboth⟩, hbehind⟩
    obtain ⟨hquery, hderived⟩ := Bool.and_eq_true_iff.mp hboth
    rw [hclause hevent, Bool.and_eq_true]
    exact ⟨⟨hevent, hquery, hbehind⟩, hderived⟩

/-- The identifier of a key. -/
def Identifier.ofKey (key : List Char ⊕ₗ ObjectId) : Identifier :=
  match ofLex key with
  | .inl text => .string text
  | .inr id => .objectId id

theorem Identifier.ofKey_key (id : Identifier) : Identifier.ofKey id.key = id := by
  cases id <;> rfl

/-- The cursor of a key, and the empty one of the first page. -/
def cursorOf (platform : Platform) (collection : List Char) (query : Value)
    (key : Option SortKey) : List Char :=
  match key with
  | none => []
  | some key =>
    ((encodeEventCursor platform collection query false (Option.map .aware (ofLex key).1)
      (Identifier.ofKey (ofLex key).2)).toOption).getD []

/-- A cursor can be made of an event with a time and an identifier that is no empty text. -/
theorem encodeEventCursor_isOk (legacyTime : Bool) {time : Int} {id : Identifier}
    (hid : id ≠ .string []) : ∃ text, text ≠ [] ∧
      encodeEventCursor platform collection query legacyTime (some (.aware time)) id = .ok text := by
  cases id with
  | objectId id => exact ⟨_, encodeText_ne_nil, rfl⟩
  | string text =>
    have hne : text ≠ [] := fun h => hid (congrArg Identifier.string h)
    refine ⟨encodeText (cursorPayload platform collection query legacyTime time stringType text),
      encodeText_ne_nil, ?_⟩
    rw [encodeEventCursor, encodeIdentifier, if_neg hne]
    rfl

/-- The time that pages are sorted by, and that their cursors are made of. -/
def pageTime (legacyTime : Bool) (event : Event μ) : Option Int :=
  if legacyTime then event.eventTime else event.createdAt

/-- The cursor of a key of either kind of time. -/
def timedCursor (platform : Platform) (collection : List Char) (query : Value) (legacyTime : Bool)
    (key : Option SortKey) : List Char :=
  match key with
  | none => []
  | some key =>
    ((encodeEventCursor platform collection query legacyTime (Option.map .aware (ofLex key).1)
      (Identifier.ofKey (ofLex key).2)).toOption).getD []

theorem cursorOf_eq (key : Option SortKey) :
    cursorOf platform collection query key = timedCursor platform collection query false key := by
  cases key <;> rfl

theorem timedCursor_sortKey {legacyTime : Bool} (hid : event.id ≠ .string []) {time : Int}
    (htime : pageTime legacyTime event = some time) : ∃ text, text ≠ [] ∧
      encodeEventCursor platform collection query legacyTime
        ((pageTime legacyTime event).map .aware) event.id = .ok text ∧
      timedCursor platform collection query legacyTime
        (some (event.sortKey (pageTime legacyTime))) = text := by
  obtain ⟨text, hne, hok⟩ :=
    @encodeEventCursor_isOk platform collection query legacyTime time event.id hid
  have hencode : encodeEventCursor platform collection query legacyTime
      ((pageTime legacyTime event).map .aware) event.id = .ok text := by
    rw [htime]
    exact hok
  refine ⟨text, hne, hencode, ?_⟩
  show ((encodeEventCursor platform collection query legacyTime
    ((pageTime legacyTime event).map .aware)
      (Identifier.ofKey event.id.key)).toOption).getD [] = text
  rw [Identifier.ofKey_key, hencode]
  rfl

/-- The cursor of an event's key is read back. -/
theorem readCursor_timedCursor {legacyTime : Bool} (hid : event.id ≠ .string []) {time : Int}
    (htime : pageTime legacyTime event = some time)
    (hiso : platform.fromisoformat (platform.isoformat time) = some (.aware time)) :
    readCursor platform (timedCursor platform collection query legacyTime
      (some (event.sortKey (pageTime legacyTime)))) collection query legacyTime =
        .ok (some ⟨time, event.id⟩) := by
  obtain ⟨text, hne, hencode, hcursor⟩ :=
    @timedCursor_sortKey μ platform collection query event legacyTime hid time htime
  rw [htime] at hencode
  rw [hcursor, readCursor, if_neg hne, decode_encode_eventCursor hencode hiso]
  rfl

/-- What `presentCursorPage` makes of the events read, where a cursor can be made of each. -/
theorem presentCursorPage_timed {legacyTime : Bool} {items : List (Event μ)} {limit : Nat}
    (hlimit : 0 < limit) (total : Option Nat)
    (hitems : ∀ event ∈ items, event.id ≠ .string [] ∧ (pageTime legacyTime event).isSome) :
    presentCursorPage platform collection query legacyTime limit total (items.take (limit + 1)) =
      .ok { items := (items.take limit).map fun event =>
              { event with createdAt := pageTime legacyTime event },
            pageSize := limit, hasMore := decide (limit < items.length),
            nextCursor := if limit < items.length then
              ((items.take limit).getLast?.map (Event.sortKey (pageTime legacyTime))).map fun key =>
                timedCursor platform collection query legacyTime (some key) else none,
            total } := by
  have htake : (items.take (limit + 1)).take limit = items.take limit := by
    rw [List.take_take, Nat.min_eq_left (Nat.le_succ limit)]
  have hmore : limit < (items.take (limit + 1)).length ↔ limit < items.length := by
    rw [List.length_take]
    omega
  have hpresent : ((items.take limit).map fun event : Event μ =>
      if legacyTime then { event with createdAt := event.eventTime } else event) =
        (items.take limit).map fun event =>
          { event with createdAt := pageTime legacyTime event } := by
    cases legacyTime <;> rfl
  unfold presentCursorPage
  simp only [htake, hmore, hpresent]
  by_cases hlt : limit < items.length
  · simp only [hlt, decide_true, if_true]
    cases hlast : (items.take limit).getLast? with
    | none =>
      have hnil := congrArg List.length (List.getLast?_eq_none_iff.mp hlast)
      rw [List.length_take, List.length_nil] at hnil
      omega
    | some last =>
      obtain ⟨hid, hcreated⟩ := hitems last (List.mem_of_mem_take (List.mem_of_getLast? hlast))
      obtain ⟨time, htime⟩ := Option.isSome_iff_exists.mp hcreated
      obtain ⟨text, -, hencode, hcursor⟩ :=
        @timedCursor_sortKey μ platform collection query last legacyTime hid time htime
      have hencode' : encodeEventCursor platform collection query legacyTime
          ((if legacyTime then last.eventTime else last.createdAt).map .aware) last.id =
            .ok text := hencode
      simp only [hencode', Option.map_some, hcursor]
      rfl
  · simp only [hlt, decide_false, Bool.false_eq_true, if_false]
    rfl

/-- The items and the next cursor of a page. -/
def walkStep (page : Except HttpError (EventPage μ)) :
    Except HttpError (List (Event μ) × Option (List Char)) :=
  page.map fun page => (page.items, page.nextCursor)

theorem eventCursorPage_eq {cursor : List Char} {anchor : Option EventCursorAnchor}
    (hread : readCursor platform cursor collection query false = .ok anchor) (limit : Nat)
    (includeTotal : Bool) :
    eventCursorPage db platform events collection query cursor limit includeTotal =
      presentCursorPage platform collection query false limit
        (countEvents db events query includeTotal)
        (let found := sortEvents Event.createdAt (events.filter (matchQuery db
          (andClause (splitDerivedFilters query).1 (cursorClause fieldCreatedAt anchor))))
        if (splitDerivedFilters query).2.isEmpty then found.take (limit + 1)
        else (found.filter (matchDerived db (splitDerivedFilters query).2)).take (limit + 1)) := by
  unfold eventCursorPage
  rw [hread]
  rfl

/-- A page behind the cursor of a listed event, or the first one, is a keyset page. -/
theorem eventCursorPage_keyset (hids : (events.map (·.id)).Nodup)
    (hevents : ∀ event ∈ events, event.id ≠ .string [] ∧ event.createdAt.isSome)
    (hiso : ∀ event ∈ events, ∀ time ∈ event.createdAt,
      platform.fromisoformat (platform.isoformat time) = some (.aware time))
    {limit : Nat} (hlimit : 0 < limit) (includeTotal : Bool) (after : Option SortKey)
    (hafter : ∀ key ∈ after, ∃ event ∈ listedEvents db query events,
      event.sortKey Event.createdAt = key) :
    walkStep (eventCursorPage db platform events collection query
        (cursorOf platform collection query after) limit includeTotal) =
      .ok ((keysetPage (Event.sortKey Event.createdAt) (· > ·) limit
          (listedEvents db query events) after).1,
        (keysetPage (Event.sortKey Event.createdAt) (· > ·) limit
          (listedEvents db query events) after).2.map fun key =>
            cursorOf platform collection query (some key)) := by
  have hread : ∃ anchor : Option EventCursorAnchor,
      readCursor platform (cursorOf platform collection query after) collection query false =
        .ok anchor ∧
      anchor.map (fun anchor => (toLex (some anchor.eventTime, anchor.identifier.key) : SortKey)) =
        after := by
    cases after with
    | none => exact ⟨none, rfl, rfl⟩
    | some key =>
      obtain ⟨event, hevent, rfl⟩ := hafter key rfl
      have hmem := (mem_listedEvents.mp hevent).1
      obtain ⟨hid, hcreated⟩ := hevents event hmem
      obtain ⟨time, htime⟩ := Option.isSome_iff_exists.mp hcreated
      rw [cursorOf_eq]
      refine ⟨_, @readCursor_timedCursor μ platform collection query event false hid time htime
        (hiso event hmem time htime), ?_⟩
      rw [Event.sortKey, htime]
      rfl
  obtain ⟨anchor, hanchor, hafter⟩ := hread
  have hfound := @found_behind μ db query events hids (fun event h => (hevents event h).2) anchor
  rw [hafter] at hfound
  have hbehind : ∀ event ∈ behind (Event.sortKey Event.createdAt) (· > ·)
      (listedEvents db query events) after, event.id ≠ .string [] ∧ event.createdAt.isSome :=
    fun event h => hevents event (mem_listedEvents.mp (List.mem_filter.mp h).1).1
  -- without derived conditions the second filter keeps every event
  have hitems (found : List (Event μ)) :
      (if (splitDerivedFilters query).2.isEmpty then found.take (limit + 1)
        else (found.filter (matchDerived db (splitDerivedFilters query).2)).take (limit + 1)) =
      (found.filter (matchDerived db (splitDerivedFilters query).2)).take (limit + 1) := by
    split
    · rename_i hempty
      have hall : found.filter (matchDerived db (splitDerivedFilters query).2) = found := by
        rw [List.isEmpty_iff.mp hempty]
        exact List.filter_eq_self.mpr fun _ _ => rfl
      rw [hall]
    · rfl
  rw [eventCursorPage_eq hanchor, hitems, hfound,
    @presentCursorPage_timed μ platform collection query false _ limit hlimit _ hbehind]
  have hshown (l : List (Event μ)) :
      (l.map fun event => { event with createdAt := pageTime false event }) = l := List.map_id' l
  simp only [walkStep, keysetPage, Except.map, hshown, cursorOf_eq]
  split
  · rfl
  · rfl

theorem runtimeEventCursorPage_eq (hdates : ∀ event ∈ events, event.createdAt.isSome)
    (query : Value) (cursor : List Char) (limit : Nat) (timeRange : Option Value)
    (includeTotal : Bool) :
    runtimeEventCursorPage db platform events query cursor limit timeRange includeTotal =
      eventCursorPage db platform events eventsCollection (withTimeRange false timeRange query)
        cursor limit includeTotal := by
  have hlegacy : hasLegacy events = false := by
    refine List.any_eq_false.mpr fun event hevent => ?_
    obtain ⟨time, htime⟩ := Option.isSome_iff_exists.mp (hdates event hevent)
    simp [htime]
  unfold runtimeEventCursorPage
  rw [hlegacy]
  rfl

/-- A page refuses a cursor that is refused. -/
theorem eventCursorPage_error {cursor : List Char} {error : HttpError} (hne : cursor ≠ [])
    (h : decodeEventCursor platform cursor collection query false = .error error) (limit : Nat)
    (includeTotal : Bool) :
    eventCursorPage db platform events collection query cursor limit includeTotal =
      .error error := by
  have hread : readCursor platform cursor collection query false = .error error := by
    rw [readCursor, if_neg hne, h]
    rfl
  unfold eventCursorPage
  rw [hread]
  rfl

/-- The pages of a collection, whatever their sizes, list the events that match from the latest
on, those of one time by descending identifier, each once. A cursor is read back as the time and
the identifier it was made of, and is refused for another collection or query. The events of a
collection in which each has a time are listed by `runtimeEventCursorPage` the same way. -/
theorem event_pages_exact (hids : (events.map (·.id)).Nodup)
    (hevents : ∀ event ∈ events, event.id ≠ .string [] ∧ event.createdAt.isSome)
    (hiso : ∀ event ∈ events, ∀ time ∈ event.createdAt,
      platform.fromisoformat (platform.isoformat time) = some (.aware time)) :
    (∃ listed : List (Event μ),
      listed.Pairwise (fun a b => a.sortKey Event.createdAt > b.sortKey Event.createdAt) ∧
      (∀ event, event ∈ listed ↔ event ∈ events ∧ Matches db query event = true) ∧
      ∀ (includeTotal : Bool) (limit : Nat) (limits : List Nat),
        (∀ n ∈ limit :: limits, 0 < n) → ∃ next,
          walkPages (fun limit cursor => walkStep (eventCursorPage db platform events collection query
            cursor limit includeTotal)) limit limits [] =
              .ok (listed.take (limit + limits.sum), next) ∧
          (next = none ↔ listed.length ≤ limit + limits.sum)) ∧
    (∀ event ∈ events, ∀ time ∈ event.createdAt, ∀ legacyTime, ∃ text,
      encodeEventCursor platform collection query legacyTime (some (.aware time)) event.id =
          .ok text ∧
        decodeEventCursor platform text collection query legacyTime = .ok ⟨time, event.id⟩ ∧
        ∀ (collection' : List Char) (query' : Value) (legacyTime' : Bool),
          collection ≠ collection' ∨ ¬ SameQuery platform query query' →
          (platform.sha256 (queryText platform query) =
            platform.sha256 (queryText platform query') →
              queryText platform query = queryText platform query') →
          decodeEventCursor platform text collection' query' legacyTime' = .error invalidCursor ∧
            ∀ limit includeTotal,
              eventCursorPage db platform events collection' query' text limit includeTotal =
                .error invalidCursor) ∧
    ∀ (query : Value) (cursor : List Char) (limit : Nat) (timeRange : Option Value)
      (includeTotal : Bool),
      runtimeEventCursorPage db platform events query cursor limit timeRange includeTotal =
        eventCursorPage db platform events eventsCollection (withTimeRange false timeRange query)
          cursor limit includeTotal := by
  refine ⟨⟨listedEvents db query events, listedEvents_strict hids, fun event => mem_listedEvents,
    ?_⟩, ?_, ?_⟩
  · intro includeTotal limit limits hlimits
    have hwalk := @walkPages_keyset (Event μ) SortKey (Event.sortKey Event.createdAt) (· > ·) _
      (listedEvents db query events) HttpError (List Char) _
      (cursorOf platform collection query)
      (fun limit cursor => walkStep (eventCursorPage db platform events collection query cursor
        limit includeTotal)) (listedEvents_strict hids)
      (fun limit hlimit after hafter =>
        eventCursorPage_keyset hids hevents hiso hlimit includeTotal after hafter)
      limits limit hlimits none nofun
    rwa [behind_none] at hwalk
  · intro event hevent time htime legacyTime
    obtain ⟨text, hne, hencode⟩ := @encodeEventCursor_isOk platform collection query legacyTime time
      event.id (hevents event hevent).1
    refine ⟨text, hencode, decode_encode_eventCursor hencode (hiso event hevent time htime), ?_⟩
    intro collection' query' legacyTime' hother hdigest
    have hdiffers (legacyTime' : Bool) : ¬ (collection = collection' ∧
        queryHash platform query = queryHash platform query' ∧ legacyTime = legacyTime') := by
      rintro ⟨hcollection, hquery, -⟩
      obtain hne | hne := hother
      · exact hne hcollection
      · exact queryHash_ne hdigest hne hquery
    exact ⟨decode_other_eventCursor hencode (hdiffers legacyTime'), fun limit includeTotal =>
      eventCursorPage_error hne (decode_other_eventCursor hencode (hdiffers false)) limit
        includeTotal⟩
  · exact runtimeEventCursorPage_eq fun event hevent => (hevents event hevent).2

def newYear : List Char := "2026-01-01T00:00:00+00:00".toList

/-- The first moment of the year 2026 and its text; no other times are asked for. -/
def newYearPlatform : Platform where
  sha256 data := data.map fun b => Char.ofNat b.toNat
  isoformat _ := newYear
  fromisoformat text := if text = newYear then some (.aware 1767225600000000) else none
  floatIsOne _ := false

/-- Two events of one time, of the two kinds of identifiers. -/
def tiedEvents : List (Event Unit) :=
  [⟨.string ['a'], some 1767225600000000, none, ()⟩, ⟨.objectId 7, some 1767225600000000, none, ()⟩]

def anyDatabase : Database Unit := ⟨fun _ _ _ => true, fun _ _ _ => true⟩

theorem event_pages_exact_tied : ∃ listed : List (Event Unit),
    listed.Pairwise (fun a b => a.sortKey Event.createdAt > b.sortKey Event.createdAt) ∧
    (∀ event, event ∈ listed ↔
      event ∈ tiedEvents ∧ Matches anyDatabase (.dict []) event = true) ∧
    ∀ (includeTotal : Bool) (limit : Nat) (limits : List Nat),
      (∀ n ∈ limit :: limits, 0 < n) → ∃ next,
        walkPages (fun limit cursor => walkStep (eventCursorPage anyDatabase newYearPlatform
          tiedEvents eventsCollection (.dict []) cursor limit includeTotal)) limit limits [] =
            .ok (listed.take (limit + limits.sum), next) ∧
        (next = none ↔ listed.length ≤ limit + limits.sum) := by
  refine (event_pages_exact (by decide) ?_ ?_).1
  · simp [tiedEvents]
  · simp [tiedEvents, newYearPlatform]

end CameraLogs.Administration
