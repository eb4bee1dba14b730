import CameraLogs.Administration.RuntimeEventPages

/-!
# Runtime events by derived level and outcome

The pages of a query list the events that meet every condition that is given, and their totals
count them, unless a text that is asked for is buried below another condition: the level and the
outcome are then those that are stored, which old events do not have, and others have to another
meaning (`runtime_events_exact`).
-/

namespace CameraLogs.Administration

open Lib Logs

variable {db : Database Document} {platform : Platform} {events : List (Event Document)}
  {filters : EventFilters} {clauses : Clauses} {other : OtherConditions}

/-- The list is that of the events that meet every condition, from the latest on. -/
def ListsMet (db : Database Document) (clauses : Clauses) (filters : EventFilters)
    (events listed : List (Event Document)) : Prop :=
  listed.Pairwise (fun a b => a.sortKey Event.eventTime > b.sortKey Event.eventTime) ∧
    ∀ event, event ∈ listed ↔ event ∈ events ∧ Meets filters clauses db event = true

/-- The numbered pages are those of a list, and the total is its length. -/
def NumberedPagesOf (db : Database Document) (clauses : Clauses) (filters : EventFilters)
    (events listed : List (Event Document)) : Prop :=
  ∀ page pageSize, 0 < page → 0 < pageSize →
    runtimeEvents filters clauses db events page pageSize =
      .ok { items := (pageOf page pageSize listed).map Event.dated, total := listed.length,
            page, pageSize }

/-- The pages behind cursors, whatever their sizes, are those of a list, and the total, where one
is asked for, is its length. -/
def CursorPagesOf (db : Database Document) (platform : Platform) (clauses : Clauses)
    (filters : EventFilters) (events listed : List (Event Document)) : Prop :=
  ∀ includeTotal : Bool,
    (∀ (limit : Nat) (limits : List Nat), (∀ n ∈ limit :: limits, 0 < n) → ∃ next,
      walkPages (fun limit cursor => walkStep (runtimeEventsBehind filters clauses db events
        platform cursor limit includeTotal)) limit limits [] =
          .ok ((listed.map Event.dated).take (limit + limits.sum), next) ∧
      (next = none ↔ listed.length ≤ limit + limits.sum)) ∧
    ∀ cursor pageSize page,
      runtimeEventsBehind filters clauses db events platform cursor pageSize includeTotal =
        .ok page → page.total = if includeTotal then some listed.length else none

/-- The stored level and outcome, where the pages go by them, say of the events that meet the other
conditions what the derived ones say. -/
def DerivedSurvives (db : Database Document) (clauses : Clauses) (filters : EventFilters)
    (numbered : Bool) (events : List (Event Document)) : Prop :=
  buried filters numbered (hasLegacy events) = true → ∀ event ∈ events,
    meetsClauses filters clauses db event = true →
      filters.conditions.all (holdsStored db · event) =
        filters.conditions.all (holdsDerived db · event)

/-! ## The walk behind cursors -/

theorem behind_map_dated (l : List (Event Document)) (after : Option SortKey) :
    behind (Event.sortKey Event.createdAt) (· > ·) (l.map Event.dated) after =
      (behind (Event.sortKey Event.eventTime) (· > ·) l after).map Event.dated :=
  List.filter_map

/-- A page of which events of old times are some is a keyset page of the matching events. -/
theorem legacyPage_keyset (hlegacy : hasLegacy events = true) (hids : (events.map (·.id)).Nodup)
    (hevents : ∀ event ∈ events, event.id ≠ .string [] ∧ event.eventTime.isSome)
    (hiso : ∀ event ∈ events, ∀ time ∈ event.eventTime,
      platform.fromisoformat (platform.isoformat time) = some (.aware time))
    {limit : Nat} (hlimit : 0 < limit) (query : Value) (timeRange : Option Value)
    (includeTotal : Bool) (after : Option SortKey)
    (hafter : ∀ key ∈ after, ∃ event ∈ (matchingEvents db (pageQuery false true timeRange query)
      events).map Event.dated, event.sortKey Event.createdAt = key) :
    walkStep (runtimeEventCursorPage db platform events query
        (timedCursor platform eventsCollection (pageQuery false true timeRange query) true after)
        limit timeRange includeTotal) =
      .ok ((keysetPage (Event.sortKey Event.createdAt) (· > ·) limit
          ((matchingEvents db (pageQuery false true timeRange query) events).map Event.dated)
            after).1,
        (keysetPage (Event.sortKey Event.createdAt) (· > ·) limit
          ((matchingEvents db (pageQuery false true timeRange query) events).map Event.dated)
            after).2.map fun key => timedCursor platform eventsCollection
              (pageQuery false true timeRange query) true (some key)) := by
  rw [runtimeEventCursorPage_legacy hlegacy]
  generalize pageQuery false true timeRange query = query at hafter ⊢
  have hread : ∃ anchor : Option EventCursorAnchor,
      readCursor platform (timedCursor platform eventsCollection query true after)
        eventsCollection query true = .ok anchor ∧
      anchor.map (fun anchor => (toLex (some anchor.eventTime, anchor.identifier.key) : SortKey)) =
        after := by
    cases after with
    | none => exact ⟨none, rfl, rfl⟩
    | some key =>
      obtain ⟨dated, hdated, rfl⟩ := hafter key rfl
      obtain ⟨event, hevent, rfl⟩ := List.mem_map.mp hdated
      have hmem := (mem_matchingEvents.mp hevent).1
      obtain ⟨hid, htimed⟩ := hevents event hmem
      obtain ⟨time, htime⟩ := Option.isSome_iff_exists.mp htimed
      refine ⟨_, @readCursor_timedCursor _ platform eventsCollection query event true hid time htime
        (hiso event hmem time htime), ?_⟩
      show some _ = some (toLex (event.eventTime, event.id.key))
      rw [htime]
      rfl
  obtain ⟨anchor, hanchor, hafter⟩ := hread
  have hfound := @found_behind_legacy _ db events hids (fun event h => (hevents event h).2) query
    anchor
  rw [hafter] at hfound
  have hbehind : ∀ event ∈ behind (Event.sortKey Event.eventTime) (· > ·)
      (matchingEvents db query events) after,
        event.id ≠ .string [] ∧ (pageTime true event).isSome :=
    fun event h => hevents event (mem_matchingEvents.mp (List.mem_filter.mp h).1).1
  simp only [hanchor, Except.bind]
  rw [hfound, @presentCursorPage_timed _ platform eventsCollection query true _ limit hlimit _
    hbehind]
  simp only [walkStep, keysetPage, Except.map, behind_map_dated, List.length_map]
  split
  · simp only [← List.map_take, List.getLast?_map, Option.map_map]
    rfl
  · rw [← List.map_take]
    rfl

/-- Walking the pages lists the matching events. -/
theorem runtimeEventCursorPage_walk (hids : (events.map (·.id)).Nodup)
    (hevents : ∀ event ∈ events, event.id ≠ .string [] ∧ event.eventTime.isSome)
    (hiso : ∀ event ∈ events, ∀ time ∈ event.eventTime,
      platform.fromisoformat (platform.isoformat time) = some (.aware time))
    (query : Value) (timeRange : Option Value) (includeTotal : Bool) {limit : Nat}
    {limits : List Nat} (hlimits : ∀ n ∈ limit :: limits, 0 < n) :
    let matching :=
      matchingEvents db (pageQuery false (hasLegacy events) timeRange query) events
    ∃ next, walkPages (fun limit cursor => walkStep (runtimeEventCursorPage db platform events query
        cursor limit timeRange includeTotal)) limit limits [] =
          .ok ((matching.map Event.dated).take (limit + limits.sum), next) ∧
      (next = none ↔ matching.length ≤ limit + limits.sum) := by
  cases hlegacy : hasLegacy events with
  | true =>
    have hstrict : ((matchingEvents db (pageQuery false true timeRange query) events).map
        Event.dated).Pairwise
          fun a b => a.sortKey Event.createdAt > b.sortKey Event.createdAt :=
      List.pairwise_map.mpr (matchingEvents_strict hids)
    have hwalk := @walkPages_keyset (Event Document) SortKey (Event.sortKey Event.createdAt) (· > ·)
      _ _ HttpError (List Char) _
      (timedCursor platform eventsCollection (pageQuery false true timeRange query) true)
      (fun limit cursor => walkStep (runtimeEventCursorPage db platform events query cursor limit
        timeRange includeTotal)) hstrict
      (fun limit hlimit after hafter => legacyPage_keyset hlegacy hids hevents hiso hlimit query
        timeRange includeTotal after hafter)
      limits limit hlimits none nofun
    rwa [behind_none, List.length_map] at hwalk
  | false =>
    have htime {event : Event Document} (h : event ∈ events) := eventTime_of_not_hasLegacy hlegacy h
    have hwalk := @walkPages_keyset (Event Document) SortKey (Event.sortKey Event.createdAt) (· > ·)
      _ _ HttpError (List Char) _
      (cursorOf platform eventsCollection (pageQuery false false timeRange query))
      (fun limit cursor => walkStep (eventCursorPage db platform events eventsCollection
        (pageQuery false false timeRange query) cursor limit includeTotal))
      (listedEvents_strict hids)
      (fun limit hlimit after hafter => eventCursorPage_keyset hids
        (fun event h => ⟨(hevents event h).1, htime h ▸ (hevents event h).2⟩)
        (fun event h time hcreated => hiso event h time (htime h ▸ hcreated)) hlimit includeTotal
        after hafter)
      limits limit hlimits none nofun
    rw [behind_none, matchingEvents_created hlegacy hids] at hwalk
    have hdated : (matchingEvents db (pageQuery false false timeRange query) events).map Event.dated
        = matchingEvents db (pageQuery false false timeRange query) events :=
      map_dated hlegacy fun event h => (mem_matchingEvents.mp h).1
    simp only [runtimeEventCursorPage_without hlegacy, hdated]
    exact hwalk

/-! ## The pages of a query -/

section Composed

variable {query : Value}
  (hquery : runtimeEventFilters clauses filters.query filters.summary filters.object = .ok query)

/-- The events that the composed query of a page matches. -/
def composedEvents (db : Database Document) (filters : EventFilters) (query : Value)
    (numbered : Bool) (events : List (Event Document)) : List (Event Document) :=
  matchingEvents db (pageQuery numbered (hasLegacy events) (filters.timeRange.map rangeValue) query)
    events

include hquery

theorem numberedPages_composed (hids : (events.map (·.id)).Nodup) :
    NumberedPagesOf db clauses filters events (composedEvents db filters query true events) := by
  intro page pageSize _ _
  rw [runtimeEvents, hquery]
  exact congrArg Except.ok (runtimeEventPage_eq hids query page pageSize _)

theorem cursorPages_composed (hids : (events.map (·.id)).Nodup)
    (hevents : ∀ event ∈ events, event.id ≠ .string [] ∧ event.eventTime.isSome)
    (hiso : ∀ event ∈ events, ∀ time ∈ event.eventTime,
      platform.fromisoformat (platform.isoformat time) = some (.aware time)) :
    CursorPagesOf db platform clauses filters events
      (composedEvents db filters query false events) := by
  have hpage (cursor : List Char) (pageSize : Nat) (includeTotal : Bool) :
      runtimeEventsBehind filters clauses db events platform cursor pageSize includeTotal =
        runtimeEventCursorPage db platform events query cursor pageSize
          (filters.timeRange.map rangeValue) includeTotal := by
    rw [runtimeEventsBehind, hquery]
    rfl
  intro includeTotal
  simp only [hpage]
  exact ⟨fun limit limits hlimits => runtimeEventCursorPage_walk hids hevents hiso query
    (filters.timeRange.map rangeValue) includeTotal hlimits,
    fun cursor pageSize page h => runtimeEventCursorPage_total h⟩

/-- The events matched are those that meet the conditions where the derived values survive. -/
theorem listsMet_composed_iff (hids : (events.map (·.id)).Nodup) (numbered : Bool) :
    ListsMet (eventDatabase other) clauses filters events
        (composedEvents (eventDatabase other) filters query numbered events) ↔
      DerivedSurvives (eventDatabase other) clauses filters numbered events := by
  have hmem (event : Event Document) :
      event ∈ composedEvents (eventDatabase other) filters query numbered events ↔
        event ∈ events ∧ ((if buried filters numbered (hasLegacy events) then
            filters.conditions.all (holdsStored (eventDatabase other) · event)
          else filters.conditions.all (holdsDerived (eventDatabase other) · event)) &&
          meetsClauses filters clauses (eventDatabase other) event) = true := by
    rw [composedEvents, mem_matchingEvents]
    exact and_congr_right fun hevent => by rw [matches_composed hquery numbered hevent]
  constructor
  · intro hmet hburied event hevent hclauses
    have hiff := (hmem event).symm.trans (hmet.2 event)
    rw [hburied, if_pos rfl, Meets, hclauses, Bool.and_true, Bool.and_true] at hiff
    exact Bool.eq_iff_iff.mpr ((and_congr_right_iff.mp hiff) hevent)
  · intro hsurvives
    refine ⟨matchingEvents_strict hids, fun event => (hmem event).trans
      (and_congr_right fun hevent => ?_)⟩
    rw [Meets]
    split
    next hburied =>
      cases hclauses : meetsClauses filters clauses (eventDatabase other) event with
      | false => simp
      | true => rw [hsurvives hburied event hevent hclauses]
    next => rfl

omit hquery in
/-- A list of events that is shown as another one is that one. -/
theorem listsMet_of_same {listed matching : List (Event Document)}
    (hids : (events.map (·.id)).Nodup) (hlisted : ListsMet db clauses filters events listed)
    (hmatching : ∀ event ∈ matching, event ∈ events)
    (hsame : listed.map Event.dated = matching.map Event.dated) :
    listed = matching := by
  have hinj : ∀ event ∈ events, ∀ event' ∈ events, event.dated = event'.dated → event = event' :=
    fun event hevent event' hevent' h =>
      List.inj_on_of_nodup_map hids hevent hevent' (congrArg (·.id) h)
  have hlength := congrArg List.length hsame
  rw [List.length_map, List.length_map] at hlength
  refine List.ext_getElem hlength fun i hi hi' => ?_
  have hget := List.getElem_of_eq hsame (i := i) (by rwa [List.length_map])
  rw [List.getElem_map, List.getElem_map] at hget
  exact hinj _ ((hlisted.2 _).mp (List.getElem_mem hi)).1 _
    (hmatching _ (List.getElem_mem hi')) hget

/-- The pages of either kind list exactly the events that meet every condition, the level and the
outcome being the derived ones, and count them, if and only if the stored level and outcome say the
same wherever the conditions on them are buried. -/
theorem runtime_events_exact (hids : (events.map (·.id)).Nodup)
    (hevents : ∀ event ∈ events, event.id ≠ .string [] ∧ event.eventTime.isSome)
    (hiso : ∀ event ∈ events, ∀ time ∈ event.eventTime,
      platform.fromisoformat (platform.isoformat time) = some (.aware time)) :
    ((∃ listed, ListsMet (eventDatabase other) clauses filters events listed ∧
        NumberedPagesOf (eventDatabase other) clauses filters events listed) ↔
      DerivedSurvives (eventDatabase other) clauses filters true events) ∧
    ((∃ listed, ListsMet (eventDatabase other) clauses filters events listed ∧
        CursorPagesOf (eventDatabase other) platform clauses filters events listed) ↔
      DerivedSurvives (eventDatabase other) clauses filters false events) := by
  have hsubset (numbered : Bool) : ∀ event ∈ composedEvents (eventDatabase other) filters query
      numbered events, event ∈ events := fun event h => (mem_matchingEvents.mp h).1
  have hnumbered := @numberedPages_composed (eventDatabase other) events filters clauses query
    hquery hids
  have hcursor := @cursorPages_composed (eventDatabase other) platform events filters clauses query
    hquery hids hevents hiso
  constructor
  · rw [← listsMet_composed_iff hquery hids true]
    refine ⟨fun ⟨listed, hlisted, hpages⟩ => ?_, fun h => ⟨_, h, hnumbered⟩⟩
    -- one page that has room for all
    have hone := (hpages 1 (listed.length + 1) one_pos (Nat.succ_pos _)).symm.trans
      (hnumbered 1 (listed.length + 1) one_pos (Nat.succ_pos _))
    have htotal : listed.length = _ := congrArg NumberedPage.total (Except.ok.inj hone)
    have hitems : (pageOf 1 (listed.length + 1) listed).map Event.dated = _ :=
      congrArg NumberedPage.items (Except.ok.inj hone)
    have hall (l : List (Event Document)) (h : l.length = listed.length) :
        pageOf 1 (listed.length + 1) l = l := by
      rw [pageOf, Nat.sub_self, Nat.zero_mul, List.drop_zero, List.take_of_length_le (by omega)]
    rw [hall listed rfl, hall _ htotal.symm] at hitems
    rwa [← listsMet_of_same hids hlisted (hsubset true) hitems]
  · rw [← listsMet_composed_iff hquery hids false]
    refine ⟨fun ⟨listed, hlisted, hpages⟩ => ?_, fun h => ⟨_, h, hcursor⟩⟩
    have hroom : ∀ n ∈ [listed.length + (composedEvents (eventDatabase other) filters query false
        events).length + 1], 0 < n := by
      intro n hn
      rw [List.mem_singleton.mp hn]
      exact Nat.succ_pos _
    obtain ⟨next, hwalk, -⟩ := (hpages false).1 _ [] hroom
    obtain ⟨next', hwalk', -⟩ := (hcursor false).1 _ [] hroom
    have hitems := congrArg Prod.fst (Except.ok.inj (hwalk.symm.trans hwalk'))
    simp only [List.sum_nil, Nat.add_zero] at hitems
    rw [List.take_of_length_le (by rw [List.length_map]; omega),
      List.take_of_length_le (by rw [List.length_map]; omega)] at hitems
    rwa [← listsMet_of_same hids hlisted (hsubset false) hitems]

end Composed

/-! ## A level behind a summary -/

def fieldType : List Char := "type".toList

/-- A gap of a connection, without a level of its own. -/
def gapEvents : List (Event Document) :=
  [⟨.string ['g'], some 1767225600000000, none, [("type", .string "CONNECTION_GAP")]⟩]

/-- The condition of the summary of a gap, a part of its text being asked for. -/
def gapClauses : Clauses where
  summary needle := .dict [(opOr, .list [
    .dict [("summary".toList, .dict [("$regex".toList, .str needle), ("$options".toList, .str ['i'])])],
    .dict [(fieldType, .dict [("$in".toList, .list [.str "CONNECTION_GAP".toList])])]])]
  object _ := .error ⟨422, "对象筛选匹配的关联对象超过1000条，请缩短关键词"⟩

/-- Of the events of gaps all are of a type of the list, and none has a summary. -/
def gapConditions : OtherConditions := fun name _ event =>
  name = fieldType && event.body.field "type" matches some (.string "CONNECTION_GAP")

/-- The warnings on gaps. -/
def gapWarnings : EventFilters where
  taskId := none
  nodeId := none
  type := none
  level := some "WARNING".toList
  outcome := none
  requestId := none
  summary := some "采集连接".toList
  object := none
  timeRange := none

/-- The gap is a warning, and neither kind of page lists it when its summary is asked for too. -/
theorem warnings_lost_behind_summary :
    (¬ ∃ listed, ListsMet (eventDatabase gapConditions) gapClauses gapWarnings gapEvents listed ∧
      NumberedPagesOf (eventDatabase gapConditions) gapClauses gapWarnings gapEvents listed) ∧
    ¬ ∃ listed, ListsMet (eventDatabase gapConditions) gapClauses gapWarnings gapEvents listed ∧
      CursorPagesOf (eventDatabase gapConditions) newYearPlatform gapClauses gapWarnings gapEvents
        listed := by
  have hmeets : ∀ event ∈ gapEvents,
      Meets gapWarnings gapClauses (eventDatabase gapConditions) event = true := by
    decide +kernel
  have hlisted (listed : List (Event Document))
      (h : ListsMet (eventDatabase gapConditions) gapClauses gapWarnings gapEvents listed) :
      listed.length ≠ 0 := by
    intro hnil
    have hmem := (h.2 _).mpr ⟨List.mem_cons_self, hmeets _ List.mem_cons_self⟩
    rw [List.length_eq_zero_iff.mp hnil] at hmem
    cases hmem
  constructor
  · rintro ⟨listed, hmet, hpages⟩
    have hpage := hpages 1 1 one_pos one_pos
    have hnone : runtimeEvents gapWarnings gapClauses (eventDatabase gapConditions) gapEvents 1 1 =
        .ok { items := [], total := 0, page := 1, pageSize := 1 } := rfl
    rw [hnone] at hpage
    exact hlisted listed hmet (congrArg NumberedPage.total (Except.ok.inj hpage)).symm
  · rintro ⟨listed, hmet, hpages⟩
    have hnone : runtimeEventsBehind gapWarnings gapClauses (eventDatabase gapConditions) gapEvents
        newYearPlatform [] 1 true =
          .ok { items := [], pageSize := 1, hasMore := false, nextCursor := none, total := some 0 } :=
      rfl
    have htotal := (hpages true).2 _ _ _ hnone
    exact hlisted listed hmet (Option.some.inj htotal).symm

theorem runtime_events_exact_gap :
    ((∃ listed, ListsMet (eventDatabase gapConditions) gapClauses gapWarnings gapEvents listed ∧
        NumberedPagesOf (eventDatabase gapConditions) gapClauses gapWarnings gapEvents listed) ↔
      DerivedSurvives (eventDatabase gapConditions) gapClauses gapWarnings true gapEvents) ∧
    ((∃ listed, ListsMet (eventDatabase gapConditions) gapClauses gapWarnings gapEvents listed ∧
        CursorPagesOf (eventDatabase gapConditions) newYearPlatform gapClauses gapWarnings gapEvents
          listed) ↔
      DerivedSurvives (eventDatabase gapConditions) gapClauses gapWarnings false gapEvents) := by
  refine @runtime_events_exact newYearPlatform gapEvents gapWarnings gapClauses gapConditions _ rfl
    (by decide) ?_ ?_
  · simp [gapEvents, Event.eventTime]
  · simp [gapEvents, Event.eventTime, newYearPlatform]

end CameraLogs.Administration
