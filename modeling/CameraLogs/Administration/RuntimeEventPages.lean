import CameraLogs.Administration.RuntimeEventFilters

/-!
# Listing runtime events

Both kinds of pages are pages of one list: the events that the composed query matches, by their
time, with the time that they are shown with (`runtimeEventPage_eq`, `runtimeEventCursorPage_walk`).
What the list has to do with the conditions that are given is the matter of `matches_composed`.
-/

namespace CameraLogs.Administration

open Lib Logs

variable {μ : Type} {db : Database μ} {platform : Platform} {events : List (Event μ)}

/-- The events that match by their time. -/
def matchingEvents (db : Database μ) (query : Value) (events : List (Event μ)) : List (Event μ) :=
  sortEvents Event.eventTime (events.filter (Matches db query))

theorem mem_matchingEvents {query : Value} {event : Event μ} :
    event ∈ matchingEvents db query events ↔ event ∈ events ∧ Matches db query event = true := by
  rw [matchingEvents, mem_sortEvents, List.mem_filter]

theorem matchingEvents_strict {query : Value} (hids : (events.map (·.id)).Nodup) :
    (matchingEvents db query events).Pairwise
      fun a b => a.sortKey Event.eventTime > b.sortKey Event.eventTime :=
  sortEvents_strict (nodup_ids_filter hids _)

theorem length_matchingEvents (query : Value) :
    (matchingEvents db query events).length = (events.filter (Matches db query)).length :=
  (List.perm_insertionSort _ _).length_eq

/-- Sorting by a time that the events of the list agree on. -/
theorem sortEvents_congr {time time' : Event μ → Option Int} {l : List (Event μ)}
    (hids : (l.map (·.id)).Nodup) (h : ∀ event ∈ l, time event = time' event) :
    sortEvents time l = sortEvents time' l := by
  refine eq_of_strict (sortEvents_strict hids) ?_ fun event => by
    rw [mem_sortEvents, mem_sortEvents]
  refine (@sortEvents_strict μ time' l hids).imp_of_mem fun {a b} ha hb hab => ?_
  rwa [Event.sortKey, Event.sortKey, h a (mem_sortEvents.mp ha), h b (mem_sortEvents.mp hb)]

theorem sortEvents_filter {time : Event μ → Option Int} {l : List (Event μ)}
    (hids : (l.map (·.id)).Nodup) (p : Event μ → Bool) :
    (sortEvents time l).filter p = sortEvents time (l.filter p) := by
  refine eq_of_strict ((sortEvents_strict hids).filter _)
    (sortEvents_strict (nodup_ids_filter hids _)) fun event => ?_
  rw [List.mem_filter, mem_sortEvents, mem_sortEvents, List.mem_filter]

/-! ## Events without old times -/

section WithoutLegacy

variable (hlegacy : hasLegacy events = false)
include hlegacy

theorem map_dated {l : List (Event μ)} (hl : ∀ event ∈ l, event ∈ events) :
    l.map Event.dated = l := by
  refine (List.map_congr_left fun event hevent => ?_).trans (List.map_id l)
  rw [Event.dated, eventTime_of_not_hasLegacy hlegacy (hl event hevent)]
  rfl

theorem matchingEvents_created (hids : (events.map (·.id)).Nodup) (query : Value) :
    listedEvents db query events = matchingEvents db query events :=
  sortEvents_congr (nodup_ids_filter hids _) fun _ hevent =>
    (eventTime_of_not_hasLegacy hlegacy (List.mem_filter.mp hevent).1).symm

end WithoutLegacy

/-! ## Numbered pages -/

theorem matches_of_no_derived {query : Value} (h : (splitDerivedFilters query).2.isEmpty = true) :
    Matches db query = matchQuery db (splitDerivedFilters query).1 := by
  funext event
  rw [Matches, List.isEmpty_iff.mp h]
  exact Bool.and_true _

theorem filter_matches (query : Value) :
    (events.filter (matchQuery db (splitDerivedFilters query).1)).filter
      (matchDerived db (splitDerivedFilters query).2) = events.filter (Matches db query) := by
  rw [List.filter_filter]
  exact List.filter_congr fun event _ => Bool.and_comm _ _

theorem mem_of_mem_pageOf {page pageSize : Nat} {l : List (Event μ)} {event : Event μ}
    (h : event ∈ pageOf page pageSize l) : event ∈ l :=
  List.mem_of_mem_drop (List.mem_of_mem_take h)

theorem runtimeEventPage_eq (hids : (events.map (·.id)).Nodup) (query : Value)
    (page pageSize : Nat) (timeRange : Option Value) :
    runtimeEventPage db events query page pageSize timeRange =
      let matching := matchingEvents db (pageQuery true (hasLegacy events) timeRange query) events
      { items := (pageOf page pageSize matching).map Event.dated, total := matching.length,
        page, pageSize } := by
  have hquery : pageQuery true (hasLegacy events) timeRange query =
      pageTimeRange (hasLegacy events) timeRange query := rfl
  rw [runtimeEventPage, hquery]
  generalize pageTimeRange (hasLegacy events) timeRange query = query
  cases hlegacy : hasLegacy events with
  | true =>
    simp only [if_true]
    rw [length_matchingEvents]
    by_cases hnone : (splitDerivedFilters query).2.isEmpty = true
    · rw [matchingEvents, matches_of_no_derived hnone, if_pos hnone, List.countP_eq_length_filter]
    · rw [if_neg hnone, derivedPage, filter_matches]
      rfl
  | false =>
    simp only [Bool.false_eq_true, if_false]
    have hdated : (pageOf page pageSize (matchingEvents db query events)).map Event.dated =
        pageOf page pageSize (matchingEvents db query events) :=
      map_dated hlegacy fun event hevent => (mem_matchingEvents.mp (mem_of_mem_pageOf hevent)).1
    rw [hdated, length_matchingEvents, ← matchingEvents_created hlegacy hids, listedEvents]
    simp only [eventPage]
    by_cases hnone : (splitDerivedFilters query).2.isEmpty = true
    · rw [matches_of_no_derived hnone, if_pos hnone, List.countP_eq_length_filter]
    · rw [if_neg hnone, derivedPage, filter_matches]
      simp only [Bool.false_eq_true, if_false]
      rw [sortEvents_filter (nodup_ids_filter hids _), filter_matches]

/-! ## Pages behind a cursor -/

theorem countEvents_eq (query : Value) (includeTotal : Bool) :
    countEvents db events query includeTotal =
      if includeTotal then some (matchingEvents db query events).length else none := by
  rw [length_matchingEvents, ← List.countP_eq_length_filter]
  rfl

/-- A page has the total that was counted for it. -/
theorem total_of_present {collection : List Char} {query : Value} {legacyTime : Bool}
    {pageSize : Nat} {total : Option Nat} {items : List (Event μ)} {page : EventPage μ}
    (h : presentCursorPage platform collection query legacyTime pageSize total items = .ok page) :
    page.total = total := by
  unfold presentCursorPage at h
  simp only at h
  split at h
  · cases h
    rfl
  · rename_i last _
    cases hencode : encodeEventCursor platform collection query legacyTime
        ((if legacyTime then last.eventTime else last.createdAt).map .aware) last.id with
    | error error =>
      simp only [hencode] at h
      cases h
    | ok text =>
      simp only [hencode] at h
      cases h
      rfl

theorem runtimeEventCursorPage_legacy (hlegacy : hasLegacy events = true) (query : Value)
    (cursor : List Char) (limit : Nat) (timeRange : Option Value) (includeTotal : Bool) :
    runtimeEventCursorPage db platform events query cursor limit timeRange includeTotal =
      let query := pageQuery false true timeRange query
      (readCursor platform cursor eventsCollection query true).bind fun anchor =>
        presentCursorPage platform eventsCollection query true limit
          (countEvents db events query includeTotal)
          (((sortEvents Event.eventTime
            (match cursorClause fieldEventTime anchor with
            | none => events.filter (matchQuery db (splitDerivedFilters query).1)
            | some clause => (events.filter (matchQuery db (splitDerivedFilters query).1)).filter
                (matchQuery db clause))).filter
            (matchDerived db (splitDerivedFilters query).2)).take (limit + 1)) := by
  unfold runtimeEventCursorPage
  rw [if_pos hlegacy, hlegacy]
  rfl

theorem runtimeEventCursorPage_without (hlegacy : hasLegacy events = false) (query : Value)
    (cursor : List Char) (limit : Nat) (timeRange : Option Value) (includeTotal : Bool) :
    runtimeEventCursorPage db platform events query cursor limit timeRange includeTotal =
      eventCursorPage db platform events eventsCollection (pageQuery false false timeRange query)
        cursor limit includeTotal := by
  unfold runtimeEventCursorPage
  rw [hlegacy]
  rfl

theorem runtimeEventCursorPage_total {query : Value} {cursor : List Char} {pageSize : Nat}
    {timeRange : Option Value} {includeTotal : Bool} {page : EventPage μ}
    (h : runtimeEventCursorPage db platform events query cursor pageSize timeRange includeTotal =
      .ok page) :
    page.total = if includeTotal then
      some (matchingEvents db (pageQuery false (hasLegacy events) timeRange query) events).length
        else none := by
  rw [← countEvents_eq]
  cases hlegacy : hasLegacy events with
  | true =>
    rw [runtimeEventCursorPage_legacy hlegacy] at h
    cases hread : readCursor platform cursor eventsCollection (pageQuery false true timeRange query)
        true with
    | error error =>
      simp only [hread] at h
      cases h
    | ok anchor =>
      simp only [hread] at h
      exact total_of_present h
  | false =>
    rw [runtimeEventCursorPage_without hlegacy] at h
    cases hread : readCursor platform cursor eventsCollection
        (pageQuery false false timeRange query) false with
    | error error =>
      unfold eventCursorPage at h
      rw [hread] at h
      cases h
    | ok anchor =>
      rw [eventCursorPage_eq hread] at h
      exact total_of_present h

/-- The events of a page behind a cursor, of which those of old times are some. -/
theorem found_behind_legacy (hids : (events.map (·.id)).Nodup)
    (htimes : ∀ event ∈ events, event.eventTime.isSome) (query : Value)
    (anchor : Option EventCursorAnchor) :
    (sortEvents Event.eventTime
      (match cursorClause fieldEventTime anchor with
      | none => events.filter (matchQuery db (splitDerivedFilters query).1)
      | some clause => (events.filter (matchQuery db (splitDerivedFilters query).1)).filter
          (matchQuery db clause))).filter (matchDerived db (splitDerivedFilters query).2) =
      behind (Event.sortKey Event.eventTime) (· > ·) (matchingEvents db query events)
        (anchor.map fun anchor => toLex (some anchor.eventTime, anchor.identifier.key)) := by
  cases anchor with
  | none =>
    show (sortEvents _ (events.filter _)).filter _ = behind _ _ _ none
    rw [behind_none, sortEvents_filter (nodup_ids_filter hids _), filter_matches]
    rfl
  | some anchor =>
    show (sortEvents _ ((events.filter _).filter (matchQuery db (afterEventCursorClause
      fieldEventTime (.aware anchor.eventTime) anchor.identifier)))).filter _ = _
    have hsorted := nodup_ids_filter hids (matchQuery db (splitDerivedFilters query).1)
    rw [sortEvents_filter (nodup_ids_filter hsorted _), List.filter_filter, List.filter_filter]
    have hfound : events.filter (fun event => matchDerived db (splitDerivedFilters query).2 event &&
          matchQuery db (afterEventCursorClause fieldEventTime (.aware anchor.eventTime)
            anchor.identifier) event && matchQuery db (splitDerivedFilters query).1 event) =
        (events.filter (Matches db query)).filter fun event =>
          decide ((toLex (some anchor.eventTime, anchor.identifier.key) : SortKey) >
            event.sortKey Event.eventTime) := by
      rw [List.filter_filter]
      refine List.filter_congr fun event hevent => ?_
      obtain ⟨instant, hinstant⟩ := Option.isSome_iff_exists.mp (htimes event hevent)
      rw [@matchQuery_behind μ db event fieldEventTime Event.eventTime rfl anchor.eventTime
        anchor.identifier instant hinstant, Matches]
      simp only [gt_iff_lt, Bool.and_comm, Bool.and_left_comm, Bool.and_assoc]
    rw [hfound, ← sortEvents_filter (nodup_ids_filter hids _)]
    rfl

end CameraLogs.Administration
