import CameraLogs.Administration.RuntimeEvents
import CameraLogs.Administration.EventPages

/-!
# What a composed query of runtime events matches

The query of a page matches the conditions on summary, object and time that it is composed of
(`matches_composed`); the texts that are asked for are among them either as the derived conditions
or, where they are buried, as conditions on the stored fields.
-/

namespace CameraLogs.Administration

open Lib Logs

variable {μ : Type} {db : Database μ} {filters : EventFilters} {clauses : Clauses}

/-! ## The texts -/

theorem matchMembers_eq_all (members : List (List Char × Value)) (event : Event μ) :
    matchMembers db members event =
      members.all fun member => matchMember db member.1 member.2 event := by
  induction members with
  | nil => rfl
  | cons member members ih =>
    obtain ⟨key, condition⟩ := member
    rw [List.all_cons, ← ih]
    rfl

/-- The fields of the texts are none that events are sorted by, nor the database's operators. -/
theorem name_of_mem_conditions {condition : List Char × List Char}
    (h : condition ∈ filters.conditions) :
    condition.1 ∉ [fieldId, fieldCreatedAt, fieldDetectedAt, fieldEventTime, opOr] := by
  obtain ⟨⟨name, value⟩, hmem, hgiven⟩ := List.mem_filterMap.mp h
  obtain ⟨text, -, rfl⟩ := Option.map_eq_some_iff.mp hgiven
  have hname : name ∈ [['t', 'a', 's', 'k', 'I', 'd'], ['n', 'o', 'd', 'e', 'I', 'd'],
      ['t', 'y', 'p', 'e'], filterLevel, filterOutcome,
      ['r', 'e', 'q', 'u', 'e', 's', 't', 'I', 'd']] := List.mem_map_of_mem (f := Prod.fst) hmem
  show name ∉ _
  clear hmem hgiven h
  revert name
  decide

theorem matchMember_condition {condition : List Char × List Char}
    (h : condition ∈ filters.conditions) (event : Event μ) :
    matchMember db condition.1 (.str condition.2) event = holdsStored db condition event := by
  have hsorted : event.sortedField condition.1 = none := by
    have hname := name_of_mem_conditions h
    simp only [List.mem_cons, not_or] at hname
    simp [Event.sortedField, hname]
  simp [matchMember, matchField, hsorted, holdsStored]

theorem matchQuery_query (event : Event μ) :
    matchQuery db filters.query event = filters.conditions.all (holdsStored db · event) := by
  show matchMembers db (filters.conditions.map _) event = _
  rw [matchMembers_eq_all, List.all_map, Bool.eq_iff_iff, List.all_eq_true, List.all_eq_true]
  refine forall₂_congr fun condition h => ?_
  rw [← matchMember_condition h]
  rfl

/-- In the query of the texts the level and the outcome are the derived ones. -/
theorem matches_query (event : Event μ) :
    Matches db filters.query event = filters.conditions.all (holdsDerived db · event) := by
  rw [Bool.eq_iff_iff, Matches, Bool.and_eq_true, matchDerived, List.all_eq_true, List.all_eq_true]
  show matchMembers db ((filters.conditions.map _).filter _) event = true ∧
    (∀ member ∈ (filters.conditions.map _).filter _, _) ↔ _
  rw [matchMembers_eq_all, List.all_eq_true]
  have hsplit (condition : List Char × List Char) (h : condition ∈ filters.conditions) :
      holdsDerived db condition event =
        if condition.1 = filterLevel ∨ condition.1 = filterOutcome then
          db.derivedMatches condition.1 (.str condition.2) event
        else matchMember db condition.1 (.str condition.2) event := by
    rw [matchMember_condition h]
    rfl
  constructor
  · rintro ⟨hplain, hderived⟩ condition h
    have hmem : (condition.1, Value.str condition.2) ∈
        filters.conditions.map fun condition => (condition.1, Value.str condition.2) :=
      List.mem_map.mpr ⟨condition, h, rfl⟩
    rw [hsplit condition h]
    split
    next hname =>
      exact hderived _ (List.mem_filter.mpr ⟨hmem, by simpa using hname⟩)
    next hname =>
      exact hplain _ (List.mem_filter.mpr ⟨hmem, by simpa using hname⟩)
  · intro hall
    constructor
    · intro member hmember
      obtain ⟨hmem, hname⟩ := List.mem_filter.mp hmember
      obtain ⟨condition, h, rfl⟩ := List.mem_map.mp hmem
      have hholds := hall condition h
      rwa [hsplit condition h, if_neg (by simpa using hname)] at hholds
    · intro member hmember
      obtain ⟨hmem, hname⟩ := List.mem_filter.mp hmember
      obtain ⟨condition, h, rfl⟩ := List.mem_map.mp hmem
      have hholds := hall condition h
      rwa [hsplit condition h, if_pos (by simpa using hname)] at hholds

/-! ## Joined conditions -/

/-- A condition joined to a query buries what is in it. -/
theorem matches_andClause (query clause : Value) (event : Event μ) :
    Matches db (andClause query (some clause)) event =
      (matchQuery db query event && matchQuery db clause event) := by
  have hsplit : Matches db (andClause query (some clause)) event =
      (matchQuery db (andClause query (some clause)) event && true) := rfl
  rw [hsplit, Bool.and_true, matchQuery_andClause, Option.all_some]

/-- The conditions of the summary and of the object. -/
def meetsJoined (filters : EventFilters) (clauses : Clauses) (db : Database μ) (event : Event μ) :
    Bool :=
  (given filters.summary).all (fun value => matchQuery db (clauses.summary value) event) &&
    (given filters.object).all fun value =>
      (clauses.object value).toOption.any (matchQuery db · event)

/-- What the query is before the condition of the time: members that no such condition is among. -/
theorem runtimeEventFilters_ok {query : Value}
    (h : runtimeEventFilters clauses filters.query filters.summary filters.object = .ok query) :
    ∃ members : List (List Char × Value), query = .dict members ∧
      (∀ member ∈ members, member.1 ≠ fieldCreatedAt ∧ member.1 ≠ opOr) ∧
      ∀ (db : Database μ) (event : Event μ),
        matchQuery db query event =
          (filters.conditions.all (holdsStored db · event) &&
            meetsJoined filters clauses db event) ∧
        Matches db query event =
          ((if (given filters.summary).isSome || (given filters.object).isSome then
              filters.conditions.all (holdsStored db · event)
            else filters.conditions.all (holdsDerived db · event)) &&
            meetsJoined filters clauses db event) := by
  have hjoined (query clause : Value) : ∃ members, andClause query (some clause) = .dict members ∧
      ∀ member ∈ members, member.1 ≠ fieldCreatedAt ∧ member.1 ≠ opOr :=
    ⟨_, rfl, fun member hmember => by
      rw [List.mem_singleton.mp hmember]
      exact ⟨(by decide : opAnd ≠ fieldCreatedAt), (by decide : opAnd ≠ opOr)⟩⟩
  simp only [runtimeEventFilters] at h
  cases hobject : given filters.object with
  | none =>
    rw [hobject] at h
    obtain rfl := Except.ok.inj h
    cases hsummary : given filters.summary with
    | none =>
      refine ⟨_, rfl, ?_, fun db event => ⟨?_, ?_⟩⟩
      · intro member hmember
        obtain ⟨condition, hcondition, rfl⟩ := List.mem_map.mp hmember
        have hname := name_of_mem_conditions hcondition
        simp only [List.mem_cons, not_or] at hname
        exact ⟨hname.2.1, hname.2.2.2.2.1⟩
      · simp [meetsJoined, hsummary, hobject, andClause, matchQuery_query]
      · simp [meetsJoined, hsummary, hobject, andClause, matches_query]
    | some summary =>
      obtain ⟨members, hmembers, hkeys⟩ := hjoined filters.query (clauses.summary summary)
      refine ⟨members, hmembers, hkeys, fun db event => ⟨?_, ?_⟩⟩
      · simp [meetsJoined, hsummary, hobject, matchQuery_andClause, matchQuery_query]
      · simp [meetsJoined, hsummary, hobject, matches_andClause, matchQuery_query]
  | some object =>
    simp only [hobject] at h
    cases hclause : clauses.object object with
    | error error =>
      rw [hclause] at h
      cases h
    | ok clause =>
      rw [hclause] at h
      obtain rfl := Except.ok.inj h
      obtain ⟨members, hmembers, hkeys⟩ :=
        hjoined (andClause filters.query ((given filters.summary).map clauses.summary)) clause
      refine ⟨members, hmembers, hkeys, fun db event => ⟨?_, ?_⟩⟩
      · simp [meetsJoined, hobject, hclause, matchQuery_andClause, matchQuery_query, Bool.and_assoc,
          Except.toOption, Option.all_map]
      · simp [meetsJoined, hobject, hclause, matches_andClause, matchQuery_andClause,
          matchQuery_query, Bool.and_assoc, Except.toOption, Option.all_map]

/-! ## The time -/

variable {other : OtherConditions} {events : List (Event Document)} {event : Event Document}

theorem eventTime_of_not_hasLegacy {events : List (Event μ)} {event : Event μ}
    (hlegacy : hasLegacy events = false) (hevent : event ∈ events) :
    event.eventTime = event.createdAt := by
  have hnone := List.any_eq_false.mp hlegacy event hevent
  unfold Event.eventTime
  cases hcreated : event.createdAt with
  | some time => rfl
  | none =>
    have hdetected : event.detectedAt = none := by simpa [hcreated] using hnone
    rw [hdetected]
    rfl

theorem matchField_rangeValue {field : List Char} {time : Option Int}
    (hfield : event.sortedField field = some (time.map .date)) (range : Datetime × Datetime) :
    matchField (eventDatabase other) field (rangeValue range) event =
      time.any fun time =>
        utcDatabaseTime range.1 ≤ time && time < utcDatabaseTime range.2 := by
  have hgte : matchOperator (eventDatabase other) field event (time.map .date)
      (opGte, .date range.1) = time.any fun time => utcDatabaseTime range.1 ≤ time := by
    have hother : matchOperator (eventDatabase other) field event (time.map .date)
        (opGte, .date range.1) = matchCondition other field (.dict [(opGte, .date range.1)]) event :=
      rfl
    have hcondition : matchCondition other field (.dict [(opGte, .date range.1)]) event =
        dateGte (time.map .date) range.1 := by
      unfold matchCondition
      rw [hfield]
      rfl
    rw [hother, hcondition]
    cases time <;> rfl
  have hlt : matchOperator (eventDatabase other) field event (time.map .date)
      (opLt, .date range.2) = time.any fun time => time < utcDatabaseTime range.2 := by
    cases time <;> rfl
  unfold matchField
  rw [hfield]
  show (matchOperator (eventDatabase other) field event (time.map .date) (opGte, .date range.1) &&
    (matchOperator (eventDatabase other) field event (time.map .date) (opLt, .date range.2) &&
      true)) = _
  rw [hgte, hlt]
  cases time with
  | none => rfl
  | some time => simp

/-- The condition of both times is one of the time of the event. -/
theorem matchQuery_legacyRange (range : Datetime × Datetime) (event : Event Document) :
    matchQuery (eventDatabase other) (legacyRange (rangeValue range)) event =
      inRange range event := by
  have hcreated : matchField (eventDatabase other) fieldCreatedAt (rangeValue range) event = _ :=
    matchField_rangeValue rfl range
  have hdetected : matchField (eventDatabase other) fieldDetectedAt (rangeValue range) event = _ :=
    matchField_rangeValue rfl range
  have hnone : matchField (eventDatabase other) fieldCreatedAt .none event =
      event.createdAt.isNone := by
    show (event.createdAt.map Bson.date).isNone = _
    rw [Option.isNone_map]
  have hclause : matchQuery (eventDatabase other) (legacyRange (rangeValue range)) event =
      (matchField (eventDatabase other) fieldCreatedAt (rangeValue range) event ||
        (matchField (eventDatabase other) fieldCreatedAt .none event &&
          matchField (eventDatabase other) fieldDetectedAt (rangeValue range) event)) := by
    simp [legacyRange, rangeValue, matchQuery, matchMembers, matchMember, matchAny, opOr, opAnd]
  rw [hclause, hcreated, hdetected, hnone, inRange, Event.eventTime]
  cases event.createdAt with
  | some time => simp
  | none => simp

theorem splitDerivedFilters_append (members : List (List Char × Value)) {key : List Char}
    (value : Value) (hlevel : key ≠ filterLevel) (houtcome : key ≠ filterOutcome) :
    (splitDerivedFilters (.dict (members ++ [(key, value)]))).2 =
        (splitDerivedFilters (.dict members)).2 ∧
      ∃ plain, (splitDerivedFilters (.dict members)).1 = .dict plain ∧
        (splitDerivedFilters (.dict (members ++ [(key, value)]))).1 =
          .dict (plain ++ [(key, value)]) := by
  simp [splitDerivedFilters, hlevel, houtcome]

/-- A further member of a query is a condition beside the others. -/
theorem matches_append {db : Database Document} (members : List (List Char × Value))
    {key : List Char} (value : Value) (hlevel : key ≠ filterLevel)
    (houtcome : key ≠ filterOutcome) :
    Matches db (.dict (members ++ [(key, value)])) event =
      (Matches db (.dict members) event && matchQuery db (.dict [(key, value)]) event) := by
  obtain ⟨hderived, plain, hplain, hmore⟩ :=
    splitDerivedFilters_append members value hlevel houtcome
  have hone : matchQuery db (.dict (plain ++ [(key, value)])) event =
      (matchQuery db (.dict plain) event && matchQuery db (.dict [(key, value)]) event) := by
    show matchMembers db (plain ++ [(key, value)]) event =
      (matchMembers db plain event && matchMembers db [(key, value)] event)
    rw [matchMembers_eq_all, matchMembers_eq_all, matchMembers_eq_all, List.all_append]
  rw [Matches, hderived, hmore, hone, Matches, hplain, Bool.and_right_comm]

/-- A condition of the time set in a query is one beside the others. -/
theorem matches_withTimeRange {members : List (List Char × Value)}
    (hkeys : ∀ member ∈ members, member.1 ≠ fieldCreatedAt ∧ member.1 ≠ opOr)
    (timeRange : Option (Datetime × Datetime)) {legacy : Bool}
    (htime : legacy = false → event.eventTime = event.createdAt) :
    Matches (eventDatabase other) (withTimeRange legacy (timeRange.map rangeValue) (.dict members))
        event =
      (Matches (eventDatabase other) (.dict members) event && timeRange.all (inRange · event)) := by
  cases timeRange with
  | none => exact (Bool.and_true _).symm
  | some range =>
    have hupsert (member : List Char × Value) (h : ∀ m ∈ members, m.1 ≠ member.1) :
        Dict.upsert Prod.fst member members = members ++ [member] := by
      refine Dict.upsert_of_not_mem fun hmem => ?_
      obtain ⟨m, hm, heq⟩ := List.mem_map.mp hmem
      exact h m hm heq
    cases legacy with
    | true =>
      show Matches _ (.dict (Dict.upsert Prod.fst (opOr, .list [.dict [(fieldCreatedAt,
        rangeValue range)], .dict [(fieldCreatedAt, .none), (fieldDetectedAt, rangeValue range)]])
          members)) event = _
      rw [hupsert _ fun m hm => (hkeys m hm).2, matches_append members _ (by decide) (by decide)]
      exact congrArg (Matches _ _ event && ·) (matchQuery_legacyRange range event)
    | false =>
      show Matches _ (.dict (Dict.upsert Prod.fst (fieldCreatedAt, rangeValue range) members))
        event = _
      rw [hupsert _ fun m hm => (hkeys m hm).1, matches_append members _ (by decide) (by decide)]
      refine congrArg (Matches _ _ event && ·) ?_
      show (matchField (eventDatabase other) fieldCreatedAt (rangeValue range) event && true) = _
      rw [Bool.and_true, matchField_rangeValue rfl, ← htime rfl]
      rfl

/-! ## The query of a page -/

/-- The query of a numbered page, or of one behind a cursor. -/
def pageQuery (numbered legacy : Bool) (timeRange : Option Value) (query : Value) : Value :=
  if numbered then pageTimeRange legacy timeRange query else withTimeRange legacy timeRange query

theorem matches_composed {query : Value}
    (h : runtimeEventFilters clauses filters.query filters.summary filters.object = .ok query)
    (numbered : Bool) (hevent : event ∈ events) :
    Matches (eventDatabase other) (pageQuery numbered (hasLegacy events)
        (filters.timeRange.map rangeValue) query) event =
      ((if buried filters numbered (hasLegacy events) then
          filters.conditions.all (holdsStored (eventDatabase other) · event)
        else filters.conditions.all (holdsDerived (eventDatabase other) · event)) &&
        meetsClauses filters clauses (eventDatabase other) event) := by
  obtain ⟨members, rfl, hkeys, hmatches⟩ := @runtimeEventFilters_ok Document _ _ _ h
  obtain ⟨hstored, hderived⟩ := hmatches (eventDatabase other) event
  have hset (legacy : Bool) (htime : legacy = false → event.eventTime = event.createdAt) :=
    @matches_withTimeRange other event members hkeys filters.timeRange legacy htime
  cases hlegacy : hasLegacy events with
  | false =>
    have htime := eventTime_of_not_hasLegacy hlegacy hevent
    have hquery : pageQuery numbered false (filters.timeRange.map rangeValue) (.dict members) =
        withTimeRange false (filters.timeRange.map rangeValue) (.dict members) := by
      cases numbered <;> rfl
    rw [hquery, hset false fun _ => htime, hderived]
    simp [buried, meetsClauses, meetsJoined, Bool.and_assoc]
  | true =>
    cases numbered with
    | false =>
      have hquery : pageQuery false true (filters.timeRange.map rangeValue) (.dict members) =
          withTimeRange true (filters.timeRange.map rangeValue) (.dict members) := rfl
      rw [hquery, hset true nofun, hderived]
      simp [buried, meetsClauses, meetsJoined, Bool.and_assoc]
    | true =>
      have hquery : pageQuery true true (filters.timeRange.map rangeValue) (.dict members) =
          andClause (.dict members) ((filters.timeRange.map rangeValue).map legacyRange) := rfl
      rw [hquery]
      cases hrange : filters.timeRange with
      | none =>
        rw [Option.map_none, Option.map_none, andClause, hderived]
        simp [buried, meetsClauses, meetsJoined, hrange]
      | some range =>
        rw [Option.map_some, Option.map_some, matches_andClause, hstored, matchQuery_legacyRange]
        simp [buried, meetsClauses, meetsJoined, hrange, Bool.and_assoc]

end CameraLogs.Administration
