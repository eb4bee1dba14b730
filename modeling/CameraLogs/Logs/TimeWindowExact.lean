import CameraLogs.Logs.TimeWindow
import CameraLogs.Logs.NamingStable
import Mathlib.Tactic.Ring

/-!
# A range of time has exactly its hours

The texts of instants are in the order of the instants (`utcIso_lt`): their fields have fixed
widths, and a fraction comes behind the sign of the offset. What lies between the ends of a
search as an instant therefore lies between their texts.

The hours of a range are those from the hour of its start up to its end, which a range that
reaches into the last hour of the calendar is refused for, since that hour has no end.
-/

namespace CameraLogs.Logs

open Lib

/-! ## The order of texts -/

theorem append_lt_append_of_lt {front other : List Char} (hlength : front.length = other.length)
    (h : front < other) (back rest : List Char) : front ++ back < other ++ rest := by
  induction front generalizing other with
  | nil =>
    rw [List.length_eq_zero_iff.mp hlength.symm] at h
    exact absurd h (List.lt_irrefl [])
  | cons c front ih =>
    cases other with
    | nil => cases hlength
    | cons d other =>
      rw [List.cons_append, List.cons_append, List.cons_lt_cons_iff]
      rw [List.cons_lt_cons_iff] at h
      obtain hlt | ⟨heq, hlt⟩ := h
      · exact .inl hlt
      · exact .inr ⟨heq, ih (Nat.succ.inj hlength) hlt⟩

theorem append_lt_append_left (front : List Char) {back rest : List Char} (h : back < rest) :
    front ++ back < front ++ rest := by
  induction front with
  | nil => exact h
  | cons c front ih => exact List.cons_lt_cons_iff.mpr (.inr ⟨rfl, ih⟩)

theorem digitChar_lt : ∀ n < 10, ∀ m < n, Nat.digitChar m < Nat.digitChar n := by decide

/-- A digit more at the end. -/
theorem padded_succ {width : Nat} (hwidth : 0 < width) (number : Nat) :
    padded (width + 1) number = padded width (number / 10) ++ [Nat.digitChar (number % 10)] := by
  unfold padded
  dsimp only
  by_cases hsmall : number < 10
  · rw [Nat.toDigits_of_lt_base hsmall, Nat.div_eq_of_lt hsmall, Nat.mod_eq_of_lt hsmall,
      Nat.toDigits_zero]
    obtain ⟨width, rfl⟩ := Nat.exists_eq_add_of_le' hwidth
    rw [List.length_singleton, List.length_singleton, Nat.add_sub_cancel, Nat.add_sub_cancel,
      List.replicate_succ']
  · rw [Nat.toDigits_of_base_le (by decide) (Nat.not_lt.mp hsmall), List.length_append,
      List.length_singleton, Nat.add_sub_add_right, List.append_assoc]

theorem padded_lt {width : Nat} (hwidth : 0 < width) {m n : Nat} (hn : n < 10 ^ width) (h : m < n) :
    padded width m < padded width n := by
  induction width, hwidth using Nat.le_induction generalizing m n with
  | base =>
    have hn' : n < 10 := hn
    unfold padded
    rw [Nat.toDigits_of_lt_base (h.trans hn'), Nat.toDigits_of_lt_base hn']
    exact List.cons_lt_cons_iff.mpr (.inl (digitChar_lt n hn' m h))
  | succ width hwidth ih =>
    rw [padded_succ hwidth, padded_succ hwidth]
    have hn' : n / 10 < 10 ^ width := by
      rw [Nat.div_lt_iff_lt_mul (by decide)]
      exact hn
    obtain hlt | heq := Nat.lt_or_eq_of_le (Nat.div_le_div_right (c := 10) h.le)
    · refine append_lt_append_of_lt ?_ (ih hn' hlt) _ _
      rw [length_padded hwidth (hlt.trans hn'), length_padded hwidth hn']
    · rw [heq]
      refine append_lt_append_left _ (List.cons_lt_cons_iff.mpr (.inl ?_))
      exact digitChar_lt _ (Nat.mod_lt n (by decide)) _ (by omega)

/-- A field decides, or else what is behind it. -/
theorem field_lt {width : Nat} (hwidth : 0 < width) {m n : Nat} {back rest : List Char}
    (hn : n < 10 ^ width) (h : m < n ∨ (m = n ∧ back < rest)) :
    padded width m ++ back < padded width n ++ rest := by
  obtain hlt | ⟨rfl, hlt⟩ := h
  · refine append_lt_append_of_lt ?_ (padded_lt hwidth hn hlt) back rest
    rw [length_padded hwidth (hlt.trans hn), length_padded hwidth hn]
  · exact append_lt_append_left _ hlt

theorem separated_lt (c : Char) {back rest : List Char} (h : back < rest) : c :: back < c :: rest :=
  List.cons_lt_cons_iff.mpr (.inr ⟨rfl, h⟩)

/-! ## The texts of instants -/

/-- The text of a time of day, in microseconds. -/
def timeText (time : Nat) : List Char :=
  padded 2 (time / 1000000 / 3600) ++ (':' :: (padded 2 (time / 1000000 / 60 % 60) ++
    (':' :: (padded 2 (time / 1000000 % 60) ++
      ((if time % 1000000 = 0 then [] else ['.'] ++ padded 6 (time % 1000000)) ++
        "+00:00".toList)))))

theorem utcIso_eq (instant : Int) :
    utcIso instant = padded 4 (Date.ofOrdinal (ordinalAt instant).toNat).year ++
      ('-' :: (padded 2 (Date.ofOrdinal (ordinalAt instant).toNat).month ++
        ('-' :: (padded 2 (Date.ofOrdinal (ordinalAt instant).toNat).day ++
          ('T' :: timeText (instant % dayLength).toNat))))) := by
  unfold utcIso timeText
  simp only [List.append_assoc, List.cons_append, List.nil_append]

/-- A fraction stands behind none, as a point does behind a plus sign. -/
theorem fraction_lt {micros later : Nat} (hlater : later < 1000000) (h : micros < later) :
    (if micros = 0 then [] else ['.'] ++ padded 6 micros) ++ "+00:00".toList <
      (if later = 0 then [] else ['.'] ++ padded 6 later) ++ "+00:00".toList := by
  rw [if_neg (Nat.ne_of_gt (Nat.zero_lt_of_lt h))]
  by_cases hzero : micros = 0
  · rw [if_pos hzero]
    exact List.cons_lt_cons_iff.mpr (.inl (by decide))
  · rw [if_neg hzero, List.append_assoc, List.append_assoc]
    exact separated_lt '.' (field_lt (by decide) hlater (.inl h))

theorem timeText_lt {time later : Nat} (hlater : later < 86400000000) (h : time < later) :
    timeText time < timeText later := by
  have hhour : later / 1000000 / 3600 < 10 ^ 2 := by omega
  have hminute : later / 1000000 / 60 % 60 < 10 ^ 2 := by omega
  have hsecond : later / 1000000 % 60 < 10 ^ 2 := by omega
  have hmicros : later % 1000000 < 1000000 := Nat.mod_lt _ (by decide)
  refine field_lt (by decide) hhour ?_
  by_cases h1 : time / 1000000 / 3600 < later / 1000000 / 3600
  · exact .inl h1
  refine .inr ⟨by omega, separated_lt ':' (field_lt (by decide) hminute ?_)⟩
  by_cases h2 : time / 1000000 / 60 % 60 < later / 1000000 / 60 % 60
  · exact .inl h2
  refine .inr ⟨by omega, separated_lt ':' (field_lt (by decide) hsecond ?_)⟩
  by_cases h3 : time / 1000000 % 60 < later / 1000000 % 60
  · exact .inl h3
  exact .inr ⟨by omega, fraction_lt hmicros (by omega)⟩

/-- The texts of instants are in the order of the instants. -/
theorem utcIso_lt {instant later : Int} (hin : InCalendar instant) (hlater : InCalendar later)
    (h : instant < later) : utcIso instant < utcIso later := by
  have hday : dayLength = 86400000000 := rfl
  have hupto := hlater.2
  unfold lastOrdinal at hupto
  have hvalid := Date.valid_ofOrdinal (ordinalAt later).toNat
  have hyear : (Date.ofOrdinal (ordinalAt later).toNat).year < 10 ^ 4 :=
    year_lt (Int.toNat_le.mpr hupto)
  have hmonth : (Date.ofOrdinal (ordinalAt later).toNat).month < 10 ^ 2 := by
    have hlast := hvalid.2.2.1
    omega
  have hdate : (Date.ofOrdinal (ordinalAt later).toNat).day < 10 ^ 2 := by
    have hlast := Date.day_le hvalid
    omega
  rw [utcIso_eq, utcIso_eq]
  obtain hless | hsame : ordinalAt instant < ordinalAt later ∨
      (ordinalAt instant = ordinalAt later ∧ instant % dayLength < later % dayLength) := by
    unfold ordinalAt
    rw [hday]
    omega
  · have hlow := hin.1
    have hbefore := Date.ofOrdinal_before (Int.lt_toNat.mpr hin.1)
      ((Int.toNat_lt_toNat (by omega)).mpr hless)
    refine field_lt (by decide) hyear (hbefore.imp_right fun hyears => ⟨hyears.1, ?_⟩)
    refine separated_lt '-' (field_lt (by decide) hmonth (hyears.2.imp_right fun hmonths => ⟨hmonths.1, ?_⟩))
    exact separated_lt '-' (field_lt (by decide) hdate (.inl hmonths.2))
  · rw [hsame.1]
    refine append_lt_append_left _ (separated_lt '-' (append_lt_append_left _ (separated_lt '-' ?_)))
    refine append_lt_append_left _ (separated_lt 'T' (timeText_lt ?_ ?_))
    · rw [hday]
      omega
    · rw [hday] at hsame ⊢
      omega

/-! ## The hours of a range -/

/-- A local hour, counted from the first of January 1970, starts at this instant. -/
def hourStart (hour : Int) : Int := hour * hourLength - shanghaiOffset

/-- The hour has an instant in common with the times from `start` on and before `stop`. -/
def HourMeets (start stop hour : Int) : Prop :=
  hourStart hour < stop ∧ start < hourStart (hour + 1)

/-- The last local hour of the calendar. -/
def lastHour : Int := (lastOrdinal - epochOrdinal + 1) * 24 - 1

/-- The hours of a range, in order. -/
structure HoursOf (start stop : Int) (hours : List Int) : Prop where
  ordered : hours.Pairwise (· < ·)
  mem : ∀ hour, hour ∈ hours ↔ HourMeets start stop hour

theorem hourLength_eq : hourLength = 3600000000 := rfl

theorem shanghaiOffset_eq : shanghaiOffset = 28800000000 := rfl

/-- The hours from one on, so many. -/
def hoursFrom (first : Int) (count : Nat) : List Int := (List.range count).map fun k : Nat => first + (k : Int)

theorem mem_hoursFrom {first hour : Int} {count : Nat} :
    hour ∈ hoursFrom first count ↔ first ≤ hour ∧ hour < first + count := by
  unfold hoursFrom
  rw [List.mem_map]
  refine ⟨?_, fun h => ⟨(hour - first).toNat, List.mem_range.mpr (by omega), by omega⟩⟩
  rintro ⟨k, hk, rfl⟩
  have hlt := List.mem_range.mp hk
  omega

theorem hoursFrom_ordered (first : Int) (count : Nat) :
    (hoursFrom first count).Pairwise (· < ·) := by
  unfold hoursFrom
  refine List.pairwise_map.mpr (List.pairwise_lt_range.imp fun h => ?_)
  omega

theorem length_hoursFrom (first : Int) (count : Nat) : (hoursFrom first count).length = count := by
  unfold hoursFrom
  rw [List.length_map, List.length_range]

/-- The local end of the last hour that a time reaches. -/
def hourEnd (time : Int) : Int :=
  if time = hourFloor time then time else hourFloor time + hourLength

/-- The hours of a range go from the one of its start to the end of its last one. -/
theorem hoursOf_range {start stop : Int} (hlt : start < stop) :
    ∃ first count, HoursOf start stop (hoursFrom first count) ∧ 0 < count ∧
      hourFloor (start + shanghaiOffset) = first * hourLength ∧
      hourEnd (stop + shanghaiOffset) = (first + count) * hourLength := by
  obtain ⟨first, hfirst⟩ : ∃ first, first = (start + shanghaiOffset) / hourLength := ⟨_, rfl⟩
  obtain ⟨upto, hupto⟩ : ∃ upto, upto = (stop + shanghaiOffset + hourLength - 1) / hourLength := ⟨_, rfl⟩
  rw [shanghaiOffset_eq, hourLength_eq] at hfirst hupto
  have hless : first < upto := by omega
  obtain ⟨count, hcount⟩ : ∃ count : Nat, upto = first + count := ⟨(upto - first).toNat, by omega⟩
  refine ⟨first, count, ⟨hoursFrom_ordered _ _, fun hour => ?_⟩, ?_, ?_, ?_⟩
  · rw [mem_hoursFrom]
    unfold HourMeets hourStart
    rw [shanghaiOffset_eq, hourLength_eq]
    omega
  · omega
  · unfold hourFloor
    rw [shanghaiOffset_eq, hourLength_eq, ← hfirst]
  · unfold hourEnd hourFloor
    rw [shanghaiOffset_eq, hourLength_eq]
    split <;> omega

/-- The text that the catalogue has for an hour. -/
def hourKey (hour : Int) : List Char := utcIso (hourStart hour)

/-- The loop goes through the hours. -/
theorem hoursUntil_eq (first : Int) (count : Nat) :
    hoursUntil ((first + count) * hourLength) (first * hourLength) =
      (hoursFrom first count).map hourKey := by
  have hpos : (0 : Int) < hourLength := by decide
  induction count generalizing first with
  | zero =>
    unfold hoursUntil
    rw [dif_neg (by simp)]
    rfl
  | succ count ih =>
    have hlt : first * hourLength < (first + ((count + 1 : Nat) : Int)) * hourLength :=
      Int.mul_lt_mul_of_pos_right (by omega) hpos
    have hnext : first * hourLength + hourLength = (first + 1) * hourLength := by ring
    have hlast : first + ((count + 1 : Nat) : Int) = first + 1 + (count : Int) := by omega
    have hhours : hoursFrom first (count + 1) = first :: hoursFrom (first + 1) count := by
      unfold hoursFrom
      rw [List.range_succ_eq_map, List.map_cons, List.map_map]
      refine List.cons_eq_cons.mpr ⟨by simp, List.map_congr_left fun k _ => ?_⟩
      simp only [Function.comp_apply, Nat.succ_eq_add_one, Nat.cast_add, Nat.cast_one]
      omega
    unfold hoursUntil
    rw [dif_pos hlt, hnext, hlast, ih, hhours, List.map_cons]
    rfl

/-! ## Downloads -/

variable {fromisoformat : String → Option WallTime} {since upto : String} {start stop : CalendarTime}

theorem calendarTime_eq {instant : Int} (h : InCalendar instant) :
    calendarTime instant = some ⟨instant, h⟩ := dif_pos h

theorem calendarTime_none {instant : Int} (h : ¬ InCalendar instant) :
    calendarTime instant = none := dif_neg h

theorem inCalendar_iff (instant : Int) : InCalendar instant ↔
    -62135596800000000 ≤ instant ∧ instant < 253402300800000000 := by
  unfold InCalendar ordinalAt lastOrdinal epochOrdinal dayLength
  rw [hourLength_eq]
  omega

theorem lastHour_eq : lastHour = 70389527 := rfl

theorem hourEnd_le (time : Int) : time ≤ hourEnd time := by
  unfold hourEnd hourFloor
  rw [hourLength_eq]
  split <;> omega

theorem hourCeiling_eq (time : CalendarTime) : hourCeiling time = calendarTime (hourEnd time.instant) := by
  unfold hourCeiling hourEnd
  dsimp only
  split
  next => exact (calendarTime_eq time.within).symm
  next => rfl

/-- Where the last hour of a local time ends within the calendar, the time is there as well. -/
theorem bind_hourCeiling {time : Int} (hlow : -62135596800000000 ≤ time) :
    (calendarTime time).bind hourCeiling = calendarTime (hourEnd time) := by
  by_cases h : InCalendar time
  · rw [calendarTime_eq h]
    exact hourCeiling_eq ⟨time, h⟩
  · have hend := hourEnd_le time
    have hout : ¬ InCalendar (hourEnd time) := by
      rw [inCalendar_iff] at h ⊢
      omega
    rw [calendarTime_none h, calendarTime_none hout]
    rfl

/-- What a download has of the hours of its range. -/
theorem rangeHourIds_eq (hstart : parseApiDatetime fromisoformat since = some start)
    (hstop : parseApiDatetime fromisoformat upto = some stop) (hlt : start.instant < stop.instant)
    (first : Int) (count : Nat)
    (hfloor : hourFloor (start.instant + shanghaiOffset) = first * hourLength)
    (hend : hourEnd (stop.instant + shanghaiOffset) = (first + count) * hourLength) (hpos : 0 < count) :
    rangeHourIds fromisoformat since upto =
      if first + count ≤ lastHour then
        if 168 < count then .error (.http 422 "单次最多下载168小时，请缩小时间范围")
        else .ok ((hoursFrom first count).map hourKey)
      else .error (.http 422 "时间范围超出可下载的小时上限") := by
  have hin := (inCalendar_iff _).mp start.within
  have hin' := (inCalendar_iff _).mp stop.within
  have hlow : -62135596800000000 ≤ stop.instant + shanghaiOffset := by
    rw [shanghaiOffset_eq]
    omega
  have hlast := hourEnd_le (stop.instant + shanghaiOffset)
  have hhours := hoursUntil_eq first count
  unfold rangeHourIds
  rw [hstart, hstop]
  dsimp only
  rw [if_neg (Int.not_le.mpr hlt), bind_hourCeiling hlow, hend]
  rw [hend] at hlast
  rw [shanghaiOffset_eq, hourLength_eq] at *
  rw [lastHour_eq]
  by_cases hwithin : first + count ≤ 70389527
  · have hstartLocal : InCalendar (start.instant + 28800000000) := by
      rw [inCalendar_iff]
      omega
    have hend' : InCalendar ((first + count) * 3600000000) := by
      rw [inCalendar_iff]
      omega
    rw [calendarTime_eq hstartLocal, calendarTime_eq hend', if_pos hwithin]
    dsimp only
    have hcount : ((first + count) * 3600000000 - first * 3600000000) / 3600000000 = (count : Int) := by
      omega
    rw [hfloor, hcount, hhours]
    by_cases hmany : 168 < count
    · rw [if_pos hmany, if_pos (by omega)]
    · rw [if_neg hmany, if_neg (by omega)]
  · have hend' : ¬ InCalendar ((first + count) * 3600000000) := by
      rw [inCalendar_iff]
      omega
    rw [calendarTime_none hend', if_neg hwithin]
    cases calendarTime (start.instant + 28800000000) <;> rfl

/-! ## Searches -/

/-- An hour that a range meets starts within the calendar. -/
theorem HourMeets.inCalendar {start stop : CalendarTime} {hour : Int}
    (h : HourMeets start.instant stop.instant hour) : InCalendar (hourStart hour) := by
  have hin := (inCalendar_iff _).mp start.within
  have hin' := (inCalendar_iff _).mp stop.within
  obtain ⟨hbefore, hafter⟩ := h
  rw [inCalendar_iff]
  unfold hourStart at *
  rw [shanghaiOffset_eq, hourLength_eq] at *
  omega

/-- Text by text, an hour of the range is between the ends. -/
theorem between_holds {start stop : CalendarTime} {hour : Int}
    (h : HourMeets start.instant stop.instant hour) :
    (HourCondition.between (utcIso (hourFloor start.instant)) (utcIso stop.instant)).Holds
      (hourKey hour) := by
  have hin := (inCalendar_iff _).mp start.within
  have hhour := h.inCalendar
  obtain ⟨hbefore, hafter⟩ := h
  have hfloor : hourFloor start.instant ≤ hourStart hour ∧
      -62135596800000000 ≤ hourFloor start.instant := by
    unfold hourFloor
    unfold hourStart at *
    rw [shanghaiOffset_eq, hourLength_eq] at *
    omega
  have hlow : InCalendar (hourFloor start.instant) := by
    rw [inCalendar_iff] at hhour ⊢
    omega
  refine ⟨?_, le_of_lt (utcIso_lt hhour stop.within hbefore)⟩
  obtain hless | heq := Int.lt_or_eq_of_le hfloor.1
  · exact le_of_lt (utcIso_lt hlow hhour hless)
  · exact le_of_eq (congrArg utcIso heq)

theorem fileQuery_search {body : FileJobBody} {timestamp : CalendarTime} :
    fileQuery fromisoformat body .search timestamp =
      (searchRange fromisoformat body timestamp).map fun range =>
        ({ taskId := body.taskId, statusNot := "DELETED"
           hour := .between (utcIso (hourFloor range.1.instant)) (utcIso range.2.instant) },
          some { start := utcIso range.1.instant, stop := utcIso range.2.instant }) := rfl

/-- A range that is given is that of the search, if it is a day at most. -/
theorem searchRange_given {body : FileJobBody} {timestamp : CalendarTime}
    (hsince : body.start = some since) (hupto : body.stop = some upto)
    (hstart : parseApiDatetime fromisoformat since = some start)
    (hstop : parseApiDatetime fromisoformat upto = some stop) (hlt : start.instant < stop.instant) :
    searchRange fromisoformat body timestamp =
      if stop.instant - start.instant ≤ 24 * hourLength then .ok (start, stop)
      else .error windowRefused := by
  have hgiven : ∀ {value : String} {time : CalendarTime},
      parseApiDatetime fromisoformat value = some time → givenText (some value) = some value := by
    intro value time hparse
    unfold givenText
    refine Option.filter_some_pos (decide_eq_true ?_)
    rintro rfl
    cases hparse
  unfold searchRange searchEnd searchStart
  rw [hsince, hupto, hgiven hstart, hgiven hstop]
  dsimp only
  rw [hstop, hstart]
  show (if _ then _ else _) = _
  by_cases hday : stop.instant - start.instant ≤ 24 * hourLength
  · rw [if_pos hday, if_pos ⟨by omega, hday⟩]
  · rw [if_neg hday, if_neg fun h => hday h.2]

/-- What goes on past a step has its result. -/
theorem ok_of_bind {α β : Type} {x : Except WindowError α} {f : α → Except WindowError β} {b : β}
    (h : x >>= f = .ok b) : ∃ a, x = .ok a ∧ f a = .ok b := by
  cases x with
  | error error => cases h
  | ok a => exact ⟨a, rfl, h⟩

/-- A search has a start before its end. -/
theorem searchRange_lt {body : FileJobBody} {timestamp : CalendarTime}
    (h : searchRange fromisoformat body timestamp = .ok (start, stop)) :
    start.instant < stop.instant := by
  unfold searchRange at h
  obtain ⟨_, -, h⟩ := ok_of_bind h
  obtain ⟨_, -, h⟩ := ok_of_bind h
  split at h
  next hday =>
    cases h
    omega
  next => cases h

/-- A download has the texts of the hours of its range, in order and none twice, if they are 168 at
most and before the last hour of the calendar, and is refused otherwise. The condition of a search
on the texts of hours holds for each hour of its range. -/
theorem time_range_hours (hstart : parseApiDatetime fromisoformat since = some start)
    (hstop : parseApiDatetime fromisoformat upto = some stop)
    (hlt : start.instant < stop.instant) :
    (∃ hours, HoursOf start.instant stop.instant hours ∧ (hours.map hourKey).Pairwise (· < ·) ∧
      if hours.length ≤ 168 ∧ ∀ hour ∈ hours, hour < lastHour then
        rangeHourIds fromisoformat since upto = .ok (hours.map hourKey)
      else ∃ detail, rangeHourIds fromisoformat since upto = .error (.http 422 detail)) ∧
    (∀ body timestamp, body.start = some since → body.stop = some upto →
      stop.instant - start.instant ≤ 24 * hourLength →
      searchRange fromisoformat body timestamp = .ok (start, stop)) ∧
    ∀ body timestamp range, searchRange fromisoformat body timestamp = .ok range →
      range.1.instant < range.2.instant ∧
      ∃ query bounds, fileQuery fromisoformat body .search timestamp = .ok (query, some bounds) ∧
        ∀ hour, HourMeets range.1.instant range.2.instant hour → query.hour.Holds (hourKey hour) := by
  refine ⟨?_, ?_, ?_⟩
  · obtain ⟨first, count, hhours, hpos, hfloor, hend⟩ := hoursOf_range hlt
    have heq := rangeHourIds_eq hstart hstop hlt first count hfloor hend hpos
    refine ⟨hoursFrom first count, hhours, ?_, ?_⟩
    · refine List.pairwise_map.mpr (hhours.ordered.imp_of_mem fun hone hother hless => ?_)
      refine utcIso_lt ((hhours.mem _).mp hone).inCalendar ((hhours.mem _).mp hother).inCalendar ?_
      unfold hourStart
      rw [hourLength_eq]
      omega
    · have hbefore : (∀ hour ∈ hoursFrom first count, hour < lastHour) ↔ first + count ≤ lastHour := by
        refine ⟨fun h => ?_, fun h hour hmem => ?_⟩
        · have hlast := h (first + count - 1) (mem_hoursFrom.mpr (by omega))
          omega
        · have hin := mem_hoursFrom.mp hmem
          omega
      rw [heq, length_hoursFrom]
      by_cases hwithin : first + count ≤ lastHour
      · rw [if_pos hwithin]
        by_cases hmany : 168 < count
        · rw [if_pos hmany, if_neg fun h => Nat.not_le.mpr hmany h.1]
          exact ⟨_, rfl⟩
        · rw [if_neg hmany, if_pos ⟨Nat.not_lt.mp hmany, hbefore.mpr hwithin⟩]
      · rw [if_neg hwithin, if_neg fun h => hwithin (hbefore.mp h.2)]
        exact ⟨_, rfl⟩
  · intro body timestamp hsince hupto hday
    rw [searchRange_given hsince hupto hstart hstop hlt, if_pos hday]
  · intro body timestamp range hrange
    rw [fileQuery_search, hrange]
    exact ⟨searchRange_lt hrange, _, _, rfl, fun hour hmeets => between_holds hmeets⟩

/-- Times on the wall of the last day of the calendar. -/
def lastDayIso (text : String) : Option WallTime :=
  if text = "9999-12-31T21:30:00" then some { wall := 253402291800000000, offset := none }
  else if text = "9999-12-31T23:00:00" then some { wall := 253402297200000000, offset := none }
  else if text = "9999-12-31T23:20:00" then some { wall := 253402298400000000, offset := none }
  else none

theorem parse_lastDayIso (text : String) {wall : Int} (hT : 'T' ∈ text.toList)
    (hwall : lastDayIso text = some { wall, offset := none })
    (hin : InCalendar (wall - shanghaiOffset)) :
    parseApiDatetime lastDayIso text = some ⟨wall - shanghaiOffset, hin⟩ := by
  unfold parseApiDatetime
  rw [if_pos hT, hwall]
  exact calendarTime_eq hin

/-- A range within the last hour of the calendar is refused, though it has one hour only. -/
theorem last_hour_refused : ∃ start stop : CalendarTime,
    parseApiDatetime lastDayIso "9999-12-31T23:00:00" = some start ∧
    parseApiDatetime lastDayIso "9999-12-31T23:20:00" = some stop ∧ start.instant < stop.instant ∧
    HoursOf start.instant stop.instant [lastHour] ∧
    rangeHourIds lastDayIso "9999-12-31T23:00:00" "9999-12-31T23:20:00" =
      .error (.http 422 "时间范围超出可下载的小时上限") := by
  have hstart := parse_lastDayIso "9999-12-31T23:00:00" (by decide) rfl (by decide +kernel)
  have hstop := parse_lastDayIso "9999-12-31T23:20:00" (by decide) rfl (by decide +kernel)
  refine ⟨_, _, hstart, hstop, by decide +kernel, ⟨List.pairwise_singleton _ _, fun hour => ?_⟩, ?_⟩
  · rw [List.mem_singleton, lastHour_eq]
    unfold HourMeets hourStart
    dsimp only
    rw [shanghaiOffset_eq, hourLength_eq]
    omega
  · have heq := rangeHourIds_eq hstart hstop (by decide +kernel) lastHour 1
      (by decide +kernel) (by decide +kernel) (by decide)
    rw [heq]
    exact if_neg (by decide +kernel)

/-- A range that ends where the last hour begins. -/
theorem time_range_hours_last_day : ∃ start stop : CalendarTime,
    ∃ hours, HoursOf start.instant stop.instant hours ∧ (hours.map hourKey).Pairwise (· < ·) := by
  have hstart := parse_lastDayIso "9999-12-31T21:30:00" (by decide) rfl (by decide +kernel)
  have hstop := parse_lastDayIso "9999-12-31T23:00:00" (by decide) rfl (by decide +kernel)
  obtain ⟨⟨hours, hof, hordered, -⟩, -⟩ := time_range_hours hstart hstop (by decide +kernel)
  exact ⟨_, _, hours, hof, hordered⟩

end CameraLogs.Logs
