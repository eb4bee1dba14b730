import CameraLogs.Logs.Naming
import Mathlib.Data.Char
import Mathlib.Data.List.Lex

/-!
# The hours of a range of time

A download names the hours of its range by their texts in UTC (`rangeHourIds`), a search bounds
the texts of hours by those of its ends (`fileQuery`). Hours are local hours of Shanghai, eight
hours before UTC; times are instants within the calendar, to the microsecond.
-/

namespace CameraLogs.Logs

open Lib

/-! ## Times -/

/-- The microseconds of a day. -/
def dayLength : Int := 24 * hourLength

/-- The day that an instant is on, as a day of the calendar. -/
def ordinalAt (instant : Int) : Int := instant / dayLength + epochOrdinal

/-- The calendar goes from the year 1 to the year 9999. -/
def InCalendar (instant : Int) : Prop :=
  1 ≤ ordinalAt instant ∧ ordinalAt instant ≤ lastOrdinal

instance (instant : Int) : Decidable (InCalendar instant) :=
  inferInstanceAs (Decidable (_ ∧ _))

/-- A time of the calendar. -/
structure CalendarTime where
  instant : Int
  within : InCalendar instant

/-- None is an overflow. -/
def calendarTime (instant : Int) : Option CalendarTime :=
  if h : InCalendar instant then some ⟨instant, h⟩ else none

/-- The text of an instant in UTC; the fraction is left out where it is zero. -/
def utcIso (instant : Int) : List Char :=
  let date := Date.ofOrdinal (ordinalAt instant).toNat
  let time := (instant % dayLength).toNat
  let second := time / 1000000
  padded 4 date.year ++ ['-'] ++ padded 2 date.month ++ ['-'] ++ padded 2 date.day ++ ['T'] ++
    padded 2 (second / 3600) ++ [':'] ++ padded 2 (second / 60 % 60) ++ [':'] ++
    padded 2 (second % 60) ++
    (if time % 1000000 = 0 then [] else ['.'] ++ padded 6 (time % 1000000)) ++ "+00:00".toList

/-- What `fromisoformat` reads: a time on the wall, and how far it is ahead of UTC if that is
said. -/
structure WallTime where
  wall : Int
  offset : Option Int

inductive WindowError
  | http (status : Nat) (detail : String)
  | overflow

section Parsing

-- `datetime.fromisoformat`; none where it raises
variable (fromisoformat : String → Option WallTime)

/-- A text without an offset has the time of Shanghai; none is a `ValueError`. -/
def parseApiDatetime (value : String) : Option CalendarTime :=
  if 'T' ∈ value.toList then
    (fromisoformat value).bind fun parsed =>
      calendarTime (parsed.wall - parsed.offset.getD shanghaiOffset)
  else none

/-! ## Downloads -/

def hourFloor (time : Int) : Int := time / hourLength * hourLength

/-- The loop over the hours from `first` on. -/
def hoursUntil (last first : Int) : List (List Char) :=
  if _h : first < last then utcIso (first - shanghaiOffset) :: hoursUntil last (first + hourLength)
  else []
termination_by (last - first).toNat
decreasing_by
  unfold hourLength
  omega

/-- The end of the last hour, in local time; none is an overflow. -/
def hourCeiling (time : CalendarTime) : Option CalendarTime :=
  let last := hourFloor time.instant
  if time.instant = last then some time else calendarTime (last + hourLength)

/-- `_range_hour_ids` -/
def rangeHourIds (start stop : String) : Except WindowError (List (List Char)) :=
  match parseApiDatetime fromisoformat start, parseApiDatetime fromisoformat stop with
  | some startAt, some endAt =>
    if endAt.instant ≤ startAt.instant then .error (.http 422 "结束时间必须晚于开始时间")
    else
      match calendarTime (startAt.instant + shanghaiOffset),
        (calendarTime (endAt.instant + shanghaiOffset)).bind hourCeiling with
      | some startLocal, some last =>
        let first := hourFloor startLocal.instant
        if 168 < (last.instant - first) / hourLength then
          .error (.http 422 "单次最多下载168小时，请缩小时间范围")
        else .ok (hoursUntil last.instant first)
      | _, _ => .error (.http 422 "时间范围超出可下载的小时上限")
  | _, _ => .error (.http 422 "时间范围必须是 ISO 8601 日期时间")

/-! ## Queries -/

inductive FileJobKind
  | download
  | search

/-- What a job asks for; the hours are those of a download, as they have been normalized. -/
structure FileJobBody where
  taskId : String
  hourIds : List (List Char)
  start : Option String
  stop : Option String

/-- A condition on the hour of a file. -/
inductive HourCondition
  | oneOf (hours : List (List Char))
  | between (low high : List Char)

def HourCondition.Holds : HourCondition → List Char → Prop
  | .oneOf hours, hour => hour ∈ hours
  | .between low high, hour => low ≤ hour ∧ hour ≤ high

structure FileQuery where
  taskId : String
  /-- A file in this state is left out. -/
  statusNot : String
  hour : HourCondition

/-- The ends of a search that are frozen in its job. -/
structure SearchBounds where
  start : List Char
  stop : List Char

/-- An empty text is none. -/
def givenText (value : Option String) : Option String := value.filter (· ≠ "")

/-- The value, or else an error. -/
def valueOr {α : Type} (error : WindowError) : Option α → Except WindowError α
  | some value => .ok value
  | none => .error error

def windowRefused : WindowError := .http 422 "时间范围必须是 ISO 8601 日期时间且不超过24小时"

/-- The end of a search is now where none is given. -/
def searchEnd (body : FileJobBody) (timestamp : CalendarTime) : Except WindowError CalendarTime :=
  match givenText body.stop with
  | some value => valueOr windowRefused (parseApiDatetime fromisoformat value)
  | none => .ok timestamp

/-- The start of a search is an hour before its end where none is given. -/
def searchStart (body : FileJobBody) (stop : CalendarTime) : Except WindowError CalendarTime :=
  match givenText body.start with
  | some value => valueOr windowRefused (parseApiDatetime fromisoformat value)
  | none => valueOr .overflow (calendarTime (stop.instant - hourLength))

/-- The time range of a search. -/
def searchRange (body : FileJobBody) (timestamp : CalendarTime) :
    Except WindowError (CalendarTime × CalendarTime) := do
  let stop ← searchEnd fromisoformat body timestamp
  let start ← searchStart fromisoformat body stop
  if 0 < stop.instant - start.instant ∧ stop.instant - start.instant ≤ 24 * hourLength then
    .ok (start, stop)
  else .error windowRefused

/-- `_file_query` -/
def fileQuery (body : FileJobBody) (kind : FileJobKind) (timestamp : CalendarTime) :
    Except WindowError (FileQuery × Option SearchBounds) :=
  match kind with
  | .download =>
    .ok ({ taskId := body.taskId, statusNot := "DELETED", hour := .oneOf body.hourIds }, none)
  | .search =>
    (searchRange fromisoformat body timestamp).map fun (start, stop) =>
      ({ taskId := body.taskId, statusNot := "DELETED"
         hour := .between (utcIso (hourFloor start.instant)) (utcIso stop.instant) },
        some { start := utcIso start.instant, stop := utcIso stop.instant })

end Parsing

end CameraLogs.Logs
