import CameraLogs.Logs.Naming
import CameraLogs.Logs.StreamSearch
import Mathlib.Data.Nat.Digits.Defs

/-!
# The time in front of each line

A collector puts the local time in front of each line of what it receives. The blocks it
reads may end anywhere: the only state is whether the next byte starts a line.
-/

namespace CameraLogs.Collection

open Logs

/-- A local time, to the second. -/
structure LocalTime where
  year : Nat
  month : Nat
  day : Nat
  hour : Nat
  minute : Nat
  second : Nat
  year_lt : year < 10 ^ 4
  month_lt : month < 10 ^ 2
  day_lt : day < 10 ^ 2
  hour_lt : hour < 10 ^ 2
  minute_lt : minute < 10 ^ 2
  second_lt : second < 10 ^ 2

/-- The text in front of a line, all of it ASCII. -/
def LocalTime.text (time : LocalTime) : List Char :=
  ['['] ++ padded 4 time.year ++ ['-'] ++ padded 2 time.month ++ ['-'] ++ padded 2 time.day ++
    [' '] ++ padded 2 time.hour ++ [':'] ++ padded 2 time.minute ++ [':'] ++ padded 2 time.second ++
    [']', ' ']

def LocalTime.stamp (time : LocalTime) : Bytes := time.text.map fun c => UInt8.ofNat c.toNat

/-- `data.replace(b"\n", b"\n" + stamp)`. -/
def replaceNewlines (stamp data : Bytes) : Bytes :=
  data.flatMap fun b => if b = newline then newline :: stamp else [b]

/-- The block with a time in front of each line, and whether the next byte starts one. -/
def prefixLines (atLineStart : Bool) (data stamp : Bytes) : Bytes × Bool :=
  if data = [] then (data, atLineStart)
  else
    let output := replaceNewlines stamp data
    let ended := decide (data.getLast? = some newline)
    let output := if ended then output.take (output.length - stamp.length) else output
    ((if atLineStart then stamp else []) ++ output, ended)

theorem length_padded {width number : Nat} (hwidth : 0 < width) (h : number < 10 ^ width) :
    (padded width number).length = width := by
  have hdigits := Nat.toDigits_length 10 number width hwidth h
  unfold padded
  rw [List.length_append, List.length_replicate]
  omega

theorem LocalTime.length_stamp (time : LocalTime) : time.stamp.length = 22 := by
  unfold LocalTime.stamp LocalTime.text
  simp only [List.length_map, List.length_append, List.length_cons, List.length_nil,
    length_padded (by decide) time.year_lt, length_padded (by decide) time.month_lt,
    length_padded (by decide) time.day_lt, length_padded (by decide) time.hour_lt,
    length_padded (by decide) time.minute_lt, length_padded (by decide) time.second_lt]

theorem length_replaceNewlines (stamp data : Bytes) :
    (replaceNewlines stamp data).length = data.length + stamp.length * data.count newline := by
  unfold replaceNewlines
  induction data with
  | nil => rfl
  | cons b data ih =>
    rw [List.flatMap_cons, List.length_append, ih, List.length_cons]
    by_cases hb : b = newline
    · rw [if_pos hb, hb, List.count_cons_self, Nat.mul_add, List.length_cons]
      omega
    · rw [if_neg hb, List.count_cons_of_ne hb, List.length_singleton]
      omega

/-- A block that does not end a line has a byte that is no newline. -/
theorem count_newline_lt {data : Bytes} (hne : data ≠ []) (hlast : data.getLast? ≠ some newline) :
    data.count newline < data.length := by
  refine Nat.lt_of_le_of_ne List.count_le_length ?_
  intro hall
  have heq := List.count_eq_length.mp hall
  refine hlast ?_
  rw [List.getLast?_eq_some_getLast hne, heq _ (List.getLast_mem hne)]

/-- A stamp for each byte is enough. -/
theorem length_prefixLines_le (atLineStart : Bool) (data stamp : Bytes) :
    (prefixLines atLineStart data stamp).1.length ≤ data.length + stamp.length * data.length := by
  unfold prefixLines
  by_cases hne : data = []
  · rw [if_pos hne]
    exact Nat.le_add_right _ _
  · rw [if_neg hne]
    have hlen := length_replaceNewlines stamp data
    have hfront : (if atLineStart then stamp else []).length ≤ stamp.length := by
      split
      next => exact Nat.le_refl _
      next => exact Nat.zero_le _
    have hpos : 0 < data.length := List.length_pos_iff.mpr hne
    simp only [List.length_append]
    by_cases hlast : data.getLast? = some newline
    · rw [decide_eq_true hlast, if_pos rfl, List.length_take]
      have hcount : data.count newline ≤ data.length := List.count_le_length
      have hmul : stamp.length * data.count newline ≤ stamp.length * data.length :=
        Nat.mul_le_mul_left _ hcount
      have hone : stamp.length ≤ stamp.length * data.length := Nat.le_mul_of_pos_right _ hpos
      omega
    · rw [decide_eq_false hlast]
      have hcount := count_newline_lt hne hlast
      have hmul : stamp.length * (data.count newline + 1) ≤ stamp.length * data.length :=
        Nat.mul_le_mul_left _ hcount
      rw [Nat.mul_add] at hmul
      simp only [Bool.false_eq_true, if_false]
      omega

end CameraLogs.Collection
