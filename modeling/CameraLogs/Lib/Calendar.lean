import Mathlib.Data.List.Basic
import Mathlib.Tactic.Basic

/-!
# The Gregorian calendar

Days are numbered from 1, which is the first of January of the year 1. `ofOrdinal` gives
the date of a day and `toOrdinal` the day of a date, and the one undoes the other
(`toOrdinal_ofOrdinal`).

A day is cut into cycles of 400, 100 and 4 years; the day in its year is then read off
the lengths of the months.
-/

namespace CameraLogs.Lib

/-- A date. -/
structure Date where
  year : Nat
  month : Nat
  day : Nat
  deriving DecidableEq

namespace Date

def isLeap (year : Nat) : Bool := year % 4 = 0 && (year % 100 ≠ 0 || year % 400 = 0)

/-- The days of a month. -/
def daysInMonth (leap : Bool) (month : Nat) : Nat :=
  if month = 2 then (if leap then 29 else 28)
  else if month = 4 ∨ month = 6 ∨ month = 9 ∨ month = 11 then 30 else 31

/-- The days before a month, in its year. -/
def daysBeforeMonth (leap : Bool) : Nat → Nat
  | 0 => 0
  | month + 1 => if month = 0 then 0 else daysBeforeMonth leap month + daysInMonth leap month

/-- The days before a year. -/
def daysBeforeYear (year : Nat) : Nat :=
  (year - 1) * 365 + (year - 1) / 4 - (year - 1) / 100 + (year - 1) / 400

/-- A date of the calendar. -/
def Valid (date : Date) : Prop :=
  1 ≤ date.year ∧ 1 ≤ date.month ∧ date.month ≤ 12 ∧ 1 ≤ date.day ∧
    date.day ≤ daysInMonth (isLeap date.year) date.month

instance (date : Date) : Decidable date.Valid := inferInstanceAs (Decidable (_ ∧ _))

theorem day_le {date : Date} (h : date.Valid) : date.day ≤ 31 := by
  refine Nat.le_trans h.2.2.2.2 ?_
  unfold daysInMonth
  split
  next => split <;> omega
  next => split <;> omega

/-- The number of a date. -/
def toOrdinal (date : Date) : Nat :=
  daysBeforeYear date.year + daysBeforeMonth (isLeap date.year) date.month + date.day

/-- The month that a day of the year is in, and the day in it; days count from 0. -/
def monthDay (leap : Bool) : Nat → Nat → Nat → Nat × Nat
  | 0, month, rest => (month, rest + 1)
  | fuel + 1, month, rest =>
    if rest < daysInMonth leap month then (month, rest + 1)
    else monthDay leap fuel (month + 1) (rest - daysInMonth leap month)

/-- The year of a day, and the day in it; days count from 0. -/
def yearDay (days : Nat) : Nat × Nat :=
  let inFour := days % 146097
  let inOne := inFour % 36524
  let inQuad := inOne % 1461
  let year := days / 146097 * 400 + inFour / 36524 * 100 + inOne / 1461 * 4 + inQuad / 365 + 1
  -- the last day of a leap year is the 366th
  if inQuad / 365 = 4 ∨ inFour / 36524 = 4 then (year - 1, 365) else (year, inQuad % 365)

/-- The date of a number. -/
def ofOrdinal (ordinal : Nat) : Date :=
  let (year, rest) := yearDay (ordinal - 1)
  let (month, day) := monthDay (isLeap year) 11 1 rest
  { year, month, day }

/-! ## Round trip -/

/-- The days of a year, counted from 0. -/
def daysInYear (leap : Bool) : Nat := if leap then 366 else 365

theorem isLeap_iff (year : Nat) :
    isLeap year = true ↔ year % 4 = 0 ∧ (year % 100 ≠ 0 ∨ year % 400 = 0) := by
  unfold isLeap
  simp

/-- The days before a year, by its cycles. -/
theorem daysBeforeYear_cycles {a b c d : Nat} (hb : b ≤ 3) (hc : c ≤ 24) (hd : d ≤ 3) :
    daysBeforeYear (a * 400 + b * 100 + c * 4 + d + 1) = 146097 * a + 36524 * b + 1461 * c + 365 * d := by
  unfold daysBeforeYear
  omega

theorem yearDay_spec (days : Nat) : 1 ≤ (yearDay days).1 ∧
    daysBeforeYear (yearDay days).1 + (yearDay days).2 = days ∧
      (yearDay days).2 < daysInYear (isLeap (yearDay days).1) := by
  obtain ⟨a, ha⟩ : ∃ a, a = days / 146097 := ⟨_, rfl⟩
  obtain ⟨b, hb⟩ : ∃ b, b = days % 146097 / 36524 := ⟨_, rfl⟩
  obtain ⟨c, hc⟩ : ∃ c, c = days % 146097 % 36524 / 1461 := ⟨_, rfl⟩
  obtain ⟨d, hd⟩ : ∃ d, d = days % 146097 % 36524 % 1461 / 365 := ⟨_, rfl⟩
  unfold yearDay
  dsimp only
  rw [← ha, ← hb, ← hc, ← hd]
  by_cases hlast : d = 4 ∨ b = 4
  · rw [if_pos hlast]
    dsimp only
    have hyear : a * 400 + b * 100 + c * 4 + d + 1 - 1 = a * 400 + b * 100 + c * 4 + d := by omega
    rw [hyear]
    have hleap : isLeap (a * 400 + b * 100 + c * 4 + d) = true := by
      rw [isLeap_iff]
      omega
    rw [hleap]
    refine ⟨by omega, ?_, by decide⟩
    rcases hlast with hfour | hfour
    · have hcycles := @daysBeforeYear_cycles a b c 3 (by omega) (by omega) (Nat.le_refl 3)
      rw [Nat.add_assoc] at hcycles
      rw [hfour, hcycles]
      omega
    · have hc0 : c = 0 := by omega
      have hd0 : d = 0 := by omega
      have hcycles := @daysBeforeYear_cycles a 3 24 3 (Nat.le_refl 3) (Nat.le_refl 24) (Nat.le_refl 3)
      have hsame : a * 400 + b * 100 + c * 4 + d = a * 400 + 3 * 100 + 24 * 4 + 3 + 1 := by omega
      rw [hsame, hcycles]
      omega
  · rw [if_neg hlast]
    dsimp only
    rw [daysBeforeYear_cycles (by omega) (by omega) (by omega)]
    refine ⟨by omega, by omega, ?_⟩
    unfold daysInYear
    split
    next => omega
    next => omega

/-- One of the twelve months has the day. -/
theorem monthDay_spec (leap : Bool) : ∀ rest < daysInYear leap,
    1 ≤ (monthDay leap 11 1 rest).1 ∧ (monthDay leap 11 1 rest).1 ≤ 12 ∧
      1 ≤ (monthDay leap 11 1 rest).2 ∧
      (monthDay leap 11 1 rest).2 ≤ daysInMonth leap (monthDay leap 11 1 rest).1 ∧
      daysBeforeMonth leap (monthDay leap 11 1 rest).1 + (monthDay leap 11 1 rest).2 = rest + 1 := by
  -- what is left of the year when the months before `month` have been taken off
  have hgo : ∀ fuel month rest, 1 ≤ month → month + fuel = 12 →
      daysBeforeMonth leap month + rest < daysInYear leap →
      1 ≤ (monthDay leap fuel month rest).1 ∧ (monthDay leap fuel month rest).1 ≤ 12 ∧
        1 ≤ (monthDay leap fuel month rest).2 ∧
        (monthDay leap fuel month rest).2 ≤ daysInMonth leap (monthDay leap fuel month rest).1 ∧
        daysBeforeMonth leap (monthDay leap fuel month rest).1 + (monthDay leap fuel month rest).2 =
          daysBeforeMonth leap month + rest + 1 := by
    intro fuel
    induction fuel with
    | zero =>
      intro month rest hmonth hfuel hrest
      have htwelve : month = 12 := hfuel
      rw [htwelve] at hrest ⊢
      have hmonth' : (monthDay leap 0 12 rest).1 = 12 := rfl
      rw [hmonth']
      refine ⟨by decide, Nat.le_refl 12, Nat.le_add_left 1 rest, ?_, rfl⟩
      cases leap with
      | false => exact Nat.lt_of_add_lt_add_left (n := 334) hrest
      | true => exact Nat.lt_of_add_lt_add_left (n := 335) hrest
    | succ fuel ih =>
      intro month rest hmonth hfuel hrest
      unfold monthDay
      by_cases hin : rest < daysInMonth leap month
      · rw [if_pos hin]
        exact ⟨hmonth, by omega, Nat.le_add_left 1 rest, hin, rfl⟩
      · rw [if_neg hin]
        have hnext : daysBeforeMonth leap (month + 1) =
            daysBeforeMonth leap month + daysInMonth leap month := if_neg (by omega)
        have hrest' := ih (month + 1) (rest - daysInMonth leap month) (by omega) (by omega) (by omega)
        rw [hnext] at hrest'
        have hsame : daysBeforeMonth leap month + daysInMonth leap month +
            (rest - daysInMonth leap month) + 1 = daysBeforeMonth leap month + rest + 1 := by omega
        rw [hsame] at hrest'
        exact hrest'
  intro rest hrest
  have hstart := hgo 11 1 rest (Nat.le_refl 1) rfl (by
    show 0 + rest < _
    omega)
  have hzero : daysBeforeMonth leap 1 + rest + 1 = rest + 1 := by
    show 0 + rest + 1 = rest + 1
    omega
  rw [hzero] at hstart
  exact hstart

theorem valid_ofOrdinal (ordinal : Nat) : (ofOrdinal ordinal).Valid := by
  obtain ⟨hyear, -, hrest⟩ := yearDay_spec (ordinal - 1)
  obtain ⟨hlow, hhigh, hday, hlast, -⟩ := monthDay_spec _ _ hrest
  exact ⟨hyear, hlow, hhigh, hday, hlast⟩

/-- **The date of a day is a date of that day.** -/
theorem toOrdinal_ofOrdinal {ordinal : Nat} (h : 1 ≤ ordinal) :
    (ofOrdinal ordinal).toOrdinal = ordinal := by
  obtain ⟨-, hdays, hrest⟩ := yearDay_spec (ordinal - 1)
  obtain ⟨-, -, -, -, hmonth⟩ := monthDay_spec _ _ hrest
  have hsum : (ofOrdinal ordinal).toOrdinal = daysBeforeYear (yearDay (ordinal - 1)).1 +
      daysBeforeMonth (isLeap (yearDay (ordinal - 1)).1)
        (monthDay (isLeap (yearDay (ordinal - 1)).1) 11 1 (yearDay (ordinal - 1)).2).1 +
      (monthDay (isLeap (yearDay (ordinal - 1)).1) 11 1 (yearDay (ordinal - 1)).2).2 := rfl
  rw [hsum, Nat.add_assoc, hmonth]
  omega

/-! ## Order -/

/-- The order of dates: by year, then by month, then by day. -/
def Before (a b : Date) : Prop :=
  a.year < b.year ∨ (a.year = b.year ∧ (a.month < b.month ∨ (a.month = b.month ∧ a.day < b.day)))

theorem daysBeforeYear_succ {year : Nat} (h : 1 ≤ year) :
    daysBeforeYear (year + 1) = daysBeforeYear year + daysInYear (isLeap year) := by
  have hleap := isLeap_iff year
  have hfour : year / 4 = (year - 1) / 4 + if year % 4 = 0 then 1 else 0 := by split <;> omega
  have hcentury : year / 100 = (year - 1) / 100 + if year % 100 = 0 then 1 else 0 := by
    split <;> omega
  have hcycle : year / 400 = (year - 1) / 400 + if year % 400 = 0 then 1 else 0 := by split <;> omega
  have hle : (year - 1) / 100 ≤ (year - 1) / 4 := Nat.div_le_div_left (by decide) (by decide)
  have hcentury' : year % 100 = 0 → year % 4 = 0 := by omega
  have hcycle' : year % 400 = 0 → year % 100 = 0 := by omega
  unfold daysBeforeYear daysInYear
  rw [Nat.add_sub_cancel, hfour, hcentury, hcycle]
  by_cases h4 : year % 4 = 0 <;> by_cases h100 : year % 100 = 0 <;>
    by_cases h400 : year % 400 = 0 <;> simp [h4, h100, h400] at hleap hcentury' hcycle' ⊢ <;>
    simp [hleap] <;> omega

theorem daysBeforeYear_lt {year later : Nat} (h : 1 ≤ year) (hlt : year < later) :
    daysBeforeYear year + daysInYear (isLeap year) ≤ daysBeforeYear later := by
  induction later with
  | zero => cases hlt
  | succ later ih =>
    obtain hlt | rfl := Nat.lt_succ_iff_lt_or_eq.mp hlt
    · rw [daysBeforeYear_succ (by omega)]
      exact Nat.le_trans (ih hlt) (Nat.le_add_right _ _)
    · exact Nat.le_of_eq (daysBeforeYear_succ h).symm

theorem daysBeforeMonth_lt (leap : Bool) : ∀ later < 13, ∀ month < later, 1 ≤ month →
    daysBeforeMonth leap month + daysInMonth leap month ≤ daysBeforeMonth leap later := by
  cases leap <;> decide

theorem daysBeforeMonth_le (leap : Bool) : ∀ month < 13, 1 ≤ month →
    daysBeforeMonth leap month + daysInMonth leap month ≤ daysInYear leap := by
  cases leap <;> decide

/-- The numbers of days go with the order of their dates. -/
theorem before_of_toOrdinal_lt {a b : Date} (ha : a.Valid) (hb : b.Valid)
    (h : a.toOrdinal < b.toOrdinal) : a.Before b := by
  obtain ⟨hyear, hmonth, hlast, -, hday⟩ := ha
  obtain ⟨hyear', hmonth', hlast', -, hday'⟩ := hb
  unfold toOrdinal at h
  have hin := daysBeforeMonth_le (isLeap b.year) b.month (by omega) hmonth'
  unfold Before
  obtain hlt | heq | hgt := Nat.lt_trichotomy a.year b.year
  · exact .inl hlt
  · refine .inr ⟨heq, ?_⟩
    rw [heq] at h
    obtain hlt | hsame | hgt := Nat.lt_trichotomy a.month b.month
    · exact .inl hlt
    · refine .inr ⟨hsame, ?_⟩
      rw [hsame] at h
      omega
    · have hbefore := daysBeforeMonth_lt (isLeap b.year) a.month (by omega) b.month hgt hmonth'
      omega
  · have hbefore := daysBeforeYear_lt hyear' hgt
    omega

theorem ofOrdinal_before {ordinal later : Nat} (h : 1 ≤ ordinal) (hlt : ordinal < later) :
    (ofOrdinal ordinal).Before (ofOrdinal later) := by
  refine before_of_toOrdinal_lt (valid_ofOrdinal ordinal) (valid_ofOrdinal later) ?_
  rw [toOrdinal_ofOrdinal h, toOrdinal_ofOrdinal (Nat.le_trans h (Nat.le_of_lt hlt))]
  exact hlt

end Date

end CameraLogs.Lib
