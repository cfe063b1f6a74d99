import Fluo.Lib.JsString
import Mathlib.Data.Nat.Digits.Lemmas

/-!
# JavaScript dates

Dates of the proleptic Gregorian calendar. A time counts the milliseconds since
the start of 1970, a day the days since then.
-/

namespace Fluo.Js

open Fluo.Code

/-! ## Years -/

def dayFromYear (year : Int) : Int :=
  365 * (year - 1970) + (year - 1969) / 4 - (year - 1901) / 100 + (year - 1601) / 400

def inLeapYear (year : Int) : Bool := year % 4 = 0 && (year % 100 ≠ 0 || year % 400 = 0)

def leapDay (leap : Bool) : Int := if leap then 1 else 0

theorem dayFromYear_succ (year : Int) : dayFromYear (year + 1) = dayFromYear year + 365 + leapDay (inLeapYear year) := by
  have leap : inLeapYear year = true ↔ year % 4 = 0 ∧ (year % 100 ≠ 0 ∨ year % 400 = 0) := by
    simp [inLeapYear]
  unfold dayFromYear leapDay
  split
  · next h =>
    have := leap.mp h
    omega
  · next h =>
    have := mt leap.mpr h
    omega

/-- The last year that starts no later than a day. -/
def yearFromDay (day : Int) : Int :=
  let year := 1970 + 400 * day / 146097
  if day < dayFromYear year then year - 1 else if dayFromYear (year + 1) ≤ day then year + 1 else year

theorem yearFromDay_spec (day : Int) : dayFromYear (yearFromDay day) ≤ day ∧ day < dayFromYear (yearFromDay day + 1) := by
  have near : dayFromYear (1970 + 400 * day / 146097 - 1) ≤ day ∧ day < dayFromYear (1970 + 400 * day / 146097 + 1 + 1) := by
    unfold dayFromYear
    omega
  unfold yearFromDay
  dsimp only
  split
  · next early =>
    rw [Int.sub_add_cancel]
    exact ⟨near.1, early⟩
  · next early =>
    split
    · next late => exact ⟨late, near.2⟩
    · next late => exact ⟨Int.not_lt.mp early, Int.not_le.mp late⟩

def dayWithinYear (day : Int) : Int := day - dayFromYear (yearFromDay day)

theorem dayWithinYear_bounds (day : Int) :
    0 ≤ dayWithinYear day ∧ dayWithinYear day < 365 + leapDay (inLeapYear (yearFromDay day)) := by
  have spec := yearFromDay_spec day
  rw [dayFromYear_succ] at spec
  unfold dayWithinYear
  omega

/-! ## Months -/

def monthLengths (leap : Bool) : List Int := [31, 28 + leapDay leap, 31, 30, 31, 30, 31, 31, 30, 31, 30, 31]

def monthStart (leap : Bool) (month : Nat) : Int := ((monthLengths leap).take month).sum

/-- The part that a day is in when parts of these lengths follow each other. -/
def partOf : List Int → Int → Nat
  | [], _ => 0
  | length :: lengths, day => if day < length then 0 else partOf lengths (day - length) + 1

theorem partOf_spec {lengths : List Int} {day : Int} (start : 0 ≤ day) (inside : day < lengths.sum) :
    partOf lengths day < lengths.length ∧ (lengths.take (partOf lengths day)).sum ≤ day ∧
      ∃ length ∈ lengths, day < (lengths.take (partOf lengths day)).sum + length := by
  induction lengths generalizing day with
  | nil => exact absurd inside (Int.not_lt.mpr start)
  | cons length lengths ih =>
    rw [partOf]
    split
    · next here => exact ⟨Nat.succ_pos _, start, length, List.mem_cons_self, by simpa using here⟩
    · next past =>
      rw [List.sum_cons] at inside
      obtain ⟨le, started, other, mem, ends⟩ := @ih (day - length) (by omega) (by omega)
      rw [List.length_cons, List.take_succ_cons, List.sum_cons]
      exact ⟨Nat.succ_lt_succ le, by omega, other, List.mem_cons_of_mem length mem, by omega⟩

def monthWithinYear (leap : Bool) (day : Int) : Nat := partOf (monthLengths leap) day

theorem monthWithinYear_spec {leap : Bool} {day : Int} (start : 0 ≤ day) (inside : day < 365 + leapDay leap) :
    monthWithinYear leap day < 12 ∧ monthStart leap (monthWithinYear leap day) ≤ day ∧
      day < monthStart leap (monthWithinYear leap day) + 31 := by
  have total : (monthLengths leap).sum = 365 + leapDay leap := by cases leap <;> rfl
  have atMost : ∀ length ∈ monthLengths leap, length ≤ 31 := by cases leap <;> decide
  obtain ⟨lt, started, length, mem, ends⟩ := partOf_spec start (total ▸ inside)
  have le := atMost length mem
  refine ⟨lt, started, ?_⟩
  unfold monthStart monthWithinYear
  omega

def monthFromDay (day : Int) : Nat := monthWithinYear (inLeapYear (yearFromDay day)) (dayWithinYear day)

def dateFromDay (day : Int) : Nat :=
  (dayWithinYear day - monthStart (inLeapYear (yearFromDay day)) (monthFromDay day)).toNat + 1

def weekDay (day : Int) : Nat := ((day + 4) % 7).toNat

/-- The day of a date; dates past the end of the month count on. -/
def makeDay (year : Int) (month : Nat) (date : Int) : Int :=
  dayFromYear year + monthStart (inLeapYear year) month + date - 1

theorem monthFromDay_lt (day : Int) : monthFromDay day < 12 :=
  (monthWithinYear_spec (dayWithinYear_bounds day).1 (dayWithinYear_bounds day).2).1

theorem dateFromDay_bounds (day : Int) : 1 ≤ dateFromDay day ∧ dateFromDay day ≤ 31 := by
  have spec := monthWithinYear_spec (dayWithinYear_bounds day).1 (dayWithinYear_bounds day).2
  unfold dateFromDay monthFromDay
  omega

theorem weekDay_lt (day : Int) : weekDay day < 7 := by
  unfold weekDay
  omega

theorem makeDay_fields (day : Int) : makeDay (yearFromDay day) (monthFromDay day) (dateFromDay day) = day := by
  have spec := monthWithinYear_spec (dayWithinYear_bounds day).1 (dayWithinYear_bounds day).2
  have within : day = dayFromYear (yearFromDay day) + dayWithinYear day := by
    unfold dayWithinYear
    omega
  unfold makeDay dateFromDay
  unfold monthFromDay
  omega

/-! ## Times -/

def dayFromTime (time : Int) : Int := time / 86400000

def hourFromTime (time : Int) : Nat := (time / 3600000 % 24).toNat

def minuteFromTime (time : Int) : Nat := (time / 60000 % 60).toNat

def secondFromTime (time : Int) : Nat := (time / 1000 % 60).toNat

def makeTime (hour minute second : Nat) : Int := ((hour * 60 + minute) * 60 + second : Nat) * 1000

def makeDate (day time : Int) : Int := day * 86400000 + time

theorem clock_bounds (time : Int) : hourFromTime time < 24 ∧ minuteFromTime time < 60 ∧ secondFromTime time < 60 := by
  unfold hourFromTime minuteFromTime secondFromTime
  omega

theorem makeDate_fields {time : Int} (whole : time % 1000 = 0) :
    makeDate (dayFromTime time) (makeTime (hourFromTime time) (minuteFromTime time) (secondFromTime time)) = time := by
  unfold makeDate dayFromTime makeTime hourFromTime minuteFromTime secondFromTime
  omega

/-! ## Texts -/

def digitUnit (d : Nat) : UInt16 := ((unit '0').toNat + d).toUInt16

def zeroPadded (width n : Nat) : JsString :=
  let digits := (Nat.digits 10 n).reverse.map digitUnit
  List.replicate (width - digits.length) (unit '0') ++ digits

theorem zeroPadded_length {width n : Nat} (h : n < 10 ^ width) : (zeroPadded width n).length = width := by
  have short : (Nat.digits 10 n).length ≤ width := (Nat.digits_length_le_iff (by decide) n).mpr h
  simp only [zeroPadded, List.length_append, List.length_replicate, List.length_map, List.length_reverse]
  omega

def weekDayNames : List JsString := ["Sun", "Mon", "Tue", "Wed", "Thu", "Fri", "Sat"].map text

def monthNames : List JsString :=
  ["Jan", "Feb", "Mar", "Apr", "May", "Jun", "Jul", "Aug", "Sep", "Oct", "Nov", "Dec"].map text

def toUTCString (time : Int) : JsString :=
  let day := dayFromTime time
  let year := yearFromDay day
  weekDayNames.getD (weekDay day) [] ++ text ", " ++ zeroPadded 2 (dateFromDay day) ++ text " " ++
    monthNames.getD (monthFromDay day) [] ++ text " " ++ (if year < 0 then text "-" else []) ++
    zeroPadded 4 year.natAbs ++ text " " ++ zeroPadded 2 (hourFromTime time) ++ text ":" ++
    zeroPadded 2 (minuteFromTime time) ++ text ":" ++ zeroPadded 2 (secondFromTime time) ++ text " GMT"

example : toUTCString 784111777000 = text "Sun, 06 Nov 1994 08:49:37 GMT" := by decide +kernel

end Fluo.Js
