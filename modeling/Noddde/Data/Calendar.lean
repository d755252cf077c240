import Mathlib.Algebra.Order.Group.Unbundled.Int
import Mathlib.Algebra.Ring.Nat
import Mathlib.Algebra.Ring.Int.Defs
/-!
# The Gregorian calendar

Days are counted from the first of January 1970, in both directions and without limit, and
milliseconds from its midnight.  Every day has a date and every millisecond a time of the
day, from which they can be computed again.
-/

namespace Calendar

/-! ## Years -/

def isLeapYear (year : Int) : Bool :=
  decide (year % 4 = 0) && (decide (year % 100 ≠ 0) || decide (year % 400 = 0))

def firstDay (year : Int) : Int :=
  365 * (year - 1970) + (year - 1969) / 4 - (year - 1901) / 100 + (year - 1601) / 400

def yearLength (year : Int) : Int := if isLeapYear year then 366 else 365

theorem firstDay_succ (year : Int) : firstDay (year + 1) = firstDay year + yearLength year := by
  unfold firstDay yearLength isLeapYear
  simp only [Bool.and_eq_true, Bool.or_eq_true, decide_eq_true_eq]
  split_ifs <;> omega

/-- A year with the mean length of 400 years is off by one at most. -/
def yearOf (day : Int) : Int :=
  let estimate := 1970 + 400 * day / 146097
  if day < firstDay estimate then estimate - 1
  else if day < firstDay (estimate + 1) then estimate
  else estimate + 1

theorem firstDay_yearOf_le (day : Int) : firstDay (yearOf day) ≤ day := by
  unfold yearOf
  dsimp only
  split_ifs with hbefore hafter
  · unfold firstDay
    omega
  · omega
  · omega

theorem lt_firstDay_yearOf_succ (day : Int) : day < firstDay (yearOf day + 1) := by
  unfold yearOf
  dsimp only
  split_ifs with hbefore hafter
  · rw [sub_add_cancel]
    exact hbefore
  · exact hafter
  · unfold firstDay
    omega

/-! ## Months -/

def monthLengths (leap : Bool) : List Nat :=
  [31, if leap then 29 else 28, 31, 30, 31, 30, 31, 31, 30, 31, 30, 31]

/-- The segment of a row of segments in which a place lies, and its offset there. -/
def locate : List Nat → Nat → Nat × Nat
  | [], place => (0, place)
  | length :: rest, place =>
      if place < length then (0, place)
      else ((locate rest (place - length)).1 + 1, (locate rest (place - length)).2)

theorem locate_spec {lengths : List Nat} {place : Nat} (h : place < lengths.sum) :
    (lengths.take (locate lengths place).1).sum + (locate lengths place).2 = place ∧
      ∃ length ∈ lengths[(locate lengths place).1]?, (locate lengths place).2 < length := by
  induction lengths generalizing place with
  | nil => cases h
  | cons length rest ih =>
      unfold locate
      split_ifs with hhere
      · refine ⟨?_, length, rfl, hhere⟩
        simp
      · rw [List.sum_cons] at h
        have hrest : place - length < rest.sum := by omega
        obtain ⟨hplace, hlength⟩ := ih hrest
        refine ⟨?_, hlength⟩
        rw [List.take_succ_cons, List.sum_cons]
        omega

theorem sum_monthLengths (year : Int) :
    ((monthLengths (isLeapYear year)).sum : Int) = yearLength year := by
  unfold yearLength
  cases isLeapYear year with
  | true => rfl
  | false => rfl

/-! ## Dates -/

/-- The months and the days of a month are counted from 1. -/
structure CivilDate where
  year : Int
  month : Nat
  day : Nat
  deriving DecidableEq, Repr

/-- `Date.UTC` does not mind a day that its month does not have. -/
def CivilDate.toDay (date : CivilDate) : Int :=
  firstDay date.year + ((monthLengths (isLeapYear date.year)).take (date.month - 1)).sum +
    (date.day - 1)

def dateOf (day : Int) : CivilDate :=
  let year := yearOf day
  let place := locate (monthLengths (isLeapYear year)) (day - firstDay year).toNat
  { year, month := place.1 + 1, day := place.2 + 1 }

theorem dayOfYear_lt (day : Int) :
    (day - firstDay (yearOf day)).toNat < (monthLengths (isLeapYear (yearOf day))).sum := by
  have hle := firstDay_yearOf_le day
  have hlt := lt_firstDay_yearOf_succ day
  have hsum := sum_monthLengths (yearOf day)
  rw [firstDay_succ] at hlt
  omega

theorem toDay_dateOf (day : Int) : (dateOf day).toDay = day := by
  obtain ⟨hplace, -⟩ := locate_spec (dayOfYear_lt day)
  have hle := firstDay_yearOf_le day
  unfold dateOf CivilDate.toDay
  simp only [Nat.add_sub_cancel]
  omega

theorem length_le_of_mem_monthLengths {leap : Bool} {length : Nat}
    (h : length ∈ monthLengths leap) : length ≤ 31 := by
  revert length
  cases leap with
  | true => decide
  | false => decide

theorem month_dateOf (day : Int) : 1 ≤ (dateOf day).month ∧ (dateOf day).month ≤ 12 := by
  obtain ⟨-, length, hlength, -⟩ := locate_spec (dayOfYear_lt day)
  have hlt := (List.getElem?_eq_some_iff.mp hlength).1
  have hmonths : (monthLengths (isLeapYear (yearOf day))).length = 12 := rfl
  rw [hmonths] at hlt
  exact ⟨Nat.succ_pos _, hlt⟩

theorem day_dateOf (day : Int) : 1 ≤ (dateOf day).day ∧ (dateOf day).day ≤ 31 := by
  obtain ⟨-, length, hlength, hlt⟩ := locate_spec (dayOfYear_lt day)
  have hle := length_le_of_mem_monthLengths (List.mem_of_getElem? hlength)
  have hday : (dateOf day).day =
    (locate (monthLengths (isLeapYear (yearOf day))) (day - firstDay (yearOf day)).toNat).2 + 1 :=
    rfl
  omega

/-! ## The time of the day -/

structure ClockTime where
  hour : Nat
  minute : Nat
  second : Nat
  millisecond : Nat
  deriving DecidableEq, Repr

def msPerDay : Nat := 86400000

def ClockTime.toMs (time : ClockTime) : Nat :=
  ((time.hour * 60 + time.minute) * 60 + time.second) * 1000 + time.millisecond

def clockOf (ms : Nat) : ClockTime where
  hour := ms / 3600000
  minute := ms / 60000 % 60
  second := ms / 1000 % 60
  millisecond := ms % 1000

theorem toMs_clockOf (ms : Nat) : (clockOf ms).toMs = ms := by
  simp only [clockOf, ClockTime.toMs]
  omega

/-- The ranges of the parts. -/
structure ClockTime.Proper (time : ClockTime) : Prop where
  hour : time.hour < 24
  minute : time.minute < 60
  second : time.second < 60
  millisecond : time.millisecond < 1000

theorem proper_clockOf {ms : Nat} (h : ms < msPerDay) : (clockOf ms).Proper := by
  unfold msPerDay at h
  constructor
  · show ms / 3600000 < 24
    omega
  · exact Nat.mod_lt _ (by decide)
  · exact Nat.mod_lt _ (by decide)
  · exact Nat.mod_lt _ (by decide)

/-! ## Both -/

structure DateTime where
  date : CivilDate
  time : ClockTime
  deriving DecidableEq, Repr

def DateTime.toMs (dateTime : DateTime) : Int :=
  dateTime.date.toDay * msPerDay + dateTime.time.toMs

def dateTimeOf (ms : Int) : DateTime where
  date := dateOf (ms / msPerDay)
  time := clockOf (ms % msPerDay).toNat

theorem time_dateTimeOf_proper (ms : Int) : (dateTimeOf ms).time.Proper := by
  apply proper_clockOf
  unfold msPerDay
  omega

theorem toMs_dateTimeOf (ms : Int) : (dateTimeOf ms).toMs = ms := by
  simp only [DateTime.toMs, dateTimeOf, toDay_dateOf, toMs_clockOf]
  unfold msPerDay
  omega

/-! ## Bounds -/

theorem firstDay_mono {year later : Int} (h : year ≤ later) : firstDay year ≤ firstDay later := by
  unfold firstDay
  omega

theorem firstDay_le_toDay {date : CivilDate} (h : 1 ≤ date.day) :
    firstDay date.year ≤ date.toDay := by
  unfold CivilDate.toDay
  omega

/-- The dates of `Date` are at most a hundred million days away. -/
theorem natAbs_yearOf_lt {day : Int} (h : day.natAbs ≤ 100000000) :
    (yearOf day).natAbs < 1000000 := by
  have hle := firstDay_yearOf_le day
  have hlt := lt_firstDay_yearOf_succ day
  unfold firstDay at hle hlt
  omega

end Calendar
