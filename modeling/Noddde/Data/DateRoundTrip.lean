import Mathlib.Tactic.Ring
import Noddde.Data.DateText
/-!
# Reading the text of an instant

The text of an instant without its zone is read as the date and the time that it shows,
unless the year is one of the first hundred.
-/

open Calendar

namespace DateText

/-! ## Digits -/

theorem digit_spec : ∀ d < 10, isDigit (0x30 + d).toUInt16 = true ∧
    ((0x30 + d).toUInt16.toNat - 0x30 = d) := by decide

theorem isDigit_digit (n : Nat) : isDigit (digit n) = true :=
  (digit_spec (n % 10) (Nat.mod_lt n (by decide))).1

theorem toNat_digit (n : Nat) : (digit n).toNat - 0x30 = n % 10 :=
  (digit_spec (n % 10) (Nat.mod_lt n (by decide))).2

theorem isDigit_of_mem_digits {width n : Nat} {c : UInt16} (h : c ∈ digits width n) :
    isDigit c = true := by
  induction width with
  | zero => cases h
  | succ width ih =>
      cases List.mem_cons.mp h with
      | inl heq =>
          rw [heq]
          exact isDigit_digit _
      | inr hrest => exact ih hrest

theorem readDigits_digits (width acc n : Nat) (rest : JsString) :
    readDigits width acc (digits width n ++ rest) =
      some (acc * 10 ^ width + n % 10 ^ width, rest) := by
  induction width generalizing acc with
  | zero => simp [digits, readDigits, Nat.mod_one]
  | succ width ih =>
      have hsplit : n % 10 ^ (width + 1) = n % 10 ^ width + 10 ^ width * (n / 10 ^ width % 10) :=
        Nat.mod_pow_succ
      have hpow : 10 ^ (width + 1) = 10 ^ width * 10 := pow_succ 10 width
      simp only [digits, List.cons_append, readDigits, isDigit_digit, if_true, toNat_digit, ih]
      congr 2
      calc (10 * acc + n / 10 ^ width % 10) * 10 ^ width + n % 10 ^ width
          = acc * (10 ^ width * 10) +
              (n % 10 ^ width + 10 ^ width * (n / 10 ^ width % 10)) := by ring
        _ = acc * 10 ^ (width + 1) + n % 10 ^ (width + 1) := by rw [hsplit, hpow]

/-- A number that the digits are enough for. -/
theorem readDigits_of_lt {width n : Nat} (h : n < 10 ^ width) (rest : JsString) :
    readDigits width 0 (digits width n ++ rest) = some (n, rest) := by
  rw [readDigits_digits, Nat.zero_mul, Nat.zero_add, Nat.mod_eq_of_lt h]

theorem expect_cons (c : UInt16) (text : JsString) : expect c (c :: text) = some text := by
  simp [expect]

/-! ## The date and the time -/

theorem readYear_yearText {year : Int} (h : year.natAbs < 1000000) (rest : JsString) :
    readYear (yearText year ++ rest) = some (year, rest) := by
  unfold yearText
  split_ifs with hfour hneg
  · have hdigits : digits 4 year.toNat ++ rest =
        digit (year.toNat / 10 ^ 3) :: (digits 3 year.toNat ++ rest) := rfl
    have hfirst := isDigit_digit (year.toNat / 10 ^ 3)
    have hplus : digit (year.toNat / 10 ^ 3) ≠ plus := by
      intro heq
      rw [heq] at hfirst
      exact absurd hfirst (by decide)
    have hhyphen : digit (year.toNat / 10 ^ 3) ≠ hyphen := by
      intro heq
      rw [heq] at hfirst
      exact absurd hfirst (by decide)
    have hlt : year.toNat < 10 ^ 4 := by omega
    have hread := readDigits_of_lt hlt rest
    rw [hdigits] at hread ⊢
    simp only [readYear, if_neg hplus, if_neg hhyphen, hread, Option.map_some]
    rw [Int.toNat_of_nonneg hfour.1]
  · have hread := @readDigits_of_lt 6 year.natAbs (by omega) rest
    have hne : ¬ year.natAbs = 0 := by omega
    have hplus : ¬ hyphen = plus := by decide
    simp only [List.cons_append, readYear, if_neg hplus, if_true, hread, Option.bind_some,
      if_neg hne]
    congr 2
    omega
  · have hread := @readDigits_of_lt 6 year.natAbs (by omega) rest
    simp only [List.cons_append, readYear, if_true, hread, Option.map_some]
    congr 2
    omega

theorem readDate_dateText {date : CivilDate} (hyear : date.year.natAbs < 1000000)
    (hmonth : date.month ≤ 12) (hday : date.day ≤ 31) (rest : JsString) :
    readDate (dateText date ++ rest) =
      (composeDay date.year date.month date.day).map fun read => (read, rest) := by
  have hmonths (text : JsString) : readDigits 2 0 (digits 2 date.month ++ text) =
      some (date.month, text) := readDigits_of_lt (by omega) text
  have hdays (text : JsString) : readDigits 2 0 (digits 2 date.day ++ text) =
      some (date.day, text) := readDigits_of_lt (by omega) text
  simp only [readDate, dateText, List.append_assoc, List.cons_append, readYear_yearText hyear,
    expect_cons, hmonths, hdays, Option.bind_eq_bind, Option.bind_some]
  cases composeDay date.year date.month date.day with
  | none => rfl
  | some read => rfl

theorem composeTime_of_proper {time : ClockTime} (h : time.Proper) :
    composeTime time.hour time.minute time.second time.millisecond = some time := by
  unfold composeTime
  rw [if_pos (.inl ⟨h.hour, h.minute, h.second, h.millisecond⟩)]

theorem readTime_timeText {time : ClockTime} (h : time.Proper) (rest : JsString) :
    readTime (timeText time ++ rest) = some (time, rest) := by
  have hhour := h.hour
  have hminute := h.minute
  have hsecond := h.second
  have hhours (text : JsString) : readDigits 2 0 (digits 2 time.hour ++ text) =
      some (time.hour, text) := readDigits_of_lt (by omega) text
  have hminutes (text : JsString) : readDigits 2 0 (digits 2 time.minute ++ text) =
      some (time.minute, text) := readDigits_of_lt (by omega) text
  have hseconds (text : JsString) : readDigits 2 0 (digits 2 time.second ++ text) =
      some (time.second, text) := readDigits_of_lt (by omega) text
  have hmilliseconds (text : JsString) : readDigits 3 0 (digits 3 time.millisecond ++ text) =
      some (time.millisecond, text) := readDigits_of_lt h.millisecond text
  simp only [readTime, timeText, List.append_assoc, List.cons_append, expect_cons, hhours,
    hminutes, hseconds, hmilliseconds, Option.bind_eq_bind, Option.bind_some,
    composeTime_of_proper h]

theorem readDateTime_text {dateTime : DateTime} (hyear : dateTime.date.year.natAbs < 1000000)
    (hmonth : dateTime.date.month ≤ 12) (hday : dateTime.date.day ≤ 31)
    (htime : dateTime.time.Proper) :
    readDateTime (dateText dateTime.date ++ space :: timeText dateTime.time) =
      (composeDay dateTime.date.year dateTime.date.month dateTime.date.day).map
        fun date => { dateTime with date } := by
  have hread := readTime_timeText htime []
  rw [List.append_nil] at hread
  simp only [readDateTime, readDate_dateText hyear hmonth hday, Option.bind_eq_bind]
  cases composeDay dateTime.date.year dateTime.date.month dateTime.date.day with
  | none => rfl
  | some date => simp only [Option.map_some, Option.bind_some, expect_cons, hread, if_true]

/-! ## The text without its letters -/

theorem replace_append {pattern : UInt16} {replacement before : JsString}
    (h : pattern ∉ before) (text : JsString) :
    replace pattern replacement (before ++ text) =
      before ++ replace pattern replacement text := by
  induction before with
  | nil => rfl
  | cons c before ih =>
      have hne : ¬ c = pattern := fun heq => h (heq ▸ List.mem_cons_self)
      have hrest : pattern ∉ before := fun hmem => h (List.mem_cons_of_mem _ hmem)
      simp only [List.cons_append, replace, if_neg hne, ih hrest]

theorem replace_cons (pattern : UInt16) (replacement text : JsString) :
    replace pattern replacement (pattern :: text) = replacement ++ text := by
  simp only [replace, if_true]

/-- A unit of a date or of a time. -/
def isPart (c : UInt16) : Bool :=
  isDigit c || c == plus || c == hyphen || c == Json.colon || c == point

theorem isPart_of_mem_digits {width n : Nat} {c : UInt16} (h : c ∈ digits width n) :
    isPart c = true := by
  unfold isPart
  rw [isDigit_of_mem_digits h]
  rfl

theorem isPart_of_mem_yearText {year : Int} {c : UInt16} (h : c ∈ yearText year) :
    isPart c = true := by
  unfold yearText at h
  split_ifs at h with hfour hneg
  · exact isPart_of_mem_digits h
  · cases List.mem_cons.mp h with
    | inl heq =>
        rw [heq]
        decide
    | inr hrest => exact isPart_of_mem_digits hrest
  · cases List.mem_cons.mp h with
    | inl heq =>
        rw [heq]
        decide
    | inr hrest => exact isPart_of_mem_digits hrest

theorem isPart_of_mem_dateText {date : CivilDate} {c : UInt16} (h : c ∈ dateText date) :
    isPart c = true := by
  unfold dateText at h
  simp only [List.mem_append, List.mem_cons] at h
  rcases h with hyear | heq | hmonth | heq | hday
  · exact isPart_of_mem_yearText hyear
  · rw [heq]
    decide
  · exact isPart_of_mem_digits hmonth
  · rw [heq]
    decide
  · exact isPart_of_mem_digits hday

theorem isPart_of_mem_timeText {time : ClockTime} {c : UInt16} (h : c ∈ timeText time) :
    isPart c = true := by
  unfold timeText at h
  simp only [List.mem_append, List.mem_cons] at h
  rcases h with hhour | heq | hminute | heq | hsecond | heq | hmillisecond
  · exact isPart_of_mem_digits hhour
  · rw [heq]
    decide
  · exact isPart_of_mem_digits hminute
  · rw [heq]
    decide
  · exact isPart_of_mem_digits hsecond
  · rw [heq]
    decide
  · exact isPart_of_mem_digits hmillisecond

/-- `text.replace("T", " ").replace("Z", "")` of an ISO text. -/
theorem replace_toISOString (t : Instant) :
    replace letterZ [] (replace letterT [space] (toISOString t)) =
      dateText t.dateTime.date ++ space :: timeText t.dateTime.time := by
  have hT : letterT ∉ dateText t.dateTime.date :=
    fun hmem => absurd (isPart_of_mem_dateText hmem) (by decide)
  have hZ : letterZ ∉ dateText t.dateTime.date ++ space :: timeText t.dateTime.time := by
    intro hmem
    simp only [List.mem_append, List.mem_cons] at hmem
    rcases hmem with hdate | heq | htime
    · exact absurd (isPart_of_mem_dateText hdate) (by decide)
    · exact absurd heq (by decide)
    · exact absurd (isPart_of_mem_timeText htime) (by decide)
  have hfirst : replace letterT [space] (toISOString t) =
      (dateText t.dateTime.date ++ space :: timeText t.dateTime.time) ++ [letterZ] := by
    rw [toISOString, replace_append hT, replace_cons]
    simp
  rw [hfirst, replace_append hZ, replace_cons]
  simp

/-! ## Local time -/

theorem composeDay_of_long {date : CivilDate} (hlong : ¬ (0 ≤ date.year ∧ date.year ≤ 99))
    (hmonth : 1 ≤ date.month ∧ date.month ≤ 12) (hday : 1 ≤ date.day ∧ date.day ≤ 31) :
    composeDay date.year date.month date.day = some date := by
  have hfirst : ¬ (1 ≤ date.year ∧ date.year ≤ 31) := by omega
  have hcentury : century date.year = date.year := by
    unfold century
    rw [if_neg (by omega), if_neg (by omega)]
  simp only [composeDay, if_neg hfirst, hcentury, if_pos (And.intro hmonth hday)]

theorem le_century {year : Int} (h : 0 ≤ year ∧ year ≤ 99) : 1950 ≤ century year := by
  unfold century
  split_ifs <;> omega

theorem composeDay_of_short {first : Int} {second third : Nat} {date : CivilDate}
    (hshort : 0 ≤ first ∧ first ≤ 99) (hthird : third ≤ 31)
    (h : composeDay first second third = some date) : 1950 ≤ date.year ∧ 1 ≤ date.day := by
  unfold composeDay at h
  dsimp only at h
  split_ifs at h with hfirst hranges hranges
  · cases h
    exact ⟨le_century (by omega), hranges.2.1⟩
  · cases h
    exact ⟨le_century hshort, hranges.2.1⟩

/-- The clocks of the host show what the text says, as V8 reads it. -/
def shown (t : Instant) : Option DateTime :=
  (composeDay t.dateTime.date.year t.dateTime.date.month t.dateTime.date.day).map
    fun date => { t.dateTime with date }

theorem natAbs_year_lt (t : Instant) : t.dateTime.date.year.natAbs < 1000000 := by
  apply natAbs_yearOf_lt
  have hrange := t.inRange
  unfold maxTimeValue at hrange
  unfold msPerDay
  omega

theorem parse_text (zone : Zone) (t : Instant) :
    parse zone (dateText t.dateTime.date ++ space :: timeText t.dateTime.time) =
      (shown t).bind fun dateTime => zone.instant dateTime.toMs := by
  have hread := readDateTime_text (natAbs_year_lt t) (month_dateOf (t.ms / msPerDay)).2
    (day_dateOf (t.ms / msPerDay)).2 (time_dateTimeOf_proper t.ms)
  rw [parse, hread]
  rfl

/-- The year is written with two digits but for leading zeros. -/
def ShortYear (t : Instant) : Prop := 0 ≤ t.dateTime.date.year ∧ t.dateTime.date.year ≤ 99

theorem shown_of_long {t : Instant} (h : ¬ ShortYear t) : shown t = some t.dateTime := by
  have hcompose := composeDay_of_long h (month_dateOf (t.ms / msPerDay))
    (day_dateOf (t.ms / msPerDay))
  unfold shown
  rw [hcompose]
  rfl

theorem parse_of_long {zone : Zone} {t : Instant} (h : ¬ ShortYear t) :
    parse zone (dateText t.dateTime.date ++ space :: timeText t.dateTime.time) =
      zone.instant t.ms := by
  rw [parse_text, shown_of_long h, Option.bind_some]
  congr 1
  exact toMs_dateTimeOf t.ms

theorem timeClip_eq_some {ms : Int} {t : Instant} : timeClip ms = some t ↔ ms = t.ms := by
  constructor
  · intro h
    unfold timeClip at h
    split_ifs at h
    cases h
    rfl
  · intro h
    subst h
    unfold timeClip
    rw [dif_pos t.inRange]

/-- A short year is read as one that is too late by more than a day. -/
theorem parse_of_short {zone : Zone} {t : Instant} (h : ShortYear t) :
    parse zone (dateText t.dateTime.date ++ space :: timeText t.dateTime.time) ≠ some t := by
  intro heq
  rw [parse_text] at heq
  obtain ⟨dateTime, hshown, hinstant⟩ := Option.bind_eq_some_iff.mp heq
  obtain ⟨date, hdate, rfl⟩ := Option.map_eq_some_iff.mp hshown
  obtain ⟨hyear, hday⟩ := composeDay_of_short h (day_dateOf (t.ms / msPerDay)).2 hdate
  have hms := timeClip_eq_some.mp hinstant
  have hoffset := zone.lt_day ({ t.dateTime with date } : DateTime).toMs
  have hlate : firstDay 1950 ≤ date.toDay :=
    (firstDay_mono hyear).trans (firstDay_le_toDay hday)
  have hearly : t.ms / msPerDay < firstDay 100 := by
    apply lt_of_lt_of_le (lt_firstDay_yearOf_succ _)
    apply firstDay_mono
    have hle := h.2
    show yearOf (t.ms / msPerDay) + 1 ≤ 100
    exact Int.add_le_add_right hle 1
  have hvalue : ({ t.dateTime with date } : DateTime).toMs =
      date.toDay * msPerDay + t.dateTime.time.toMs := rfl
  have hfirst : firstDay 1950 = -7305 := by decide
  have hhundred : firstDay 100 = -683003 := by decide
  rw [hvalue] at hms hoffset
  rw [hfirst] at hlate
  rw [hhundred] at hearly
  generalize zone.offset (date.toDay * msPerDay + t.dateTime.time.toMs) = offset at hms hoffset
  unfold msPerDay at hms hoffset hearly
  omega

theorem parse_eq_some_iff {zone : Zone} {t : Instant} :
    parse zone (dateText t.dateTime.date ++ space :: timeText t.dateTime.time) = some t ↔
      ¬ ShortYear t ∧ zone.offset t.ms = 0 := by
  by_cases hshort : ShortYear t
  · constructor
    · exact fun h => absurd h (parse_of_short hshort)
    · exact fun h => absurd hshort h.1
  · rw [parse_of_long hshort, Zone.instant, timeClip_eq_some]
    constructor
    · intro h
      exact ⟨hshort, by omega⟩
    · intro h
      omega

end DateText
