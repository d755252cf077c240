import Noddde.Data.Calendar
import Noddde.Data.Json
/-!
# Instants and their text

The time values of JavaScript's `Date`, the text that `toISOString` renders, and how V8
reads a date and a time without a zone: outside the form of the standard, by the local
time of the host, and with its own idea of the order of the date and of short years.
-/

open Calendar

/-- The distance from 1970 that a `Date` can have, in milliseconds. -/
def maxTimeValue : Nat := 8640000000000000

/-- A time value of a valid `Date`. -/
structure Instant where
  ms : Int
  inRange : ms.natAbs ≤ maxTimeValue
  deriving DecidableEq

/-- `none` is an invalid date, whose time value is `NaN`. -/
abbrev JsDate := Option Instant

def timeClip (ms : Int) : JsDate :=
  if h : ms.natAbs ≤ maxTimeValue then some ⟨ms, h⟩ else none

/-- How far the clocks of a host are ahead of UTC, for each time that they show. -/
structure Zone where
  offset : Int → Int
  lt_day : ∀ wallClock, (offset wallClock).natAbs < msPerDay

/-- The instant at which the clocks of the host show a time. -/
def Zone.instant (zone : Zone) (wallClock : Int) : JsDate :=
  timeClip (wallClock - zone.offset wallClock)

def Instant.dateTime (t : Instant) : DateTime := dateTimeOf t.ms

/-! ## Digits -/

namespace DateText

def plus : UInt16 := 0x2B
def hyphen : UInt16 := 0x2D
def point : UInt16 := 0x2E
def space : UInt16 := 0x20
def letterT : UInt16 := 0x54
def letterZ : UInt16 := 0x5A

def digit (n : Nat) : UInt16 := (0x30 + n % 10).toUInt16

def isDigit (c : UInt16) : Bool := 0x30 ≤ c && c ≤ 0x39

def digits : (width : Nat) → Nat → JsString
  | 0, _ => []
  | width + 1, n => digit (n / 10 ^ width) :: digits width n

/-- So many digits, after those of a number. -/
def readDigits : (width : Nat) → Nat → JsString → Option (Nat × JsString)
  | 0, n, text => some (n, text)
  | _ + 1, _, [] => none
  | width + 1, n, c :: text =>
      if isDigit c then readDigits width (10 * n + (c.toNat - 0x30)) text else none

def expect (c : UInt16) : JsString → Option JsString
  | [] => none
  | d :: text => if d = c then some text else none

/-! ## toISOString -/

/-- Four digits, or a sign and six of them. -/
def yearText (year : Int) : JsString :=
  if 0 ≤ year ∧ year ≤ 9999 then digits 4 year.toNat
  else (if year < 0 then hyphen else plus) :: digits 6 year.natAbs

def dateText (date : CivilDate) : JsString :=
  yearText date.year ++ hyphen :: (digits 2 date.month ++ hyphen :: digits 2 date.day)

def timeText (time : ClockTime) : JsString :=
  digits 2 time.hour ++ Json.colon :: (digits 2 time.minute ++ Json.colon ::
    (digits 2 time.second ++ point :: digits 3 time.millisecond))

def toISOString (t : Instant) : JsString :=
  dateText t.dateTime.date ++ letterT :: (timeText t.dateTime.time ++ [letterZ])

/-- `text.replace(pattern, replacement)` of one code unit: the first one is replaced. -/
def replace (pattern : UInt16) (replacement : JsString) : JsString → JsString
  | [] => []
  | c :: text =>
      if c = pattern then replacement ++ text else c :: replace pattern replacement text

/-! ## Date.parse -/

def readYear : JsString → Option (Int × JsString)
  | [] => none
  | c :: text =>
      if c = plus then (readDigits 6 0 text).map fun read => ((read.1 : Int), read.2)
      else if c = hyphen then
        (readDigits 6 0 text).bind fun read =>
          if read.1 = 0 then none else some (-(read.1 : Int), read.2)
      else (readDigits 4 0 (c :: text)).map fun read => ((read.1 : Int), read.2)

/-- Years of two digits are those from 1950 to 2049. -/
def century (year : Int) : Int :=
  if 0 ≤ year ∧ year ≤ 49 then year + 2000
  else if 50 ≤ year ∧ year ≤ 99 then year + 1900
  else year

/-- `DayComposer::Write`: three numbers are year, month and day, unless the first one can be
a day.  They are month, day and year then. -/
def composeDay (first : Int) (second third : Nat) : Option CivilDate :=
  let date : CivilDate :=
    if 1 ≤ first ∧ first ≤ 31 then ⟨century third, first.toNat, second⟩
    else ⟨century first, second, third⟩
  if (1 ≤ date.month ∧ date.month ≤ 12) ∧ 1 ≤ date.day ∧ date.day ≤ 31 then some date else none

/-- `TimeComposer::Write`, with the hour 24 for the end of the day. -/
def composeTime (hour minute second millisecond : Nat) : Option ClockTime :=
  if hour < 24 ∧ minute < 60 ∧ second < 60 ∧ millisecond < 1000 ∨
      hour = 24 ∧ minute = 0 ∧ second = 0 ∧ millisecond = 0 then
    some { hour, minute, second, millisecond }
  else none

def readDate (text : JsString) : Option (CivilDate × JsString) := do
  let (year, text) ← readYear text
  let text ← expect hyphen text
  let (month, text) ← readDigits 2 0 text
  let text ← expect hyphen text
  let (day, text) ← readDigits 2 0 text
  let date ← composeDay year month day
  some (date, text)

def readTime (text : JsString) : Option (ClockTime × JsString) := do
  let (hour, text) ← readDigits 2 0 text
  let text ← expect Json.colon text
  let (minute, text) ← readDigits 2 0 text
  let text ← expect Json.colon text
  let (second, text) ← readDigits 2 0 text
  let text ← expect point text
  let (millisecond, text) ← readDigits 3 0 text
  let time ← composeTime hour minute second millisecond
  some (time, text)

/-- What the clocks show, of a text with a date, a space and a time. -/
def readDateTime (text : JsString) : Option DateTime := do
  let (date, text) ← readDate text
  let text ← expect space text
  let (time, text) ← readTime text
  if text = [] then some ⟨date, time⟩ else none

/-- `new Date(text)`, of such a text. -/
def parse (zone : Zone) (text : JsString) : JsDate :=
  (readDateTime text).bind fun dateTime => zone.instant dateTime.toMs

end DateText
