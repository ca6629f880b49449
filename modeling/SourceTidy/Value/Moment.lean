import SourceTidy.Text.CodePoint

/-!
# Dates and times

Days of the calendar, times of the day, and both together, with or without an offset from universal time. Each has a
standard text and a text that shows how it is built.
-/

namespace SourceTidy

/-- A day of the calendar. -/
structure Date where
  year : Nat
  month : Nat
  day : Nat
  deriving DecidableEq, Repr

/-- A time of the day. -/
structure TimeOfDay where
  hour : Nat
  minute : Nat
  second : Nat
  microsecond : Nat
  deriving DecidableEq, Repr

/-- A day and a time, and the offset from universal time in minutes, if it is known. -/
structure DateTime where
  date : Date
  time : TimeOfDay
  offset : Option Int
  deriving DecidableEq, Repr

/-- The decimal text of a number with zeros in front up to a width. -/
def zeroPadded (width n : Nat) : Text :=
  let digits := Text.ofNat n
  List.replicate (width - digits.length) ('0' : CodePoint) ++ digits

namespace Date

/-- Whether a year has a leap day. -/
def isLeap (year : Nat) : Bool := year % 4 = 0 && (year % 100 ≠ 0 || year % 400 = 0)

/-- The number of days of a month. -/
def daysIn (year month : Nat) : Nat :=
  if month = 2 then (if isLeap year then 29 else 28)
  else if [4, 6, 9, 11].contains month then 30
  else 31

/-- Whether the calendar has a day. -/
def isValid (d : Date) : Bool :=
  0 < d.year && 0 < d.month && d.month ≤ 12 && 0 < d.day && d.day ≤ daysIn d.year d.month

/-- The standard text of a day. -/
def text (d : Date) : Text := zeroPadded 4 d.year ++ "-" ++ zeroPadded 2 d.month ++ "-" ++ zeroPadded 2 d.day

/-- The parts of a day. -/
def parts (d : Date) : List Text := [Text.ofNat d.year, Text.ofNat d.month, Text.ofNat d.day]

/-- How a day is built. -/
def shown (d : Date) : Text := "datetime.date(" ++ Text.join ", " d.parts ++ ")"

end Date

namespace TimeOfDay

/-- The standard text of a time; a fraction has six digits and is left out when it is zero. -/
def text (t : TimeOfDay) : Text :=
  zeroPadded 2 t.hour ++ ":" ++ zeroPadded 2 t.minute ++ ":" ++ zeroPadded 2 t.second
    ++ if t.microsecond = 0 then [] else Text.ofString "." ++ zeroPadded 6 t.microsecond

/-- The parts of a time, without the zeros at the end that are not needed. -/
def parts (t : TimeOfDay) : List Text :=
  [Text.ofNat t.hour, Text.ofNat t.minute]
    ++ (if t.second = 0 && t.microsecond = 0 then [] else [Text.ofNat t.second])
    ++ (if t.microsecond = 0 then [] else [Text.ofNat t.microsecond])

/-- How a time is built. -/
def shown (t : TimeOfDay) : Text := "datetime.time(" ++ Text.join ", " t.parts ++ ")"

end TimeOfDay

namespace DateTime

/-- The text of an offset. -/
def offsetText (minutes : Int) : Text :=
  (if minutes < 0 then "-" else "+" : String) ++ zeroPadded 2 (minutes.natAbs / 60) ++ ":"
    ++ zeroPadded 2 (minutes.natAbs % 60)

/-- The standard text of a day and a time. -/
def text (d : DateTime) : Text := d.date.text ++ "T" ++ d.time.text ++ (d.offset.map offsetText).getD []

/-- How an offset is built. -/
def offsetShown (minutes : Int) : Text :=
  if minutes = 0 then "datetime.timezone.utc"
  else if minutes < 0 then
    "datetime.timezone(datetime.timedelta(days=-1, seconds=" ++ Text.ofNat ((minutes * 60 + 86400).toNat) ++ "))"
  else "datetime.timezone(datetime.timedelta(seconds=" ++ Text.ofNat ((minutes * 60).toNat) ++ "))"

/-- How a day and a time are built. -/
def shown (d : DateTime) : Text :=
  "datetime.datetime(" ++ Text.join ", " (d.date.parts ++ d.time.parts)
    ++ ((d.offset.map fun o => Text.ofString ", tzinfo=" ++ offsetShown o).getD []) ++ ")"

end DateTime
end SourceTidy
