import FactBase.Number.Binary64

/-
  This file writes instants, counted in microseconds since
  the start of 1970, by the calendar of universal time.

  Key definitions include:
    * `Instant.Civil`
    * `Instant.civil`
    * `Instant.seconds`
    * `Instant.description`
    * `Instant.text`
-/

------------------------------------------------------------
-- The Civil Calendar
------------------------------------------------------------

namespace FactBase

namespace Instant

/- A day of the calendar. -/
structure Day where
  year : Int
  month : Int
  day : Int
deriving DecidableEq, Repr

/-
  The calendar day that lies `n` days after the first of
  January 1970.  Years are counted from March, so that the
  leap day is the last one, in eras of 400 years.
-/
def dayOf (n : Int) : Day :=
  let n := n + 719468
  let era := n.fdiv 146097
  let dayOfEra := n.fmod 146097
  let yearOfEra :=
    (dayOfEra - dayOfEra / 1460 + dayOfEra / 36524
      - dayOfEra / 146096) / 365
  let dayOfYear :=
    dayOfEra
      - (365 * yearOfEra + yearOfEra / 4 - yearOfEra / 100)
  let monthFromMarch := (5 * dayOfYear + 2) / 153
  let day := dayOfYear - (153 * monthFromMarch + 2) / 5 + 1
  let month :=
    if monthFromMarch < 10 then monthFromMarch + 3
    else monthFromMarch - 9
  let year := yearOfEra + era * 400
  { year := if month ≤ 2 then year + 1 else year
    month := month
    day := day }

/- An instant by calendar and clock. -/
structure Civil where
  date : Day
  hour : Int
  minute : Int
  second : Int
  microsecond : Int
deriving DecidableEq, Repr

/- The calendar reading of an instant. -/
def civil (micros : Int) : Civil :=
  let seconds := micros.fdiv 1000000
  let ofDay := seconds.fmod 86400
  { date := dayOf (seconds.fdiv 86400)
    hour := ofDay / 3600
    minute := ofDay / 60 % 60
    second := ofDay % 60
    microsecond := micros.fmod 1000000 }

/- The number of seconds since the start of 1970. -/
def seconds (micros : Int) : Binary64 :=
  Binary64.ofRatio (micros < 0) micros.natAbs 1000000

------------------------------------------------------------
-- Written Instants
------------------------------------------------------------

/-
  An instant as a constructor call.  Seconds and
  microseconds that are zero are left out from the end.
-/
def description (micros : Int) : String :=
  let c := civil micros
  let always :=
    [c.date.year, c.date.month, c.date.day, c.hour, c.minute]
  let fields :=
    if c.microsecond != 0 then
      always ++ [c.second, c.microsecond]
    else if c.second != 0 then
      always ++ [c.second]
    else
      always
  "datetime.datetime("
    ++ String.intercalate ", " (fields.map toString)
    ++ ", tzinfo=datetime.timezone.utc)"

/- A number padded with zeros to a width. -/
def padded
    (width : Nat)
    (n : Int) : String :=
  let digits := toString n
  String.ofList
    (List.replicate (width - digits.length) '0') ++ digits

/-
  An instant as date, time and offset.  The fraction is left
  out when it is zero.
-/
def text (micros : Int) : String :=
  let c := civil micros
  let fraction :=
    if c.microsecond == 0 then ""
    else "." ++ padded 6 c.microsecond
  padded 4 c.date.year ++ "-" ++ padded 2 c.date.month
    ++ "-" ++ padded 2 c.date.day ++ " "
    ++ padded 2 c.hour ++ ":" ++ padded 2 c.minute ++ ":"
    ++ padded 2 c.second ++ fraction ++ "+00:00"

end Instant

end FactBase
