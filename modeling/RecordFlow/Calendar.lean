/-! Days and seconds counted from the start of 1970, as dates of the Gregorian calendar extended to
all years. Years are counted from March, so that the leap day ends a year. -/

namespace RecordFlow.Calendar

structure Date where
  year : Int
  month : Int
  day : Int

/-- The days of four centuries, after which the calendar repeats. -/
def daysPerCycle : Int := 146097

/-- The days from the first of March of year 0 to the epoch. -/
def epochOffset : Int := 719468

def ofDay (n : Int) : Date :=
  let fromMarch := n + epochOffset
  let cycle := fromMarch / daysPerCycle
  let inCycle := fromMarch % daysPerCycle
  let yearInCycle := (inCycle - inCycle / 1460 + inCycle / 36524 - inCycle / 146096) / 365
  let inYear := inCycle - (365 * yearInCycle + yearInCycle / 4 - yearInCycle / 100)
  let fromMarchMonth := (5 * inYear + 2) / 153
  let month := if fromMarchMonth < 10 then fromMarchMonth + 3 else fromMarchMonth - 9
  ⟨cycle * 400 + yearInCycle + (if month ≤ 2 then 1 else 0), month,
    inYear - (153 * fromMarchMonth + 2) / 5 + 1⟩

/-- At least `width` digits of a number that is not negative. -/
def padded (width : Nat) (n : Int) : String :=
  let text := toString n.natAbs
  String.ofList (List.replicate (width - text.length) '0') ++ text

/-- Four digits; a sign stands before years outside of them. -/
def yearText (year : Int) : String :=
  let sign := if year < 0 then "-" else if 9999 < year then "+" else ""
  sign ++ padded 4 year

def dateText (n : Int) : String :=
  let d := ofDay n
  s!"{yearText d.year}-{padded 2 d.month}-{padded 2 d.day}"

/-- Date and time of day of a second, with the offset of universal time. -/
def timeText (second : Int) : String :=
  let inDay := second % 86400
  let hour := inDay / 3600
  let minute := inDay % 3600 / 60
  let rest := inDay % 60
  s!"{dateText (second / 86400)} {padded 2 hour}:{padded 2 minute}:{padded 2 rest} +00:00"

end RecordFlow.Calendar
