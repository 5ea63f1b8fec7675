import Mathlib.Data.List.Destutter
import Mathlib.Data.List.Sort

/-!
# The next-time providers of calendar rules

A rule is due at seconds of local days, and its provider scans the days from
that of the time it is given. The civil calendar and the zones are those of
`time_shield`, of which `TimeShield` has the functions that are called. A
provider reads nothing of the options of the rule but the clock, and not its
third argument.
-/

namespace EventHub

/-- `time_shield::Weekday`. -/
inductive Weekday
  | sun
  | mon
  | tue
  | wed
  | thu
  | fri
  | sat
  deriving DecidableEq, Repr

def Weekday.toFin : Weekday → Fin 7
  | .sun => 0
  | .mon => 1
  | .tue => 2
  | .wed => 3
  | .thu => 4
  | .fri => 5
  | .sat => 6

/-- The date of a `time_shield::DateTimeStruct`. -/
structure DateTimeStruct where
  year : Int
  mon : Int
  day : Int
  deriving DecidableEq, Repr

structure TimeShield (Zone : Type) where
  /-- `DateTime::from_unix_ms(ms).to_date_time_struct_utc()`. -/
  toDateTimeStructUtc (ms : Int) : DateTimeStruct
  toTimestampMs (year mon day : Int) : Int
  dayOfWeekDate (year mon day : Int) : Weekday
  gmtToZoneMs (utcMs : Int) (zone : Zone) : Int
  /-- Under the policies `first_occurrence` and `error`. -/
  zoneToGmtMs (localMs : Int) (zone : Zone) : Int
  errorTimestamp : Int

/-- `time_shield::ZonedClock`, as a source of local time. -/
structure ZonedClock (Zone : Type) where
  hasNamedZone : Bool
  zone : Zone
  offsetAtUtcMs (utcMs : Int) : Int

def maxSecPerDay : Int := 86399

def msPerSec : Int := 1000

def msPerDay : Int := 86400000

structure WeeklySchedule where
  secondsByWeekday : Fin 7 → List Int

structure MonthlySchedule where
  secondsByMonthDay : Fin 32 → List Int

def validSecondOfDay (second : Int) : Bool :=
  0 ≤ second && second ≤ maxSecPerDay

def normalizeSeconds (seconds : List Int) : List Int :=
  ((seconds.filter validSecondOfDay).insertionSort (· ≤ ·)).destutter (· ≠ ·)

/-- The result is whether there is any second. -/
def normalizeWeekly (schedule : WeeklySchedule) : WeeklySchedule × Bool :=
  let seconds := fun d => normalizeSeconds (schedule.secondsByWeekday d)
  ({ secondsByWeekday := seconds }, decide (∃ d, !(seconds d).isEmpty))

/-- There is no day zero. -/
def normalizeMonthly (schedule : MonthlySchedule) : MonthlySchedule × Bool :=
  let seconds := fun d =>
    if d = 0 then [] else normalizeSeconds (schedule.secondsByMonthDay d)
  ({ secondsByMonthDay := seconds }, decide (∃ d, !(seconds d).isEmpty))

section Providers

variable {Zone : Type} (ts : TimeShield Zone)

def utcToLocalMs (clock : ZonedClock Zone) (utcMs : Int) : Int :=
  if clock.hasNamedZone then ts.gmtToZoneMs utcMs clock.zone
  else utcMs + clock.offsetAtUtcMs utcMs * msPerSec

def localToUtcMs (clock : ZonedClock Zone) (localMs : Int) : Int :=
  if clock.hasNamedZone then ts.zoneToGmtMs localMs clock.zone
  else localMs - clock.offsetAtUtcMs 0 * msPerSec

def localStructFromMs (localMs : Int) : DateTimeStruct :=
  ts.toDateTimeStructUtc localMs

def localDayStartMs (localMs : Int) : Int :=
  let dt := localStructFromMs ts localMs
  ts.toTimestampMs dt.year dt.mon dt.day

/-- The body of the inner loop of `scan_local_days`. -/
def dueAfter (clock : ZonedClock Zone) (afterUtcMs localDue : Int) :
    Option Int :=
  let utcDue := localToUtcMs ts clock localDue
  if utcDue = ts.errorTimestamp then none
  else if utcDue > afterUtcMs then some utcDue
  else none

def scanLocalDays (clock : ZonedClock Zone) (afterUtcMs : Int) (maxDays : Nat)
    (dayAllowed : DateTimeStruct → Bool)
    (secondsForDay : DateTimeStruct → List Int) : Option Int :=
  let localAfter := utcToLocalMs ts clock afterUtcMs
  let dayStart := localDayStartMs ts localAfter
  (List.range (maxDays + 1)).findSome? fun (offset : Nat) =>
    let currentDay := dayStart + offset * msPerDay
    let dt := localStructFromMs ts currentDay
    if dayAllowed dt then
      (secondsForDay dt).findSome? fun second =>
        dueAfter ts clock afterUtcMs (currentDay + second * msPerSec)
    else none

/-- From the clock and `after_utc_ms`. -/
def RuleProvider (Zone : Type) : Type :=
  ZonedClock Zone → Int → Option Int

def makeDailyProvider (seconds : List Int) : RuleProvider Zone :=
  fun clock afterUtcMs =>
    scanLocalDays ts clock afterUtcMs 2 (fun _ => true) fun _ => seconds

def makeWeeklyProvider (schedule : WeeklySchedule) : RuleProvider Zone :=
  fun clock afterUtcMs =>
    let secondsForDay := fun dt : DateTimeStruct =>
      schedule.secondsByWeekday (ts.dayOfWeekDate dt.year dt.mon dt.day).toFin
    scanLocalDays ts clock afterUtcMs 14 (fun dt => !(secondsForDay dt).isEmpty)
      secondsForDay

def makeMonthlyProvider (schedule : MonthlySchedule) : RuleProvider Zone :=
  fun clock afterUtcMs =>
    -- only read at an index that is in bounds
    let secondsForDay := fun dt : DateTimeStruct =>
      schedule.secondsByMonthDay (Fin.ofNat 32 dt.day.toNat)
    scanLocalDays ts clock afterUtcMs 370
      (fun dt => 1 ≤ dt.day && dt.day < 32 && !(secondsForDay dt).isEmpty)
      secondsForDay

/-- What `add_daily_task`, `add_weekly_task` and `add_monthly_task` take. -/
inductive CalendarRule
  | daily (secondOfDay : Int)
  | weekly (schedule : WeeklySchedule)
  | monthly (schedule : MonthlySchedule)

/-- The provider of the rule that is added, if one is. -/
def CalendarRule.provider : CalendarRule → Option (RuleProvider Zone)
  | .daily second =>
      if validSecondOfDay second then
        some (makeDailyProvider ts (normalizeSeconds [second]))
      else none
  | .weekly schedule =>
      let (schedule, hasAny) := normalizeWeekly schedule
      if hasAny then some (makeWeeklyProvider ts schedule) else none
  | .monthly schedule =>
      let (schedule, hasAny) := normalizeMonthly schedule
      if hasAny then some (makeMonthlyProvider ts schedule) else none

end Providers

end EventHub
