import Mathlib.Algebra.Order.Group.Abs
import Mathlib.Algebra.Order.Group.Int
import Mathlib.Data.Int.ConditionallyCompleteOrder
import Mathlib.Data.Set.Image
import Mathlib.Order.Bounds.Defs
import Mathlib.Order.Monotone.Defs
import EventHub.Calendar.Provider
import EventHub.Lib.Civil

/-!
# When a calendar rule is due

A rule lists seconds of civil days. Read by a clock, an instant is an
occurrence of the rule if its local time is one that is listed and no earlier
instant has the same local time.

What the providers rely on is here as well: that `time_shield` knows the civil
days from `lo` to `hi`, and what a named zone and a fixed offset are. A local
time exists in a zone if a supported instant has it.
-/

namespace EventHub

namespace CalendarRule

/-- The rule lists second `s` for day `n`. -/
def Lists (n s : Int) : CalendarRule → Prop
  | .daily second => s = second
  | .weekly schedule =>
      ∃ d : Fin 7, (d : Int) = Civil.weekday n ∧
        s ∈ schedule.secondsByWeekday d
  | .monthly schedule =>
      ∃ d : Fin 32, (d : Int) = (Civil.date n).day ∧
        s ∈ schedule.secondsByMonthDay d

def Scheduled (rule : CalendarRule) (n s : Int) : Prop :=
  validSecondOfDay s ∧ rule.Lists n s

/-- How many days ahead the provider looks. -/
def horizon : CalendarRule → Nat
  | .daily _ => 2
  | .weekly _ => 14
  | .monthly _ => 370

end CalendarRule

section Clock

variable {Zone : Type} (ts : TimeShield Zone) (clock : ZonedClock Zone)

def localDay (utcMs : Int) : Int := utcToLocalMs ts clock utcMs / msPerDay

/-- Of the instants `S`, the first ones of their local times. -/
def firstInstants (S : Set Int) : Set Int :=
  {u | u ∈ S ∧
    ∀ v ∈ S, utcToLocalMs ts clock v = utcToLocalMs ts clock u → u ≤ v}

/-- The occurrences of the rule among the instants `S`. -/
def CalendarRule.occurrences (rule : CalendarRule) (S : Set Int) : Set Int :=
  {u | u ∈ firstInstants ts clock S ∧ ∃ n s, rule.Scheduled n s ∧
    utcToLocalMs ts clock u = n * msPerDay + s * msPerSec}

/-- The occurrences after `after` that are within the horizon. -/
def CalendarRule.upcoming (rule : CalendarRule) (S : Set Int) (after : Int) :
    Set Int :=
  {u | after < u ∧ u ∈ rule.occurrences ts clock S ∧
    |localDay ts clock u - localDay ts clock after| ≤ rule.horizon}

end Clock

namespace TimeShield

variable {Zone : Type}

/-- The date of day `n` as `time_shield` has it. -/
def dateOf (n : Int) : DateTimeStruct where
  year := (Civil.date n).year
  mon := (Civil.date n).month
  day := (Civil.date n).day

structure KnowsDays (ts : TimeShield Zone) (lo hi : Int) : Prop where
  toDateTimeStructUtc : ∀ ms, lo ≤ ms / msPerDay → ms / msPerDay ≤ hi →
    ts.toDateTimeStructUtc ms = dateOf (ms / msPerDay)
  toTimestampMs : ∀ n, lo ≤ n → n ≤ hi →
    ts.toTimestampMs (dateOf n).year (dateOf n).mon (dateOf n).day =
      n * msPerDay
  dayOfWeekDate : ∀ n, lo ≤ n → n ≤ hi →
    ((ts.dayOfWeekDate (dateOf n).year (dateOf n).mon (dateOf n).day).toFin :
      Int) = Civil.weekday n

/-- The zone shows local time at the instants `S`. -/
structure KnowsZone (ts : TimeShield Zone) (zone : Zone) (S : Set Int) :
    Prop where
  first : ∀ l ∈ (ts.gmtToZoneMs · zone) '' S,
    IsLeast {u | u ∈ S ∧ ts.gmtToZoneMs u zone = l} (ts.zoneToGmtMs l zone)
  nonexistent : ∀ l ∉ (ts.gmtToZoneMs · zone) '' S,
    ts.zoneToGmtMs l zone = ts.errorTimestamp
  increasing : StrictMonoOn (ts.zoneToGmtMs · zone)
    ((ts.gmtToZoneMs · zone) '' S)
  errorTimestamp : ts.errorTimestamp ∉ S

/-- The clock has one offset, and the sentinel is no time of the days from
`lo` to `hi`. -/
structure KnowsOffset (ts : TimeShield Zone) (clock : ZonedClock Zone)
    (lo hi : Int) : Prop where
  offsetAtUtcMs : ∀ u, clock.offsetAtUtcMs u = clock.offsetAtUtcMs 0
  errorTimestamp : lo ≤ localDay ts clock ts.errorTimestamp →
    hi < localDay ts clock ts.errorTimestamp

end TimeShield

end EventHub
