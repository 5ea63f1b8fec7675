import Mathlib.Logic.Function.Iterate
import Mathlib.Algebra.Order.Group.Int
import Mathlib.Tactic.IntervalCases

/-!
# The civil calendar

The proleptic Gregorian calendar numbers its days: day 0 is 1 January 1970,
and every other day follows the one before it. A date that is none, such as
30 February, cannot be built.

The day of a date has a formula. Days come back: a day of the week within seven
days, a day of the month within three months, since of two months in a row one
has 31 days.
-/

namespace Civil

def IsLeap (year : Int) : Prop :=
  year % 4 = 0 ∧ (year % 100 ≠ 0 ∨ year % 400 = 0)

instance decidableIsLeap : DecidablePred IsLeap :=
  fun _ => inferInstanceAs (Decidable (_ ∧ _))

def monthLength (year month : Int) : Int :=
  if month = 2 then if IsLeap year then 29 else 28
  else if month = 4 ∨ month = 6 ∨ month = 9 ∨ month = 11 then 30
  else 31

theorem monthLength_bounds (year month : Int) :
    28 ≤ monthLength year month ∧ monthLength year month ≤ 31 := by
  unfold monthLength
  split
  · split <;> decide
  · split <;> decide

/-- No two months in a row are short. -/
theorem monthLength_or {year month : Int} (h1 : 1 ≤ month) (h2 : month ≤ 12)
    (year' : Int) :
    monthLength year month = 31 ∨ monthLength year' (month % 12 + 1) = 31 := by
  unfold monthLength
  by_cases h : month = 2 ∨ month = 4 ∨ month = 6 ∨ month = 9 ∨ month = 11
  · right
    rw [if_neg (by omega), if_neg (by omega)]
  · left
    rw [if_neg (by omega), if_neg (by omega)]

structure Date where
  year : Int
  month : Int
  day : Int
  month_pos : 1 ≤ month
  month_le : month ≤ 12
  day_pos : 1 ≤ day
  day_le : day ≤ monthLength year month
  deriving DecidableEq

namespace Date

theorem ext {d d' : Date} (hy : d.year = d'.year) (hm : d.month = d'.month)
    (hd : d.day = d'.day) : d = d' := by
  cases d
  cases d'
  cases hy
  cases hm
  cases hd
  rfl

theorem day_le_31 (d : Date) : d.day ≤ 31 :=
  d.day_le.trans (monthLength_bounds _ _).2

/-- The first day of a month. -/
def first (year month : Int) (h1 : 1 ≤ month) (h2 : month ≤ 12) : Date where
  year := year
  month := month
  day := 1
  month_pos := h1
  month_le := h2
  day_pos := by decide
  day_le := by have := monthLength_bounds year month; omega

def epoch : Date := first 1970 1 (by decide) (by decide)

/-- The day after. -/
def next (d : Date) : Date :=
  if h : d.day < monthLength d.year d.month then
    { d with
      day := d.day + 1
      day_pos := by have := d.day_pos; omega
      day_le := h }
  else if h : d.month < 12 then
    first d.year (d.month + 1) (by have := d.month_pos; omega) h
  else first (d.year + 1) 1 (by decide) (by decide)

/-- The last day of a month. -/
def last (year month : Int) (h1 : 1 ≤ month) (h2 : month ≤ 12) : Date where
  year := year
  month := month
  day := monthLength year month
  month_pos := h1
  month_le := h2
  day_pos := by have := monthLength_bounds year month; omega
  day_le := le_rfl

/-- The day before. -/
def prev (d : Date) : Date :=
  if h : 1 < d.day then
    { d with
      day := d.day - 1
      day_pos := by omega
      day_le := by have := d.day_le; omega }
  else if h : 1 < d.month then
    last d.year (d.month - 1) (by omega) (by have := d.month_le; omega)
  else last (d.year - 1) 12 (by decide) (by decide)

theorem next_of_lt {d : Date} (h : d.day < monthLength d.year d.month) :
    d.next.year = d.year ∧ d.next.month = d.month ∧ d.next.day = d.day + 1 := by
  unfold next
  rw [dif_pos h]
  exact ⟨rfl, rfl, rfl⟩

theorem next_of_eq {d : Date} (h : d.day = monthLength d.year d.month) :
    d.next.month = d.month % 12 + 1 ∧ d.next.day = 1 := by
  have h1 := d.month_pos
  have h2 := d.month_le
  unfold next
  rw [dif_neg (by omega)]
  split
  · next hlt => exact ⟨by change d.month + 1 = _; omega, rfl⟩
  · next hlt => exact ⟨by change 1 = _; omega, rfl⟩

theorem next_prev (d : Date) : d.prev.next = d := by
  have h1 := d.month_pos
  have h2 := d.month_le
  have h3 := d.day_pos
  have h4 := d.day_le
  unfold prev
  split
  · next h =>
      unfold next
      rw [dif_pos (by change d.day - 1 < monthLength d.year d.month; omega)]
      exact ext rfl rfl (by change d.day - 1 + 1 = _; omega)
  · next h =>
      split
      · next hm =>
          unfold next
          rw [dif_neg (by exact lt_irrefl (monthLength d.year (d.month - 1))),
            dif_pos (by change d.month - 1 < 12; omega)]
          exact ext rfl (by change d.month - 1 + 1 = _; omega)
            (by change 1 = _; omega)
      · next hm =>
          unfold next
          rw [dif_neg (by exact lt_irrefl (monthLength (d.year - 1) 12)),
            dif_neg (by exact lt_irrefl (12 : Int))]
          exact ext (by change d.year - 1 + 1 = _; omega)
            (by change 1 = _; omega) (by change 1 = _; omega)

end Date

/-- The date of a day. -/
def date : Int → Date
  | .ofNat n => Date.next^[n] Date.epoch
  | .negSucc n => Date.prev^[n + 1] Date.epoch

theorem date_add_one (n : Int) : date (n + 1) = (date n).next := by
  cases n with
  | ofNat n => exact Function.iterate_succ_apply' ..
  | negSucc n =>
      cases n with
      | zero => exact (Date.next_prev _).symm
      | succ n =>
          have h : date (Int.negSucc (n + 1)) = (date (Int.negSucc n)).prev :=
            Function.iterate_succ_apply' ..
          rw [h, Date.next_prev]
          rfl

/-! ## The day of a date -/

/-- The days of the year before the month begins. -/
def daysBefore (year month : Int) : Int :=
  if month ≤ 1 then 0
  else if month ≤ 2 then 31
  else
    (153 * (month - 3) + 2) / 5 + (if IsLeap year then 60 else 59)

theorem daysBefore_add_one {year month : Int} (h1 : 1 ≤ month)
    (h2 : month < 12) :
    daysBefore year (month + 1) =
      daysBefore year month + monthLength year month := by
  unfold daysBefore monthLength
  by_cases h : IsLeap year
  · simp only [if_pos h]
    interval_cases month <;> decide
  · simp only [if_neg h]
    interval_cases month <;> decide

/-- The day on which the year begins. -/
def yearStart (year : Int) : Int :=
  365 * (year - 1970) + (year - 1969) / 4 - (year - 1901) / 100 +
    (year - 1601) / 400

theorem yearStart_add_one (year : Int) :
    yearStart (year + 1) = yearStart year + daysBefore year 12 + 31 := by
  unfold yearStart daysBefore
  by_cases h : IsLeap year
  · simp only [if_pos h]
    unfold IsLeap at h
    omega
  · simp only [if_neg h]
    unfold IsLeap at h
    omega

def Date.number (d : Date) : Int :=
  yearStart d.year + daysBefore d.year d.month + d.day - 1

theorem Date.number_next (d : Date) : d.next.number = d.number + 1 := by
  have h1 := d.month_pos
  have h2 := d.day_le
  unfold next
  split
  · change yearStart d.year + daysBefore d.year d.month + (d.day + 1) - 1 =
      yearStart d.year + daysBefore d.year d.month + d.day - 1 + 1
    omega
  · split
    · next hm =>
        have : daysBefore d.year (d.month + 1) = _ := daysBefore_add_one h1 hm
        change yearStart d.year + daysBefore d.year (d.month + 1) + 1 - 1 =
          yearStart d.year + daysBefore d.year d.month + d.day - 1 + 1
        omega
    · next hd hm =>
        have h12 : d.month = 12 := by have := d.month_le; omega
        have := yearStart_add_one d.year
        have hlen : monthLength d.year 12 = 31 := rfl
        rw [h12] at hd h2
        change yearStart (d.year + 1) + daysBefore (d.year + 1) 1 + 1 - 1 =
          yearStart d.year + daysBefore d.year d.month + d.day - 1 + 1
        have h0 : daysBefore (d.year + 1) 1 = 0 := rfl
        rw [h12]
        omega

@[simp] theorem number_date (n : Int) : (date n).number = n := by
  have hback : ∀ n, (date (n + 1)).number = (date n).number + 1 := fun n => by
    rw [date_add_one, Date.number_next]
  induction n with
  | zero => decide
  | succ n ih => rw [hback, ih]
  | pred n ih =>
      have := hback (-n - 1)
      rw [Int.sub_add_cancel] at this
      omega

/-! ## Days come back -/

/-- Sunday is 0; the days began on a Thursday. -/
def weekday (n : Int) : Int := (n + 4) % 7

theorem exists_weekday (n : Int) {w : Int} (h0 : 0 ≤ w) (h7 : w < 7) :
    ∃ m, n < m ∧ m ≤ n + 7 ∧ weekday m = w :=
  ⟨n + 1 + (w - (n + 5)) % 7, by omega, by omega, by unfold weekday; omega⟩

/-- Within a month the day of the month counts along. -/
theorem date_add {n : Int} {j : Nat}
    (h : (date n).day + j ≤ monthLength (date n).year (date n).month) :
    (date (n + j)).year = (date n).year ∧ (date (n + j)).month = (date n).month ∧
      (date (n + j)).day = (date n).day + j := by
  induction j with
  | zero => simp
  | succ j ih =>
      obtain ⟨hy, hm, hd⟩ := ih (by omega)
      have hnext : date (n + (j + 1 : Nat)) = (date (n + j)).next := by
        rw [← date_add_one]
        congr 1
        omega
      obtain ⟨hy', hm', hd'⟩ := Date.next_of_lt (d := date (n + j))
        (by rw [hy, hm, hd]; omega)
      rw [hnext]
      exact ⟨hy'.trans hy, hm'.trans hm, by omega⟩

/-- The next month begins within 31 days. -/
theorem exists_first (n : Int) :
    ∃ m, n < m ∧ m ≤ n + 31 ∧ (date m).day = 1 ∧
      (date m).month = (date n).month % 12 + 1 := by
  have hpos := (date n).day_pos
  have hle := (date n).day_le
  have hlen := (monthLength_bounds (date n).year (date n).month).2
  obtain ⟨j, hj⟩ := Int.eq_ofNat_of_zero_le (Int.sub_nonneg_of_le hle)
  obtain ⟨hy, hm, hd⟩ := date_add (n := n) (j := j) (by omega)
  obtain ⟨hmonth, hday⟩ := Date.next_of_eq (d := date (n + j))
    (by rw [hy, hm, hd]; omega)
  rw [← date_add_one] at hmonth hday
  exact ⟨n + j + 1, by omega, by omega, hday, by rw [hmonth, hm]⟩

/-- A month of 31 days has every day. -/
theorem exists_day_of_first {n : Int} (h1 : (date n).day = 1)
    (h31 : monthLength (date n).year (date n).month = 31) {k : Int}
    (hk1 : 1 ≤ k) (hk31 : k ≤ 31) :
    ∃ m, n ≤ m ∧ m ≤ n + 30 ∧ (date m).day = k := by
  obtain ⟨j, hj⟩ := Int.eq_ofNat_of_zero_le (Int.sub_nonneg_of_le hk1)
  obtain ⟨-, -, hd⟩ := date_add (n := n) (j := j) (by omega)
  exact ⟨n + j, by omega, by omega, by omega⟩

theorem exists_day (n : Int) {k : Int} (h1 : 1 ≤ k) (h31 : k ≤ 31) :
    ∃ m, n < m ∧ m ≤ n + 92 ∧ (date m).day = k := by
  obtain ⟨m, hm1, hm2, hfirst, -⟩ := exists_first n
  obtain ⟨m', hm1', hm2', hfirst', hmonth'⟩ := exists_first m
  rcases monthLength_or (date m).month_pos (date m).month_le (date m').year
    with hlong | hlong
  · obtain ⟨q, hq1, hq2, hday⟩ := exists_day_of_first hfirst hlong h1 h31
    exact ⟨q, by omega, by omega, hday⟩
  · rw [← hmonth'] at hlong
    obtain ⟨q, hq1, hq2, hday⟩ := exists_day_of_first hfirst' hlong h1 h31
    exact ⟨q, by omega, by omega, hday⟩

end Civil
