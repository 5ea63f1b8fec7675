import Mathlib.Tactic.IntervalCases
import EventHub.Lib.OrderedList
import EventHub.Spec.Occurrences

/-!
# A provider finds the next occurrence

The scan goes through local times in order. The instants they stand for are in
the same order, so the first one that is late enough is the least.
-/

namespace EventHub

open TimeShield (dateOf)

theorem mem_normalizeSeconds {seconds : List Int} {s : Int} :
    s ∈ normalizeSeconds seconds ↔ s ∈ seconds ∧ validSecondOfDay s := by
  unfold normalizeSeconds
  rw [List.mem_destutter_ne, List.mem_insertionSort, List.mem_filter]

theorem pairwise_normalizeSeconds {seconds : List Int} :
    (normalizeSeconds seconds).Pairwise (· < ·) :=
  List.pairwise_destutter_ne (List.pairwise_insertionSort _ _)

theorem validSecondOfDay_iff {s : Int} :
    validSecondOfDay s = true ↔ 0 ≤ s ∧ s ≤ 86399 := by
  unfold validSecondOfDay
  rw [Bool.and_eq_true, decide_eq_true_eq, decide_eq_true_eq]
  rfl

/-- The time of a second is on its day. -/
theorem day_of_second {n s : Int} (h : validSecondOfDay s) :
    (n * msPerDay + s * msPerSec) / msPerDay = n := by
  rw [validSecondOfDay_iff] at h
  unfold msPerDay msPerSec
  omega

section Clock

variable {Zone : Type} {ts : TimeShield Zone} {clock : ZonedClock Zone}
  {S : Set Int} {lo hi : Int}

/-- What a scan from day `lo` to day `hi` relies on, for either kind of
clock. -/
structure ClockReads (ts : TimeShield Zone) (clock : ZonedClock Zone)
    (S : Set Int) (lo hi : Int) : Prop where
  localToUtcMs : ∀ l u, lo ≤ l / msPerDay → l / msPerDay ≤ hi →
    (localToUtcMs ts clock l = u ∧ u ≠ ts.errorTimestamp ↔
      u ∈ firstInstants ts clock S ∧ utcToLocalMs ts clock u = l)
  exists_first : ∀ u ∈ S, ∃ v ∈ firstInstants ts clock S, v ≤ u ∧
    utcToLocalMs ts clock v = utcToLocalMs ts clock u
  increasing : ∀ u ∈ firstInstants ts clock S,
    ∀ v ∈ firstInstants ts clock S,
      utcToLocalMs ts clock u < utcToLocalMs ts clock v → u < v

theorem TimeShield.KnowsZone.clockReads (hzone : ts.KnowsZone clock.zone S)
    (hnamed : clock.hasNamedZone = true) : ClockReads ts clock S lo hi := by
  have hlocal : ∀ u, utcToLocalMs ts clock u = ts.gmtToZoneMs u clock.zone :=
    fun u => if_pos hnamed
  have hutc : ∀ l, localToUtcMs ts clock l = ts.zoneToGmtMs l clock.zone :=
    fun l => if_pos hnamed
  have hfirst : ∀ u ∈ firstInstants ts clock S,
      ts.zoneToGmtMs (ts.gmtToZoneMs u clock.zone) clock.zone = u := by
    rintro u ⟨hu, hleast⟩
    obtain ⟨⟨hS, heq⟩, hle⟩ := hzone.first _ ⟨u, hu, rfl⟩
    refine le_antisymm (hle ⟨hu, rfl⟩) (hleast _ hS ?_)
    rw [hlocal, hlocal, heq]
  have hof : ∀ l ∈ (ts.gmtToZoneMs · clock.zone) '' S,
      ts.zoneToGmtMs l clock.zone ∈ firstInstants ts clock S := by
    intro l hl
    obtain ⟨⟨hS, heq⟩, hle⟩ := hzone.first l hl
    refine ⟨hS, fun v hv hlv => hle ⟨hv, ?_⟩⟩
    rw [hlocal, hlocal, heq] at hlv
    exact hlv
  constructor
  · intro l u _ _
    rw [hutc, hlocal]
    constructor
    · rintro ⟨rfl, herr⟩
      have hl : l ∈ (ts.gmtToZoneMs · clock.zone) '' S := by
        by_contra hl
        exact herr (hzone.nonexistent l hl)
      exact ⟨hof l hl, (hzone.first l hl).1.2⟩
    · rintro ⟨hu, rfl⟩
      refine ⟨hfirst u hu, ?_⟩
      rintro rfl
      exact hzone.errorTimestamp hu.1
  · intro u hu
    obtain ⟨⟨hS, heq⟩, hle⟩ := hzone.first _ ⟨u, hu, rfl⟩
    exact ⟨_, hof _ ⟨u, hu, rfl⟩, hle ⟨hu, rfl⟩, by rw [hlocal, hlocal, heq]⟩
  · intro u hu v hv hlt
    rw [hlocal, hlocal] at hlt
    rw [← hfirst u hu, ← hfirst v hv]
    exact hzone.increasing ⟨u, hu.1, rfl⟩ ⟨v, hv.1, rfl⟩ hlt

theorem TimeShield.KnowsOffset.utcToLocalMs
    (hoffset : ts.KnowsOffset clock lo hi) (hfixed : clock.hasNamedZone = false)
    (u : Int) : utcToLocalMs ts clock u =
      u + clock.offsetAtUtcMs 0 * msPerSec := by
  unfold EventHub.utcToLocalMs
  rw [hfixed, hoffset.offsetAtUtcMs u]
  rfl

theorem TimeShield.KnowsOffset.clockReads
    (hoffset : ts.KnowsOffset clock lo hi)
    (hfixed : clock.hasNamedZone = false) :
    ClockReads ts clock Set.univ lo hi := by
  have hlocal := hoffset.utcToLocalMs hfixed
  have hutc : ∀ l, localToUtcMs ts clock l =
      l - clock.offsetAtUtcMs 0 * msPerSec := by
    intro l
    unfold localToUtcMs
    rw [hfixed]
    rfl
  have hfirst : ∀ u, u ∈ firstInstants ts clock Set.univ := by
    refine fun u => ⟨trivial, fun v _ hv => ?_⟩
    rw [hlocal, hlocal] at hv
    omega
  constructor
  · intro l u h1 h2
    rw [hutc, hlocal]
    constructor
    · rintro ⟨rfl, -⟩
      exact ⟨hfirst _, by omega⟩
    · rintro ⟨-, rfl⟩
      refine ⟨by omega, ?_⟩
      rintro rfl
      have := hoffset.errorTimestamp
      unfold localDay at this
      rw [hlocal] at this
      omega
  · exact fun u _ => ⟨u, hfirst u, le_rfl, rfl⟩
  · intro u _ v _ hlt
    rw [hlocal, hlocal] at hlt
    omega

/-! ## The scan -/

/-- The local times that a scan of the days from `day` goes through. -/
def scanned (listed : Int → List Int) (day : Int) (maxDays : Nat) : List Int :=
  (List.range (maxDays + 1)).flatMap fun (k : Nat) =>
    (listed (day + k)).map fun s => (day + k) * msPerDay + s * msPerSec

theorem mem_scanned {listed : Int → List Int} {day l : Int} {maxDays : Nat} :
    l ∈ scanned listed day maxDays ↔
      ∃ n s, day ≤ n ∧ n ≤ day + maxDays ∧ s ∈ listed n ∧
        l = n * msPerDay + s * msPerSec := by
  unfold scanned
  simp only [List.mem_flatMap, List.mem_range, List.mem_map]
  constructor
  · rintro ⟨k, hk, s, hs, rfl⟩
    exact ⟨day + k, s, by omega, by omega, hs, rfl⟩
  · rintro ⟨n, s, h1, h2, hs, rfl⟩
    obtain ⟨k, hk⟩ := Int.eq_ofNat_of_zero_le (Int.sub_nonneg_of_le h1)
    obtain rfl : n = day + k := by omega
    exact ⟨k, by omega, s, hs, rfl⟩

/-- The scan walks upwards. -/
theorem pairwise_scanned {listed : Int → List Int} {day : Int} {maxDays : Nat}
    (hsorted : ∀ n, (listed n).Pairwise (· < ·))
    (hvalid : ∀ n, ∀ s ∈ listed n, validSecondOfDay s) :
    (scanned listed day maxDays).Pairwise (· < ·) := by
  unfold scanned
  rw [List.pairwise_flatMap]
  constructor
  · intro k _
    rw [List.pairwise_map]
    refine (hsorted _).imp fun {s t} hst => ?_
    unfold msPerSec
    omega
  · refine List.pairwise_lt_range.imp fun {j k} hjk => ?_
    simp only [List.mem_map]
    rintro l ⟨s, hs, rfl⟩ l' ⟨t, ht, rfl⟩
    have hs := validSecondOfDay_iff.mp (hvalid _ s hs)
    have ht := validSecondOfDay_iff.mp (hvalid _ t ht)
    unfold msPerDay msPerSec
    omega

/-- What the providers' two functions list for day `n`. -/
def listed (dayAllowed : DateTimeStruct → Bool)
    (secondsForDay : DateTimeStruct → List Int) (n : Int) : List Int :=
  if dayAllowed (dateOf n) then secondsForDay (dateOf n) else []

theorem scanLocalDays_eq (hdays : ts.KnowsDays lo hi) {after : Int}
    {maxDays : Nat} (hlo : lo ≤ localDay ts clock after)
    (hhi : localDay ts clock after + maxDays ≤ hi)
    {dayAllowed : DateTimeStruct → Bool}
    {secondsForDay : DateTimeStruct → List Int} :
    scanLocalDays ts clock after maxDays dayAllowed secondsForDay =
      (scanned (listed dayAllowed secondsForDay) (localDay ts clock after)
        maxDays).findSome? (dueAfter ts clock after) := by
  have hstart : localDayStartMs ts (utcToLocalMs ts clock after) =
      localDay ts clock after * msPerDay := by
    have hle : localDay ts clock after ≤ hi := by omega
    unfold localDayStartMs localStructFromMs
    rw [hdays.toDateTimeStructUtc _ hlo hle]
    exact hdays.toTimestampMs _ hlo hle
  unfold scanLocalDays scanned
  dsimp only
  rw [List.findSome?_flatMap, hstart]
  refine List.findSome?_congr fun k hk => ?_
  rw [List.mem_range] at hk
  have hday : localDay ts clock after * msPerDay + k * msPerDay =
      (localDay ts clock after + k) * msPerDay := by
    rw [Int.add_mul]
  have hdiv : (localDay ts clock after + k) * msPerDay / msPerDay =
      localDay ts clock after + k :=
    Int.mul_ediv_cancel _ (by decide)
  have hdate : localStructFromMs ts ((localDay ts clock after + k) * msPerDay) =
      dateOf (localDay ts clock after + k) := by
    unfold localStructFromMs
    rw [hdays.toDateTimeStructUtc _ (by omega) (by omega), hdiv]
  rw [List.findSome?_map, hday, hdate]
  unfold listed
  split
  · rfl
  · rfl

theorem ClockReads.dueAfter_eq_some (hclock : ClockReads ts clock S lo hi)
    {after l u : Int} (hlo : lo ≤ l / msPerDay) (hhi : l / msPerDay ≤ hi) :
    dueAfter ts clock after l = some u ↔
      after < u ∧ u ∈ firstInstants ts clock S ∧
        utcToLocalMs ts clock u = l := by
  rw [← hclock.localToUtcMs l u hlo hhi]
  unfold dueAfter
  constructor
  · intro h
    dsimp only at h
    split at h
    · cases h
    · next herr =>
        split at h
        · next hlt =>
            cases h
            exact ⟨hlt, rfl, herr⟩
        · cases h
  · rintro ⟨hlt, rfl, herr⟩
    dsimp only
    rw [if_neg herr, if_pos hlt]

/-! ## The three rules -/

/-- The functions list the seconds of the rule, in order. -/
structure CalendarRule.ListedBy (rule : CalendarRule) (ts : TimeShield Zone)
    (dayAllowed : DateTimeStruct → Bool)
    (secondsForDay : DateTimeStruct → List Int) : Prop where
  sorted : ∀ n, (listed dayAllowed secondsForDay n).Pairwise (· < ·)
  valid : ∀ n, ∀ s ∈ listed dayAllowed secondsForDay n, validSecondOfDay s
  mem : ∀ lo hi n s, ts.KnowsDays lo hi → lo ≤ n → n ≤ hi →
    (s ∈ listed dayAllowed secondsForDay n ↔ rule.Scheduled n s)

/-- No occurrence after `after` is on an earlier local day. -/
theorem ClockReads.localDay_le (hclock : ClockReads ts clock S lo hi)
    {after u : Int} (hafter : after ∈ S)
    (hu : u ∈ firstInstants ts clock S) (hlt : after < u) :
    localDay ts clock after ≤ localDay ts clock u := by
  obtain ⟨v, hv, hle, hlocal⟩ := hclock.exists_first after hafter
  by_contra hday
  have huv : utcToLocalMs ts clock u < utcToLocalMs ts clock v := by
    unfold localDay msPerDay at hday
    omega
  have := hclock.increasing u hu v hv huv
  omega

theorem CalendarRule.ListedBy.findsLeast {rule : CalendarRule}
    {dayAllowed : DateTimeStruct → Bool}
    {secondsForDay : DateTimeStruct → List Int}
    (hrule : rule.ListedBy ts dayAllowed secondsForDay)
    (hdays : ts.KnowsDays lo hi) (hclock : ClockReads ts clock S lo hi)
    {after : Int} (hafter : after ∈ S) (hlo : lo ≤ localDay ts clock after)
    (hhi : localDay ts clock after + rule.horizon ≤ hi) :
    List.FindsLeast (rule.upcoming ts clock S after)
      (scanLocalDays ts clock after rule.horizon dayAllowed secondsForDay) := by
  -- the local times of the scan stand for the occurrences in the window
  have hset : {u | ∃ l ∈ scanned (listed dayAllowed secondsForDay)
        (localDay ts clock after) rule.horizon,
        dueAfter ts clock after l = some u} =
      rule.upcoming ts clock S after := by
    ext u
    constructor
    · rintro ⟨l, hl, hdue⟩
      obtain ⟨n, s, h1, h2, hs, rfl⟩ := mem_scanned.mp hl
      have hday := day_of_second (n := n) (hrule.valid n s hs)
      obtain ⟨hlt, hfirst, hlocal⟩ :=
        (hclock.dueAfter_eq_some (by omega) (by omega)).mp hdue
      have hn : localDay ts clock u = n := by
        unfold localDay
        rw [hlocal, hday]
      refine ⟨hlt, ⟨hfirst, n, s, ?_, hlocal⟩, ?_⟩
      · exact (hrule.mem lo hi n s hdays (by omega) (by omega)).mp hs
      · rw [hn, abs_le]
        omega
    · rintro ⟨hlt, ⟨hfirst, n, s, hs, hlocal⟩, hwindow⟩
      have hday := day_of_second (n := n) hs.1
      have hn : localDay ts clock u = n := by
        unfold localDay
        rw [hlocal, hday]
      have hle := hclock.localDay_le hafter hfirst hlt
      rw [hn] at hle hwindow
      rw [abs_le] at hwindow
      refine ⟨_, mem_scanned.mpr ⟨n, s, hle, by omega, ?_, rfl⟩, ?_⟩
      · exact (hrule.mem lo hi n s hdays (by omega) (by omega)).mpr hs
      · exact (hclock.dueAfter_eq_some (by omega) (by omega)).mpr
          ⟨hlt, hfirst, hlocal⟩
  rw [scanLocalDays_eq hdays hlo hhi, ← hset]
  refine List.findsLeast_findSome?
    ((pairwise_scanned hrule.sorted hrule.valid).imp_of_mem ?_)
  intro l l' hl hl' hlt u v hu hv
  obtain ⟨n, s, h1, h2, hs, rfl⟩ := mem_scanned.mp hl
  obtain ⟨n', s', h1', h2', hs', rfl⟩ := mem_scanned.mp hl'
  have hday := day_of_second (n := n) (hrule.valid n s hs)
  have hday' := day_of_second (n := n') (hrule.valid n' s' hs')
  obtain ⟨-, hfirst, hlocal⟩ :=
    (hclock.dueAfter_eq_some (by omega) (by omega)).mp hu
  obtain ⟨-, hfirst', hlocal'⟩ :=
    (hclock.dueAfter_eq_some (by omega) (by omega)).mp hv
  exact (hclock.increasing u hfirst v hfirst' (by rw [hlocal, hlocal']; exact hlt)).le

theorem daily_listedBy {second : Int} :
    (CalendarRule.daily second).ListedBy ts (fun _ => true)
      fun _ => normalizeSeconds [second] where
  sorted _ := pairwise_normalizeSeconds
  valid _ _ hs := (mem_normalizeSeconds.mp hs).2
  mem _ _ _ s _ _ _ := by
    refine mem_normalizeSeconds.trans ?_
    rw [List.mem_singleton]
    exact And.comm

theorem listed_eq {dayAllowed : DateTimeStruct → Bool}
    {secondsForDay : DateTimeStruct → List Int} {n : Int}
    (h : dayAllowed (dateOf n) = !(secondsForDay (dateOf n)).isEmpty) :
    listed dayAllowed secondsForDay n = secondsForDay (dateOf n) := by
  unfold listed
  rw [h]
  cases hs : secondsForDay (dateOf n) with
  | nil => rfl
  | cons s l => rfl

theorem weekly_listedBy {schedule : WeeklySchedule} :
    let secondsForDay := fun dt : DateTimeStruct =>
      (normalizeWeekly schedule).1.secondsByWeekday
        (ts.dayOfWeekDate dt.year dt.mon dt.day).toFin
    (CalendarRule.weekly schedule).ListedBy ts
      (fun dt => !(secondsForDay dt).isEmpty) secondsForDay := by
  intro secondsForDay
  have hlisted : ∀ n, listed (fun dt => !(secondsForDay dt).isEmpty)
      secondsForDay n = secondsForDay (dateOf n) := fun n => listed_eq rfl
  constructor
  · intro n
    rw [hlisted]
    exact pairwise_normalizeSeconds
  · intro n s hs
    rw [hlisted] at hs
    exact (mem_normalizeSeconds.mp hs).2
  · intro lo hi n s hdays h1 h2
    have hweekday := hdays.dayOfWeekDate n h1 h2
    rw [hlisted]
    refine mem_normalizeSeconds.trans ⟨?_, ?_⟩
    · rintro ⟨hs, hvalid⟩
      exact ⟨hvalid, _, hweekday, hs⟩
    · rintro ⟨hvalid, d, hd, hs⟩
      obtain rfl : d = (ts.dayOfWeekDate (dateOf n).year (dateOf n).mon
          (dateOf n).day).toFin := by
        omega
      exact ⟨hs, hvalid⟩

/-- The index of a day of the month. -/
theorem day_index (n : Int) :
    ((Fin.ofNat 32 (dateOf n).day.toNat : Fin 32) : Int) = (Civil.date n).day ∧
      Fin.ofNat 32 (dateOf n).day.toNat ≠ 0 := by
  have h1 := (Civil.date n).day_pos
  have h31 := (Civil.date n).day_le_31
  have hval : ((Fin.ofNat 32 (dateOf n).day.toNat : Fin 32) : Int) =
      (Civil.date n).day := by
    change (((Civil.date n).day.toNat % 32 : Nat) : Int) = _
    omega
  refine ⟨hval, fun h0 => ?_⟩
  rw [h0] at hval
  change (0 : Int) = _ at hval
  omega

theorem monthly_listedBy {schedule : MonthlySchedule} :
    let secondsForDay := fun dt : DateTimeStruct =>
      (normalizeMonthly schedule).1.secondsByMonthDay
        (Fin.ofNat 32 dt.day.toNat)
    (CalendarRule.monthly schedule).ListedBy ts
      (fun dt => 1 ≤ dt.day && dt.day < 32 && !(secondsForDay dt).isEmpty)
      secondsForDay := by
  intro secondsForDay
  have hlisted : ∀ n, listed
      (fun dt => 1 ≤ dt.day && dt.day < 32 && !(secondsForDay dt).isEmpty)
      secondsForDay n = normalizeSeconds
        (schedule.secondsByMonthDay (Fin.ofNat 32 (dateOf n).day.toNat)) := by
    intro n
    have h1 : 1 ≤ (dateOf n).day := (Civil.date n).day_pos
    have h31 : (dateOf n).day ≤ 31 := (Civil.date n).day_le_31
    rw [listed_eq (by
      rw [decide_eq_true h1, decide_eq_true (show (dateOf n).day < 32 by omega)]
      rfl)]
    exact if_neg (day_index n).2
  constructor
  · intro n
    rw [hlisted]
    exact pairwise_normalizeSeconds
  · intro n s hs
    rw [hlisted] at hs
    exact (mem_normalizeSeconds.mp hs).2
  · intro lo hi n s hdays h1 h2
    have hday := (day_index n).1
    rw [hlisted]
    refine mem_normalizeSeconds.trans ⟨?_, ?_⟩
    · rintro ⟨hs, hvalid⟩
      exact ⟨hvalid, _, hday, hs⟩
    · rintro ⟨hvalid, d, hd, hs⟩
      obtain rfl : d = Fin.ofNat 32 (dateOf n).day.toNat := by
        omega
      exact ⟨hs, hvalid⟩

theorem not_isEmpty_of_mem {seconds : List Int} {s : Int} (h : s ∈ seconds) :
    (!seconds.isEmpty) = true := by
  rw [Bool.not_eq_true', List.isEmpty_eq_false_iff]
  exact List.ne_nil_of_mem h

/-- A rule that lists anything has a provider, which scans. -/
theorem CalendarRule.exists_provider {rule : CalendarRule}
    (hrule : ∃ n s, rule.Scheduled n s) :
    ∃ dayAllowed secondsForDay, rule.ListedBy ts dayAllowed secondsForDay ∧
      rule.provider ts = some fun clock after =>
        scanLocalDays ts clock after rule.horizon dayAllowed secondsForDay := by
  obtain ⟨n, s, hvalid, hlists⟩ := hrule
  cases rule with
  | daily second =>
      obtain rfl : s = second := hlists
      exact ⟨_, _, daily_listedBy, if_pos hvalid⟩
  | weekly schedule =>
      obtain ⟨d, -, hs⟩ := hlists
      have hany : (normalizeWeekly schedule).2 = true :=
        decide_eq_true ⟨d, not_isEmpty_of_mem
          (mem_normalizeSeconds.mpr ⟨hs, hvalid⟩)⟩
      exact ⟨_, _, weekly_listedBy, if_pos hany⟩
  | monthly schedule =>
      obtain ⟨d, hd, hs⟩ := hlists
      have hany : (normalizeMonthly schedule).2 = true := by
        refine decide_eq_true ⟨d, ?_⟩
        have h0 : d ≠ 0 := by
          rintro rfl
          have := (Civil.date n).day_pos
          rw [← hd] at this
          exact absurd this (by decide)
        dsimp only
        rw [if_neg h0]
        exact not_isEmpty_of_mem (mem_normalizeSeconds.mpr ⟨hs, hvalid⟩)
      exact ⟨_, _, monthly_listedBy, if_pos hany⟩

/-- What a rule lists it lists again, within the horizon. -/
theorem CalendarRule.exists_scheduled {rule : CalendarRule}
    (hrule : ∃ n s, rule.Scheduled n s) (day : Int) :
    ∃ n s, day < n ∧ n ≤ day + rule.horizon ∧ rule.Scheduled n s := by
  obtain ⟨n, s, hvalid, hlists⟩ := hrule
  cases rule with
  | daily second => exact ⟨day + 1, s, by omega, by change _ ≤ day + 2; omega,
      hvalid, hlists⟩
  | weekly schedule =>
      obtain ⟨d, hd, hs⟩ := hlists
      obtain ⟨m, h1, h2, hm⟩ := Civil.exists_weekday day (w := d)
        (by omega) (by omega)
      exact ⟨m, s, h1, by change _ ≤ day + 14; omega, hvalid, d, hm.symm, hs⟩
  | monthly schedule =>
      obtain ⟨d, hd, hs⟩ := hlists
      obtain ⟨m, h1, h2, hm⟩ := Civil.exists_day day (k := d)
        (by rw [hd]; exact (Civil.date n).day_pos)
        (by rw [hd]; exact (Civil.date n).day_le_31)
      exact ⟨m, s, h1, by change _ ≤ day + 370; omega, hvalid, d, hm.symm, hs⟩

/-- In a fixed offset there is always a next occurrence, and it is near. -/
theorem CalendarRule.isLeast_of_fixed {rule : CalendarRule}
    (hrule : ∃ n s, rule.Scheduled n s)
    (hoffset : ts.KnowsOffset clock lo hi)
    (hfixed : clock.hasNamedZone = false) {after : Int} {result : Option Int}
    (h : List.FindsLeast (rule.upcoming ts clock Set.univ after) result) :
    ∃ u, result = some u ∧
      IsLeast (rule.upcoming ts clock Set.univ after) u ∧
      IsLeast {v | after < v ∧ v ∈ rule.occurrences ts clock Set.univ} u := by
  have hlocal := hoffset.utcToLocalMs hfixed
  have hclock := hoffset.clockReads hfixed
  cases result with
  | none =>
      exfalso
      obtain ⟨n, s, h1, h2, hs⟩ :=
        rule.exists_scheduled hrule (localDay ts clock after)
      have hday := day_of_second (n := n) hs.1
      -- the instant of that second
      have hu : utcToLocalMs ts clock (n * msPerDay + s * msPerSec -
          clock.offsetAtUtcMs 0 * msPerSec) =
          n * msPerDay + s * msPerSec := by
        rw [hlocal]
        omega
      have hlt : utcToLocalMs ts clock after <
          n * msPerDay + s * msPerSec := by
        unfold localDay msPerDay at h1
        have := validSecondOfDay_iff.mp hs.1
        unfold msPerDay msPerSec
        omega
      have hmem : n * msPerDay + s * msPerSec -
          clock.offsetAtUtcMs 0 * msPerSec ∈
          rule.upcoming ts clock Set.univ after := by
        refine ⟨?_, ⟨⟨trivial, fun v _ hv => ?_⟩, n, s, hs, hu⟩, ?_⟩
        · rw [hlocal] at hlt
          omega
        · rw [hlocal, hlocal] at hv
          omega
        · unfold localDay at h1 h2 ⊢
          rw [hu, hday, abs_le]
          omega
      rw [h.2 rfl] at hmem
      exact hmem
  | some u =>
      have hleast := h.1 u rfl
      obtain ⟨⟨hlt, hocc, hwindow⟩, hle⟩ := hleast
      refine ⟨u, rfl, h.1 u rfl, ⟨hlt, hocc⟩, ?_⟩
      rintro v ⟨hv, hvocc⟩
      rw [abs_le] at hwindow
      have hfrom := hclock.localDay_le (Set.mem_univ after) hvocc.1 hv
      by_cases hnear : localDay ts clock v ≤
          localDay ts clock after + rule.horizon
      · exact hle ⟨hv, hvocc, by rw [abs_le]; omega⟩
      · -- later days are later instants
        have huv : utcToLocalMs ts clock u < utcToLocalMs ts clock v := by
          have hdays : localDay ts clock u < localDay ts clock v := by omega
          unfold localDay msPerDay at hdays
          omega
        exact (hclock.increasing u hocc.1 v hvocc.1 huv).le

/-- The provider of a rule finds the least instant after the given one that is
an occurrence within the horizon, and with a fixed offset the next of all. -/
theorem CalendarRule.nextOccurrence {rule : CalendarRule}
    (hrule : ∃ n s, rule.Scheduled n s) (hdays : ts.KnowsDays lo hi) :
    ∃ provider, rule.provider ts = some provider ∧
      ∀ (clock : ZonedClock Zone) (after : Int),
        lo ≤ localDay ts clock after →
        localDay ts clock after + rule.horizon ≤ hi →
        (clock.hasNamedZone = true → ∀ S : Set Int,
          ts.KnowsZone clock.zone S → after ∈ S →
          List.FindsLeast (rule.upcoming ts clock S after)
            (provider clock after)) ∧
        (clock.hasNamedZone = false → ts.KnowsOffset clock lo hi →
          ∃ u, provider clock after = some u ∧
            IsLeast (rule.upcoming ts clock Set.univ after) u ∧
            IsLeast {v | after < v ∧ v ∈ rule.occurrences ts clock Set.univ}
              u) := by
  obtain ⟨dayAllowed, secondsForDay, hlisted, hprovider⟩ :
      ∃ dayAllowed secondsForDay, rule.ListedBy ts dayAllowed secondsForDay ∧ _ :=
    rule.exists_provider hrule
  refine ⟨_, hprovider, fun clock after hlo hhi => ⟨?_, ?_⟩⟩
  · intro hnamed S hzone hafter
    exact hlisted.findsLeast hdays (hzone.clockReads hnamed) hafter hlo hhi
  · intro hfixed hoffset
    exact rule.isLeast_of_fixed hrule hoffset hfixed
      (hlisted.findsLeast hdays (hoffset.clockReads hfixed) trivial hlo hhi)

end Clock

/-! ## A zone with summer time -/

def summerFrom : Int := 90 * msPerDay + 7200 * msPerSec

def summerTo : Int := 300 * msPerDay + 3600 * msPerSec

/-- The civil calendar, and a zone that is an hour ahead in summer. -/
def summerTime : TimeShield Unit where
  toDateTimeStructUtc ms := dateOf (ms / msPerDay)
  toTimestampMs year mon day :=
    (Civil.yearStart year + Civil.daysBefore year mon + day - 1) * msPerDay
  dayOfWeekDate year mon day :=
    match ((Civil.yearStart year + Civil.daysBefore year mon + day + 3) %
        7).toNat with
    | 0 => .sun
    | 1 => .mon
    | 2 => .tue
    | 3 => .wed
    | 4 => .thu
    | 5 => .fri
    | _ => .sat
  gmtToZoneMs utcMs _ :=
    if summerFrom ≤ utcMs ∧ utcMs < summerTo then utcMs + 3600 * msPerSec
    else utcMs
  zoneToGmtMs localMs _ :=
    if localMs < 0 then -1
    else if localMs < summerFrom then localMs
    else if localMs < summerFrom + 3600 * msPerSec then -1
    else if localMs < summerTo + 3600 * msPerSec then
      localMs - 3600 * msPerSec
    else localMs
  errorTimestamp := -1

theorem summerTime_knowsDays {lo hi : Int} : summerTime.KnowsDays lo hi where
  toDateTimeStructUtc _ _ _ := rfl
  toTimestampMs n _ _ :=
    congrArg (· * msPerDay) (Civil.number_date n)
  dayOfWeekDate n _ _ := by
    have hn : Civil.yearStart (dateOf n).year +
        Civil.daysBefore (dateOf n).year (dateOf n).mon + (dateOf n).day - 1 =
        n := Civil.number_date n
    have hshift : Civil.yearStart (dateOf n).year +
        Civil.daysBefore (dateOf n).year (dateOf n).mon + (dateOf n).day + 3 =
        n + 4 := by
      omega
    unfold summerTime Civil.weekday
    dsimp only
    rw [hshift]
    obtain ⟨k, hk⟩ := Int.eq_ofNat_of_zero_le (Int.emod_nonneg (n + 4)
      (show (7 : Int) ≠ 0 by decide))
    have hlt := Int.emod_lt_of_pos (n + 4) (show (0 : Int) < 7 by decide)
    rw [hk] at hlt ⊢
    have hlt : k < 7 := by omega
    interval_cases k <;> rfl

/-- The zone has been there since day 0. -/
theorem summerTime_knowsZone :
    summerTime.KnowsZone () {u | 0 ≤ u} := by
  have hlocal : ∀ u, summerTime.gmtToZoneMs u () =
      if 7783200000 ≤ u ∧ u < 25923600000 then u + 3600000 else u :=
    fun _ => rfl
  have hutc : ∀ l, summerTime.zoneToGmtMs l () =
      if l < 0 then -1
      else if l < 7783200000 then l
      else if l < 7786800000 then -1
      else if l < 25927200000 then l - 3600000
      else l :=
    fun _ => rfl
  have hback : ∀ u, 0 ≤ u →
      0 ≤ summerTime.zoneToGmtMs (summerTime.gmtToZoneMs u ()) () ∧
      summerTime.zoneToGmtMs (summerTime.gmtToZoneMs u ()) () ≤ u := by
    intro u hu
    rw [hutc, hlocal]
    grind
  have hexists : ∀ l, summerTime.zoneToGmtMs l () ≠ -1 →
      0 ≤ summerTime.zoneToGmtMs l () ∧
      summerTime.gmtToZoneMs (summerTime.zoneToGmtMs l ()) () = l := by
    intro l
    rw [hutc, hlocal]
    grind
  constructor
  · rintro l ⟨u, hu, rfl⟩
    have hne : summerTime.zoneToGmtMs (summerTime.gmtToZoneMs u ()) () ≠ -1 := by
      have := (hback u hu).1
      omega
    refine ⟨hexists _ hne, ?_⟩
    rintro v ⟨hv, hvu⟩
    have hle := (hback v hv).2
    rw [hvu] at hle
    exact hle
  · intro l hl
    by_contra hne
    exact hl ⟨_, hexists l hne⟩
  · rintro _ ⟨u, hu, rfl⟩ _ ⟨v, hv, rfl⟩ huv
    change 0 ≤ u at hu
    change 0 ≤ v at hv
    change summerTime.gmtToZoneMs u () < summerTime.gmtToZoneMs v () at huv
    change summerTime.zoneToGmtMs (summerTime.gmtToZoneMs u ()) () <
      summerTime.zoneToGmtMs (summerTime.gmtToZoneMs v ()) ()
    rw [hlocal, hlocal] at huv
    rw [hutc, hutc, hlocal, hlocal]
    grind
  · exact fun h => absurd h (by decide)

/-- On day 90 there is no half past two. -/
theorem nextOccurrence_summerTime :
    ∃ provider, (CalendarRule.daily 9000).provider summerTime = some provider ∧
      List.FindsLeast
        ((CalendarRule.daily 9000).upcoming summerTime
          { hasNamedZone := true, zone := (), offsetAtUtcMs := fun _ => 0 }
          {u | 0 ≤ u} (89 * msPerDay + 9000 * msPerSec))
        (provider
          { hasNamedZone := true, zone := (), offsetAtUtcMs := fun _ => 0 }
          (89 * msPerDay + 9000 * msPerSec)) := by
  have hrule : ∃ n s, (CalendarRule.daily 9000).Scheduled n s :=
    ⟨0, 9000, rfl, rfl⟩
  obtain ⟨provider, hprovider, h⟩ := CalendarRule.nextOccurrence hrule
    (summerTime_knowsDays : summerTime.KnowsDays 0 400)
  exact ⟨provider, hprovider, (h _ _ (by decide) (by decide)).1 rfl _
    summerTime_knowsZone (by decide)⟩

example : ((CalendarRule.daily 9000).provider summerTime).bind (fun provider =>
    provider { hasNamedZone := true, zone := (), offsetAtUtcMs := fun _ => 0 }
      (89 * msPerDay + 9000 * msPerSec)) =
    some (91 * msPerDay + 5400 * msPerSec) := by
  decide +kernel

end EventHub
