import Mathlib.Data.List.Range
import EventHub.Hub.Types

/-!
# The life of a hub's modules

What the history shows of the lifecycle hooks, and the lives a hub may lead. A
hub is fresh until its modules are initialized, live until they are shut down,
and ended from then on. `HubLife` lists what the hooks may have done on the way
from one of these phases to another, which makes the properties of a life a
matter of reading off its list.
-/

namespace EventHub

variable {τ ε : Type}

/-- A hook of module `k` begins or ends. -/
inductive LifeEvent
  | initializing (k : Nat)
  | initialized (k : Nat)
  | initializeThrew (k : Nat)
  | processing (k : Nat)
  /-- `on_process` has returned or thrown. -/
  | processed (k : Nat)
  | stopping (k : Nat)
  | stopped (k : Nat)
  deriving DecidableEq, Repr

def HubCode.isHook : HubCode τ ε → Bool
  | .onInitialize _ | .onProcess _ | .onShutdown _ => true
  | _ => false

def HubNotice.lifeEvent : HubNotice τ ε → Option LifeEvent
  | .began (.onInitialize k) => some (.initializing k)
  | .ended (.onInitialize k) true => some (.initialized k)
  | .ended (.onInitialize k) false => some (.initializeThrew k)
  | .began (.onProcess k) => some (.processing k)
  | .ended (.onProcess k) _ => some (.processed k)
  | .began (.onShutdown k) => some (.stopping k)
  | .ended (.onShutdown k) _ => some (.stopped k)
  | _ => none

/-- The hooks in a log, oldest first. -/
def lifeEvents (log : List (HubNotice τ ε)) : List LifeEvent :=
  (log.filterMap HubNotice.lifeEvent).reverse

theorem lifeEvents_append (newer older : List (HubNotice τ ε)) :
    lifeEvents (newer ++ older) = lifeEvents older ++ lifeEvents newer := by
  unfold lifeEvents
  rw [List.filterMap_append, List.reverse_append]

theorem HubNotice.lifeEvent_eq_none {o : HubNotice τ ε}
    (h : o.code.isHook = false) : o.lifeEvent = none := by
  cases o with
  | began c => cases c <;> first | rfl | cases h
  | ended c _ => cases c <;> first | rfl | cases h

theorem lifeEvents_eq_nil {log : List (HubNotice τ ε)}
    (h : ∀ o ∈ log, o.code.isHook = false) : lifeEvents log = [] := by
  unfold lifeEvents
  rw [List.filterMap_eq_nil_iff.mpr fun o ho =>
    HubNotice.lifeEvent_eq_none (h o ho), List.reverse_nil]

namespace LifeEvent

def initStart : LifeEvent → Option Nat
  | .initializing k => some k
  | _ => none

def stopStart : LifeEvent → Option Nat
  | .stopping k => some k
  | _ => none

/-- The hooks of the first `k` modules return, in the order of registration. -/
def initializations (k : Nat) : List LifeEvent :=
  (List.range k).flatMap fun j => [.initializing j, .initialized j]

def processings (ks : List Nat) : List LifeEvent :=
  ks.flatMap fun k => [.processing k, .processed k]

/-- The first `k` modules are shut down, in the reverse order. -/
def shutdowns (k : Nat) : List LifeEvent :=
  (List.range k).reverse.flatMap fun j => [.stopping j, .stopped j]

/-- The hook of module `k` throws, and the modules before it are shut down. -/
def abandonment (k : Nat) : List LifeEvent :=
  initializations k ++ [.initializing k, .initializeThrew k] ++ shutdowns k

end LifeEvent

inductive HubPhase
  | fresh
  | live
  | ended
  deriving DecidableEq, Repr

open LifeEvent in
/-- What the hooks of `n` modules may do on the way from one phase to another. -/
inductive HubLife (n : Nat) : HubPhase → List LifeEvent → HubPhase → Prop
  | fresh : HubLife n .fresh [] .fresh
  | unused : HubLife n .fresh [] .ended
  | abandoned {k : Nat} (hk : k < n) : HubLife n .fresh (abandonment k) .ended
  | initialized (ks : List Nat) (h : ∀ k ∈ ks, k < n) :
      HubLife n .fresh (initializations n ++ processings ks) .live
  | completed (ks : List Nat) (h : ∀ k ∈ ks, k < n) :
      HubLife n .fresh (initializations n ++ processings ks ++ shutdowns n) .ended
  | live (ks : List Nat) (h : ∀ k ∈ ks, k < n) :
      HubLife n .live (processings ks) .live
  | stopped (ks : List Nat) (h : ∀ k ∈ ks, k < n) :
      HubLife n .live (processings ks ++ shutdowns n) .ended
  | ended : HubLife n .ended [] .ended

namespace HubLife

variable {n : Nat} {p q r : HubPhase} {evs evs' : List LifeEvent}

theorem nil (n : Nat) (p : HubPhase) : HubLife n p [] p := by
  cases p with
  | fresh => exact .fresh
  | live => exact .live [] (List.forall_mem_nil _)
  | ended => exact .ended

/-- One life after another. -/
theorem append (h : HubLife n p evs q) (h' : HubLife n q evs' r) :
    HubLife n p (evs ++ evs') r := by
  have hjoin {ks ks' : List Nat} (hks : ∀ k ∈ ks, k < n)
      (hks' : ∀ k ∈ ks', k < n) : ∀ k ∈ ks ++ ks', k < n :=
    fun k hk => (List.mem_append.mp hk).elim (hks k) (hks' k)
  have hprocessings (ks ks' : List Nat) : LifeEvent.processings ks ++
      LifeEvent.processings ks' = LifeEvent.processings (ks ++ ks') :=
    List.flatMap_append.symm
  cases h with
  | fresh => exact h'
  | unused | abandoned | completed | stopped | ended =>
      cases h'
      rw [List.append_nil]
      constructor <;> assumption
  | initialized ks hks =>
      cases h' with
      | live ks' hks' =>
          rw [List.append_assoc, hprocessings]
          exact .initialized _ (hjoin hks hks')
      | stopped ks' hks' =>
          rw [List.append_assoc, ← List.append_assoc (LifeEvent.processings ks),
            hprocessings, ← List.append_assoc]
          exact .completed _ (hjoin hks hks')
  | live ks hks =>
      cases h' with
      | live ks' hks' =>
          rw [hprocessings]
          exact .live _ (hjoin hks hks')
      | stopped ks' hks' =>
          rw [← List.append_assoc, hprocessings]
          exact .stopped _ (hjoin hks hks')

end HubLife

/-! ## What a life has kept to -/

/-- The hooks of `n` modules have been called in order. -/
structure OrderedLife (n : Nat) (evs : List LifeEvent) : Prop where
  /-- `on_initialize` is called once for each module, in registration order. -/
  initOrder : ∃ j ≤ n, evs.filterMap LifeEvent.initStart = List.range j
  /-- After the hook of module `k` threw, the modules before it were shut down,
  in the reverse order, and nothing else happened. -/
  abandoned : ∀ pre k post, evs = pre ++ .initializeThrew k :: post →
    post = LifeEvent.shutdowns k
  /-- `on_process` is called between the two other hooks. -/
  processedWithin : ∀ pre k post, evs = pre ++ .processing k :: post →
    .initialized k ∈ pre ∧ .stopping k ∉ pre
  /-- `on_shutdown` is called at most once for a module, in reverse order. -/
  stopOrder : (evs.filterMap LifeEvent.stopStart).Pairwise (· > ·)
  stopsInitialized : ∀ pre k post, evs = pre ++ .stopping k :: post →
    .initialized k ∈ pre

/-- `on_shutdown` has been called once if `on_initialize` has returned, and
otherwise never. -/
def EachStopped (evs : List LifeEvent) : Prop :=
  ∀ k, evs.count (.stopping k) = if .initialized k ∈ evs then 1 else 0

namespace LifeEvent

variable {k : Nat} {e : LifeEvent} {ks : List Nat}

theorem initializations_succ (k : Nat) : initializations (k + 1) =
    initializations k ++ [.initializing k, .initialized k] := by
  unfold initializations
  rw [List.range_succ, List.flatMap_append, List.flatMap_singleton]

theorem shutdowns_succ (k : Nat) : shutdowns (k + 1) =
    [.stopping k, .stopped k] ++ shutdowns k := by
  unfold shutdowns
  rw [List.range_succ, List.reverse_append, List.reverse_singleton,
    List.flatMap_append, List.flatMap_singleton]

theorem mem_initializations : e ∈ initializations k ↔
    ∃ j < k, e = .initializing j ∨ e = .initialized j := by
  simp [initializations]

theorem mem_processings : e ∈ processings ks ↔
    ∃ k ∈ ks, e = .processing k ∨ e = .processed k := by
  simp [processings]

theorem mem_shutdowns : e ∈ shutdowns k ↔
    ∃ j < k, e = .stopping j ∨ e = .stopped j := by
  simp [shutdowns]

theorem initStart_initializations (k : Nat) :
    (initializations k).filterMap initStart = List.range k := by
  induction k with
  | zero => rfl
  | succ k ih =>
      rw [initializations_succ, List.filterMap_append, ih, List.range_succ]
      rfl

theorem stopStart_shutdowns (k : Nat) :
    (shutdowns k).filterMap stopStart = (List.range k).reverse := by
  induction k with
  | zero => rfl
  | succ k ih =>
      rw [shutdowns_succ, List.filterMap_append, ih, List.range_succ,
        List.reverse_append]
      rfl

theorem initStart_processings (ks : List Nat) :
    (processings ks).filterMap initStart = [] := by
  rw [List.filterMap_eq_nil_iff]
  intro e he
  obtain ⟨k, -, rfl | rfl⟩ := mem_processings.mp he <;> rfl

theorem initStart_shutdowns (k : Nat) :
    (shutdowns k).filterMap initStart = [] := by
  rw [List.filterMap_eq_nil_iff]
  intro e he
  obtain ⟨k, -, rfl | rfl⟩ := mem_shutdowns.mp he <;> rfl

theorem stopStart_initializations (k : Nat) :
    (initializations k).filterMap stopStart = [] := by
  rw [List.filterMap_eq_nil_iff]
  intro e he
  obtain ⟨k, -, rfl | rfl⟩ := mem_initializations.mp he <;> rfl

theorem stopStart_processings (ks : List Nat) :
    (processings ks).filterMap stopStart = [] := by
  rw [List.filterMap_eq_nil_iff]
  intro e he
  obtain ⟨k, -, rfl | rfl⟩ := mem_processings.mp he <;> rfl

theorem count_shutdowns (j k : Nat) :
    (shutdowns k).count (.stopping j) = if j < k then 1 else 0 := by
  induction k with
  | zero => rfl
  | succ k ih =>
      rw [shutdowns_succ, List.count_append, ih]
      by_cases h : j = k
      · subst h
        simp
      · have hcount : List.count (stopping j) [.stopping k, .stopped k] = 0 := by
          simp [Ne.symm h]
        rw [hcount, Nat.zero_add]
        exact if_congr (by omega) rfl rfl

/-- The part of a list before an element that is not in its beginning. -/
theorem before_of_append_eq {front back pre post : List LifeEvent}
    (h : front ++ back = pre ++ e :: post) (he : e ∉ front) :
    ∃ rest, pre = front ++ rest ∧ back = rest ++ e :: post := by
  rcases List.append_eq_append_iff.mp h with ⟨rest, hpre, hback⟩ | ⟨rest, hfront, hpost⟩
  · exact ⟨rest, hpre, hback⟩
  · cases rest with
    | nil => exact ⟨[], by rw [hfront, List.append_nil, List.append_nil], hpost.symm⟩
    | cons e' rest =>
        rw [List.cons_append, List.cons.injEq] at hpost
        refine absurd ?_ he
        rw [hfront, hpost.1]
        exact List.mem_append_right _ List.mem_cons_self

end LifeEvent

namespace OrderedLife

open LifeEvent

variable {n m k : Nat} {ks : List Nat} {evs : List LifeEvent}

theorem nil (n : Nat) : OrderedLife n [] where
  initOrder := ⟨0, Nat.zero_le n, rfl⟩
  abandoned pre k post h := absurd h.symm (by simp)
  processedWithin pre k post h := absurd h.symm (by simp)
  stopOrder := List.Pairwise.nil
  stopsInitialized pre k post h := absurd h.symm (by simp)

/-- All hooks returned, some modules were processed, and some were shut down. -/
theorem complete (hks : ∀ k ∈ ks, k < n) (hm : m ≤ n) :
    OrderedLife n (initializations n ++ processings ks ++ shutdowns m) where
  initOrder := by
    refine ⟨n, Nat.le_refl n, ?_⟩
    rw [List.filterMap_append, List.filterMap_append, initStart_initializations,
      initStart_processings, initStart_shutdowns, List.append_nil, List.append_nil]
  abandoned pre k post h := by
    have hmem : initializeThrew k ∈
        initializations n ++ processings ks ++ shutdowns m :=
      h ▸ List.mem_append_right _ List.mem_cons_self
    simp [mem_initializations, mem_processings, mem_shutdowns] at hmem
  processedWithin pre k post h := by
    rw [List.append_assoc] at h
    obtain ⟨rest, rfl, hrest⟩ :=
      before_of_append_eq h (by simp [mem_initializations])
    -- what comes before it was not shut down, since it is not itself
    have hfront : rest <+: processings ks := by
      rcases List.append_eq_append_iff.mp hrest with
        ⟨front, hfront, hpost⟩ | ⟨front, hfront, -⟩
      · have hmem : processing k ∈ shutdowns m :=
          hpost ▸ List.mem_append_right _ List.mem_cons_self
        simp [mem_shutdowns] at hmem
      · exact ⟨front, hfront.symm⟩
    have hk : processing k ∈ processings ks := by
      have hmem : processing k ∈ processings ks ++ shutdowns m :=
        hrest ▸ List.mem_append_right _ List.mem_cons_self
      simpa [mem_shutdowns] using hmem
    constructor
    · refine List.mem_append_left _ (mem_initializations.mpr ⟨k, ?_, .inr rfl⟩)
      obtain ⟨j, hj, heq | heq⟩ := mem_processings.mp hk
      · rw [LifeEvent.processing.inj heq]
        exact hks j hj
      · cases heq
    · intro hmem
      rcases List.mem_append.mp hmem with hmem | hmem
      · simp [mem_initializations] at hmem
      · have := hfront.subset hmem
        simp [mem_processings] at this
  stopOrder := by
    rw [List.filterMap_append, List.filterMap_append, stopStart_initializations,
      stopStart_processings, stopStart_shutdowns, List.nil_append, List.nil_append]
    exact List.pairwise_reverse.mpr List.pairwise_lt_range
  stopsInitialized pre k post h := by
    have hk : k < n := by
      have hmem : stopping k ∈
          initializations n ++ processings ks ++ shutdowns m :=
        h ▸ List.mem_append_right _ List.mem_cons_self
      simp [mem_initializations, mem_processings, mem_shutdowns] at hmem
      omega
    rw [List.append_assoc] at h
    obtain ⟨rest, rfl, -⟩ := before_of_append_eq h (by simp [mem_initializations])
    exact List.mem_append_left _ (mem_initializations.mpr ⟨k, hk, .inr rfl⟩)

/-- The hook of module `k` threw. -/
theorem abandonment (hk : k < n) : OrderedLife n (abandonment k) where
  initOrder := by
    refine ⟨k + 1, hk, ?_⟩
    rw [LifeEvent.abandonment, List.filterMap_append, List.filterMap_append,
      initStart_initializations, initStart_shutdowns, List.append_nil,
      List.range_succ]
    rfl
  abandoned pre j post h := by
    rw [LifeEvent.abandonment, List.append_assoc] at h
    obtain ⟨rest, rfl, hrest⟩ :=
      before_of_append_eq h (by simp [mem_initializations])
    cases rest with
    | nil => cases hrest
    | cons e rest =>
        have htail := (List.cons.inj hrest).2
        cases rest with
        | nil =>
            obtain ⟨heq, hpost⟩ := List.cons.inj htail
            cases heq
            exact hpost.symm
        | cons e' rest =>
            have hstops : shutdowns k = rest ++ .initializeThrew j :: post :=
              (List.cons.inj htail).2
            have hmem : initializeThrew j ∈ shutdowns k :=
              hstops ▸ List.mem_append_right _ List.mem_cons_self
            simp [mem_shutdowns] at hmem
  processedWithin pre j post h := by
    have hmem : processing j ∈ LifeEvent.abandonment k :=
      h ▸ List.mem_append_right _ List.mem_cons_self
    simp [LifeEvent.abandonment, mem_initializations, mem_shutdowns] at hmem
  stopOrder := by
    rw [LifeEvent.abandonment, List.filterMap_append, List.filterMap_append,
      stopStart_initializations, stopStart_shutdowns]
    exact List.pairwise_reverse.mpr List.pairwise_lt_range
  stopsInitialized pre j post h := by
    have hj : j < k := by
      have hmem : stopping j ∈ LifeEvent.abandonment k :=
        h ▸ List.mem_append_right _ List.mem_cons_self
      simpa [LifeEvent.abandonment, mem_initializations, mem_shutdowns] using hmem
    rw [LifeEvent.abandonment, List.append_assoc] at h
    obtain ⟨rest, rfl, -⟩ := before_of_append_eq h (by simp [mem_initializations])
    exact List.mem_append_left _ (mem_initializations.mpr ⟨j, hj, .inr rfl⟩)

end OrderedLife

namespace HubLife

open LifeEvent

variable {n : Nat} {q : HubPhase} {evs : List LifeEvent}

theorem ordered (h : HubLife n .fresh evs q) : OrderedLife n evs := by
  cases h with
  | fresh | unused => exact .nil n
  | abandoned hk => exact .abandonment hk
  | initialized ks hks =>
      have := OrderedLife.complete hks (Nat.zero_le n)
      rwa [shutdowns, List.range_zero, List.reverse_nil, List.flatMap_nil,
        List.append_nil] at this
  | completed ks hks => exact .complete hks (Nat.le_refl n)

theorem eachStopped (h : HubLife n .fresh evs .ended) : EachStopped evs := by
  intro k
  have hinit (j : Nat) : (initializations j).count (stopping k) = 0 :=
    List.count_eq_zero.mpr (by simp [mem_initializations])
  cases h with
  | unused => rfl
  | @abandoned j hk =>
      have hmiddle : [initializing j, initializeThrew j].count (stopping k) = 0 := by
        simp
      rw [LifeEvent.abandonment, List.count_append, List.count_append, hinit,
        hmiddle, count_shutdowns, Nat.zero_add]
      exact if_congr (by simp [mem_initializations, mem_shutdowns]) rfl rfl
  | completed ks hks =>
      have hprocess : (processings ks).count (stopping k) = 0 :=
        List.count_eq_zero.mpr (by simp [mem_processings])
      rw [List.count_append, List.count_append, hinit, hprocess, count_shutdowns,
        Nat.zero_add]
      refine if_congr ?_ rfl rfl
      simp [mem_initializations, mem_processings, mem_shutdowns]

end HubLife

end EventHub
