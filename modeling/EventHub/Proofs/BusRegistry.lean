import EventHub.Bus.Registry
import EventHub.Proofs.BusGuards

/-!
# A dispatch calls whom it should

A dispatch copies the records of the type and goes through its copy. So what
carries the proof is that the tables are what the trace says is present, and
that the turns of a dispatch and what its frame has still ahead make up the
copy. There is one such frame for each dispatch, and none before it begins or
after it ends.

A guard that was checked before the callback is reached is still locked then,
since the frame of the dispatch holds it.
-/

namespace EventHub

variable {ι ε : Type}

namespace Frame

/-- A dispatch in its loop, with the records that have not had their turn. -/
def ahead : Frame ε → Option (Nat × List CallbackRecord)
  | .records d _ rest (.passed r) => some (d, r :: rest)
  | .records d _ rest _ => some (d, rest)
  | _ => none

def runs (d : Nat) (f : Frame ε) : Bool :=
  match f.ahead with
  | some (d', _) => d' = d
  | none => false

/-- A record on its way into the tables. -/
def adding : Frame ε → Option CallbackRecord
  | .addCallback _ r => some r
  | _ => none

def addsId (id : Nat) (f : Frame ε) : Bool :=
  match f.adding with
  | some r => r.id = id
  | none => false

/-- Neither of these. -/
def Unregistered (f : Frame ε) : Prop := f.ahead = none ∧ f.adding = none

/-- The guard of a record that passed the check points to something. -/
def PassedGuard (f : Frame ε) : Prop :=
  ∀ d r, f.passedRecord = some (d, r) → r.hasGuard → r.guard.isSome

theorem Unregistered.passedGuard {f : Frame ε} (h : f.Unregistered) :
    f.PassedGuard := by
  intro d r hr
  cases f with
  | records d' ev rest pc => cases pc <;> cases h.1
  | _ => cases hr

end Frame

/-- None of the frames is registered. -/
def Idle (fs : List (Frame ε)) : Prop := ∀ g ∈ fs, g.Unregistered

/-! ## What a step does to the tables and to a dispatch -/

structure SameTables (w w' : World ε) : Prop where
  callbacks : w'.callbacks = w.callbacks
  nextSubscriptionId : w'.nextSubscriptionId = w.nextSubscriptionId
  nextDispatch : w'.nextDispatch = w.nextDispatch

inductive RegistryMove (w : World ε) (f : Frame ε) (w' : World ε)
    (fs : List (Frame ε)) (mode : Mode) : List RegistryObs → Prop
  | quiet (hw : SameTables w w') (hf : f.Unregistered)
      (hfs : Idle fs) : RegistryMove w f w' fs mode []
  | drew (type : Nat) (r : CallbackRecord) (rest : List (Frame ε))
      (hw : w' = { w with nextSubscriptionId := w.nextSubscriptionId + 1 })
      (hr : r.id = w.nextSubscriptionId) (hf : f.Unregistered)
      (hfs : fs = .addCallback type r :: rest)
      (hrest : Idle rest) : RegistryMove w f w' fs mode []
  | added (type : Nat) (r : CallbackRecord) (hf : f = .addCallback type r)
      (hw : w' = w.addCallback type r) (hfs : fs = []) :
      RegistryMove w f w' fs mode [.subscribed type r]
  | removed (target : Unsubscription)
      (hcallbacks : w'.callbacks =
        fun t => (w.callbacks t).filter fun r => !target.hits t r)
      (hid : w'.nextSubscriptionId = w.nextSubscriptionId)
      (hd : w'.nextDispatch = w.nextDispatch) (hf : f.Unregistered)
      (hfs : Idle fs) :
      RegistryMove w f w' fs mode [.unsubscribed target]
  | began (type : Nat) (g : Frame ε) (hcallbacks : w'.callbacks = w.callbacks)
      (hid : w'.nextSubscriptionId = w.nextSubscriptionId)
      (hd : w'.nextDispatch = w.nextDispatch + 1) (hf : f.Unregistered)
      (hfs : fs = [g])
      (hg : g.ahead = some (w.nextDispatch, w.callbacks type))
      (hguard : g.PassedGuard) :
      RegistryMove w f w' fs mode [.began w.nextDispatch type]
  | kept (d : Nat) (l : List CallbackRecord) (above : List (Frame ε))
      (g : Frame ε) (hw : SameTables w w') (hf : f.ahead = some (d, l))
      (hfs : fs = above ++ [g]) (habove : Idle above)
      (hg : g.ahead = some (d, l)) (hguard : g.PassedGuard) :
      RegistryMove w f w' fs mode []
  | turned (d : Nat) (r : CallbackRecord) (l : List CallbackRecord)
      (called : Bool) (above : List (Frame ε)) (g : Frame ε)
      (hw : SameTables w w') (hf : f.ahead = some (d, r :: l))
      (hfs : fs = above ++ [g]) (habove : Idle above)
      (hg : g.ahead = some (d, l)) (hguard : g.PassedGuard) :
      RegistryMove w f w' fs mode [.turn d r called called]
  | ended (d : Nat) (hw : SameTables w w') (hf : f.ahead = some (d, []))
      (hfs : fs = []) : RegistryMove w f w' fs mode [.ended d]
  | dropped (d : Nat) (l : List CallbackRecord) (hw : SameTables w w')
      (hf : f.ahead = some (d, l)) (hfs : fs = []) (hmode : mode = .throwing) :
      RegistryMove w f w' fs mode []

section RegistryMove

variable {w w' : World ε} {f : Frame ε} {fs : List (Frame ε)} {o : Outcome ε}
  {alive : Guard → Bool}

/-- The step adds this to the trace. -/
def Registers (alive : Guard → Bool) (w : World ε) (f : Frame ε)
    (o : Outcome ε) (ops : List RegistryObs) : Prop :=
  ∃ added, o.world.log = added ++ w.log ∧
    RegistryMove w f o.world o.frames o.mode
      (ops ++ added.flatMap (·.dispatches alive))

theorem SameTables.refl : SameTables w w := ⟨rfl, rfl, rfl⟩

theorem Idle.nil : Idle ([] : List (Frame ε)) := List.forall_mem_nil _

theorem Idle.cons {g : Frame ε} (h : g.ahead = none) (h' : g.adding = none)
    (hfs : Idle fs) : Idle (g :: fs) := List.forall_mem_cons.mpr ⟨⟨h, h'⟩, hfs⟩

/-- A step that is not seen in the trace and writes nothing to the log. -/
theorem Registers.silent (hlog : o.world.log = w.log)
    (hw : SameTables w o.world) (hf : f.Unregistered) (hfs : Idle o.frames) :
    Registers alive w f o [] :=
  ⟨[], hlog, .quiet hw hf hfs⟩

/-- A step that is not seen in the trace. -/
theorem Registers.noted {x : BusObs ε} (hlog : o.world.log = x :: w.log)
    (hx : x.dispatches alive = []) (hw : SameTables w o.world)
    (hf : f.Unregistered) (hfs : Idle o.frames) : Registers alive w f o [] := by
  refine ⟨[x], hlog, ?_⟩
  rw [List.nil_append, List.flatMap_singleton, hx]
  exact .quiet hw hf hfs

/-! ### Tables -/

theorem addCallback_self {w : World ε} {type : Nat} {r : CallbackRecord} :
    (w.addCallback type r).callbacks type = w.callbacks type ++ [r] :=
  if_pos rfl

theorem addCallback_of_ne {w : World ε} {type type' : Nat} {r : CallbackRecord}
    (h : type' ≠ type) :
    (w.addCallback type r).callbacks type' = w.callbacks type' :=
  if_neg h

theorem unsubscribe_callbacks (w : World ε) (id : Nat) :
    (w.unsubscribe id).callbacks = fun t => (w.callbacks t).filter fun r =>
      !(Unsubscription.byId id).hits t r := by
  funext t
  exact List.filter_congr fun r _ => decide_not ..

theorem unsubscribeAll_callbacks (w : World ε) (owner : Owner) :
    (w.unsubscribeAll owner).callbacks = fun t => (w.callbacks t).filter fun r =>
      !(Unsubscription.byOwner owner).hits t r := by
  funext t
  exact List.filter_congr fun r _ => decide_not ..

theorem unsubscribeAllOf_callbacks (w : World ε) (type : Nat) (owner : Owner) :
    (w.unsubscribeAllOf type owner).callbacks =
      fun t => (w.callbacks t).filter fun r =>
        !(Unsubscription.byOwnerOf type owner).hits t r := by
  funext t
  unfold World.unsubscribeAllOf Unsubscription.hits
  dsimp only
  split
  · next h =>
      refine List.filter_congr fun r _ => ?_
      rw [decide_not, decide_eq_true h, Bool.true_and]
  · next h =>
      refine (List.filter_eq_self.mpr fun r _ => ?_).symm
      rw [decide_eq_false h, Bool.false_and]
      rfl

/-! ### The steps of the library -/

theorem cancelThen_registers {a : Nat} {cause : Cause} {rest : List (Frame ε)}
    (hf : f.Unregistered) (hrest : Idle rest) :
    Registers alive w f (cancelThen w a cause rest) [] := by
  unfold cancelThen
  split
  · exact .noted rfl rfl ⟨rfl, rfl, rfl⟩ hf (.cons rfl rfl hrest)
  · exact .silent rfl .refl hf hrest

theorem advanceHandle_registers [RequestTraits ε] (result : Bool) (a : Nat)
    (ev : Event ε) (pc : HandlePc) :
    Registers alive w (.handleEvent a ev pc) (advanceHandle w result a ev pc)
      [] := by
  have hf : (Frame.handleEvent a ev pc).Unregistered := ⟨rfl, rfl⟩
  fun_cases advanceHandle <;> first
    | exact cancelThen_registers hf (.cons rfl rfl .nil)
    | exact .silent rfl .refl hf .nil
    | exact .silent rfl .refl hf (.cons rfl rfl .nil)
    | exact .silent rfl .refl hf (.cons rfl rfl (.cons rfl rfl .nil))
    | exact .noted rfl rfl ⟨rfl, rfl, rfl⟩ hf
        (.cons rfl rfl (.cons rfl rfl .nil))

theorem advancePoll_registers (a : Nat) (pc : PollPc) :
    Registers alive w (.pollTimeout a pc) (advancePoll w a pc) [] := by
  have hf : (Frame.pollTimeout (ε := ε) a pc).Unregistered := ⟨rfl, rfl⟩
  fun_cases advancePoll <;> first
    | exact cancelThen_registers hf (.cons rfl rfl .nil)
    | exact .silent rfl .refl hf .nil
    | exact .silent rfl ⟨rfl, rfl, rfl⟩ hf (.cons rfl rfl .nil)
    | exact .noted rfl rfl ⟨rfl, rfl, rfl⟩ hf
        (.cons rfl rfl (.cons rfl rfl .nil))

theorem advanceDispatch_registers {d : Nat} {ev : Event ε}
    {rest : List CallbackRecord} {pc : DispatchPc}
    (hguard : (Frame.records d ev rest pc).PassedGuard)
    (hheld : ∀ r, pc = .passed r → r.hasGuard → r.guard.any alive) :
    Registers alive w (.records d ev rest pc)
      (advanceDispatch alive w d ev rest pc) [] := by
  have hnext : ∀ l, (Frame.records d ev l .next).PassedGuard :=
    fun _ _ _ h => nomatch h
  cases pc with
  | next =>
      cases rest with
      | nil => exact ⟨[_], rfl, .ended d ⟨rfl, rfl, rfl⟩ rfl rfl⟩
      | cons r rest =>
          unfold advanceDispatch
          dsimp only
          split
          · next h =>
              have hdead : r.lockable alive = false := by
                rw [Bool.and_eq_true, Bool.not_eq_true'] at h
                simp [CallbackRecord.lockable, h]
              refine ⟨[.skipped d r], rfl, ?_⟩
              simp only [List.flatMap_singleton, BusObs.dispatches, hdead,
                List.nil_append]
              exact .turned d r rest false [] _ ⟨rfl, rfl, rfl⟩ rfl rfl .nil
                rfl (hnext rest)
          · next h =>
              refine ⟨[_], rfl, .kept d (r :: rest) [] _ ⟨rfl, rfl, rfl⟩ rfl rfl
                .nil rfl ?_⟩
              rintro d' r' ⟨⟩ hr
              rw [hr, Bool.true_and, Bool.not_eq_true', Bool.not_eq_false] at h
              exact Option.isSome_of_any h
  | passed r =>
      have hrecord : (!r.hasGuard || r.guard.any alive) = true := by
        cases hr : r.hasGuard
        · rfl
        · exact hheld r rfl hr
      have hcalling : ∀ l, (Frame.records d ev l (.calling r)).PassedGuard :=
        fun _ _ _ h => nomatch h
      cases hcallback : r.callback with
      | plain | awaiter a =>
          have hlock : r.lockable alive = true := by
            unfold CallbackRecord.lockable
            rw [hrecord, hcallback]
            rfl
          simp only [advanceDispatch, hcallback]
          refine ⟨[.started d r], rfl, ?_⟩
          simp only [List.flatMap_singleton, BusObs.dispatches, hlock,
            List.nil_append]
          exact .turned d r rest true [_] _ ⟨rfl, rfl, rfl⟩ rfl rfl
            (.cons rfl rfl .nil) rfl (hcalling rest)
      | endpoint e userGuard =>
          cases userGuard with
          | none =>
              have hlock : r.lockable alive = true := by
                unfold CallbackRecord.lockable
                rw [hrecord, hcallback]
                rfl
              simp only [advanceDispatch, hcallback]
              refine ⟨[.started d r], rfl, ?_⟩
              simp only [List.flatMap_singleton, BusObs.dispatches, hlock,
                List.nil_append]
              exact .turned d r rest true [_] _ ⟨rfl, rfl, rfl⟩ rfl rfl
                (.cons rfl rfl .nil) rfl (hcalling rest)
          | some g =>
              have hlock : r.lockable alive = g.any alive := by
                unfold CallbackRecord.lockable
                rw [hrecord, hcallback]
                rfl
              simp only [advanceDispatch, hcallback]
              split
              · next hg =>
                  refine ⟨[.started d r], rfl, ?_⟩
                  simp only [List.flatMap_singleton, BusObs.dispatches, hlock,
                    List.nil_append, hg]
                  exact .turned d r rest true [_] _ ⟨rfl, rfl, rfl⟩ rfl rfl
                    (.cons rfl rfl .nil) rfl (hcalling rest)
              · next hg =>
                  rw [Bool.not_eq_true] at hg
                  refine ⟨[.skipped d r], rfl, ?_⟩
                  simp only [List.flatMap_singleton, BusObs.dispatches, hlock,
                    List.nil_append, hg]
                  exact .turned d r rest false [] _ ⟨rfl, rfl, rfl⟩ rfl rfl .nil
                    rfl (hnext rest)
  | calling r => exact ⟨[], rfl, .kept d rest [] _ .refl rfl rfl .nil rfl (hnext rest)⟩
  | reporting r => exact ⟨[], rfl, .kept d rest [] _ .refl rfl rfl .nil rfl (hnext rest)⟩

theorem advance_registers [RequestTraits ε] {result : Bool}
    (hguard : f.PassedGuard)
    (hheld : ∀ d r, f.passedRecord = some (d, r) → r.hasGuard →
      r.guard.any alive)
    (h : advance alive w result f = some o) :
    Registers alive w f o (f.registers w) := by
  cases f with
  | user code => cases h
  | records d ev rest pc =>
      cases h
      refine advanceDispatch_registers hguard ?_
      rintro r rfl hr
      exact hheld d r rfl hr
  | handleEvent a ev pc =>
      cases h
      exact advanceHandle_registers ..
  | pollTimeout a pc =>
      cases h
      exact advancePoll_registers ..
  | cancel a canceller =>
      cases h
      exact cancelThen_registers ⟨rfl, rfl⟩ .nil
  | dispatch ev =>
      cases h
      exact ⟨[_], rfl, .began ev.type _ rfl rfl rfl ⟨rfl, rfl⟩ rfl rfl
        fun _ _ h => nomatch h⟩
  | addCallback type r =>
      cases h
      exact ⟨[], rfl, .added type r rfl rfl rfl⟩
  | release a =>
      cases h
      unfold Frame.registers
      dsimp only
      split
      · next hid =>
          refine ⟨[], by rw [World.release]; dsimp only; rw [if_pos hid]; rfl, ?_⟩
          refine .removed (.byId _) ?_ ?_ ?_ ⟨rfl, rfl⟩ .nil <;>
            unfold World.release <;> dsimp only <;> rw [if_pos hid]
          · exact unsubscribe_callbacks w _
          · rfl
          · rfl
      · next hid =>
          have hsame : w.release a = w.setAwaiter a
              { w.awaiters a with subscriptionId := 0, retainSelf := false } := by
            unfold World.release
            dsimp only
            rw [if_neg hid]
          exact .silent (by rw [hsame]; rfl) (by rw [hsame]; exact ⟨rfl, rfl, rfl⟩)
            ⟨rfl, rfl⟩ .nil
  | closeUnsubscribe e =>
      cases h
      exact ⟨[_], rfl, .removed (.byOwner (.endpoint e))
        (unsubscribeAll_callbacks w _) rfl rfl ⟨rfl, rfl⟩ .nil⟩
  | subscribeAwaiter a =>
      cases h
      exact ⟨[], rfl, .drew _ _ _ rfl rfl ⟨rfl, rfl⟩ rfl
        (.cons rfl rfl .nil)⟩
  | createAwaiter spec guard via =>
      cases h
      cases via with
      | none =>
          exact .noted rfl rfl ⟨rfl, rfl, rfl⟩ ⟨rfl, rfl⟩
            (.cons rfl rfl (.cons rfl rfl .nil))
      | some e =>
          exact .noted rfl rfl ⟨rfl, rfl, rfl⟩ ⟨rfl, rfl⟩
            (.cons rfl rfl (.cons rfl rfl (.cons rfl rfl .nil)))
  | enqueue ev request =>
      cases h
      cases request with
      | none =>
          exact .noted rfl rfl ⟨rfl, rfl, rfl⟩ ⟨rfl, rfl⟩
            (.cons rfl rfl .nil)
      | some request =>
          exact .noted rfl rfl ⟨rfl, rfl, rfl⟩ ⟨rfl, rfl⟩
            (.cons rfl rfl (.cons rfl rfl .nil))
  | nextRequestId retry request =>
      simp only [advance] at h
      split at h <;> cases h
      · exact .silent rfl ⟨rfl, rfl, rfl⟩ ⟨rfl, rfl⟩ (.cons rfl rfl .nil)
      · refine .noted rfl rfl ⟨rfl, rfl, rfl⟩ ⟨rfl, rfl⟩ ?_
        cases request with
        | none => exact .nil
        | some request => exact .cons rfl rfl (.cons rfl rfl .nil)
  | polling live | draining live n | cancelling live canceller =>
      cases live <;> cases h <;> first
        | exact .silent rfl .refl ⟨rfl, rfl⟩ .nil
        | exact .silent rfl .refl ⟨rfl, rfl⟩ (.cons rfl rfl (.cons rfl rfl .nil))
        | exact .noted rfl rfl ⟨rfl, rfl, rfl⟩ ⟨rfl, rfl⟩ .nil
        | exact .noted rfl rfl ⟨rfl, rfl, rfl⟩ ⟨rfl, rfl⟩
            (.cons rfl rfl (.cons rfl rfl .nil))
  | notifyWorkAvailable =>
      simp only [advance] at h
      split at h <;> cases h <;> first
        | exact .silent rfl .refl ⟨rfl, rfl⟩ .nil
        | exact .noted rfl rfl ⟨rfl, rfl, rfl⟩ ⟨rfl, rfl⟩ .nil
  | _ =>
      cases h
      first
        | exact .silent rfl ⟨rfl, rfl, rfl⟩ ⟨rfl, rfl⟩ .nil
        | exact .silent rfl ⟨rfl, rfl, rfl⟩ ⟨rfl, rfl⟩ (.cons rfl rfl .nil)
        | exact .silent rfl ⟨rfl, rfl, rfl⟩ ⟨rfl, rfl⟩
            (.cons rfl rfl (.cons rfl rfl .nil))
        | exact .noted rfl rfl ⟨rfl, rfl, rfl⟩ ⟨rfl, rfl⟩ .nil
        | exact .noted rfl rfl ⟨rfl, rfl, rfl⟩ ⟨rfl, rfl⟩ (.cons rfl rfl .nil)

theorem unwind_registers (h : unwind w f = some o) :
    Registers alive w f o [] := by
  have hnext : ∀ d (ev : Event ε) l r,
      (Frame.records d ev l (.reporting r)).PassedGuard :=
    fun _ _ _ _ _ _ h => nomatch h
  unfold unwind at h
  split at h
  case h_2 d ev rest r =>
    split at h <;> cases h
    · exact ⟨[], rfl, .kept d rest [_] _ .refl rfl rfl (.cons rfl rfl .nil) rfl
        (hnext d ev rest r)⟩
    · exact ⟨[], rfl, .dropped d rest .refl rfl rfl rfl⟩
  case h_3 d ev rest r =>
    cases h
    exact ⟨[], rfl, .dropped d rest .refl rfl rfl rfl⟩
  case h_7 =>
    split at h <;> cases h
    · exact .silent rfl .refl ⟨rfl, rfl⟩ (.cons rfl rfl (.cons rfl rfl .nil))
    · exact .silent rfl .refl ⟨rfl, rfl⟩ .nil
  all_goals cases h
  all_goals first
    | exact .silent rfl .refl ⟨rfl, rfl⟩ .nil
    | exact .noted rfl rfl ⟨rfl, rfl, rfl⟩ ⟨rfl, rfl⟩ .nil

theorem call_registers (code : UserCode) (c : BusCall ε) :
    Registers alive w (.user code)
      { world := (call w c).1, frames := (call w c).2 ++ [.user code] }
      c.registers := by
  cases c with
  | subscribe | endpointSubscribe =>
      exact ⟨[], rfl, .drew _ _ _ rfl rfl ⟨rfl, rfl⟩ rfl
        (.cons rfl rfl .nil)⟩
  | unsubscribe id =>
      exact ⟨[], rfl, .removed (.byId id) (unsubscribe_callbacks w id) rfl rfl ⟨rfl, rfl⟩
        (.cons rfl rfl .nil)⟩
  | unsubscribeAllOf type owner =>
      exact ⟨[], rfl, .removed (.byOwnerOf type owner)
        (unsubscribeAllOf_callbacks w type owner) rfl rfl ⟨rfl, rfl⟩
        (.cons rfl rfl .nil)⟩
  | unsubscribeAll owner =>
      exact ⟨[], rfl, .removed (.byOwner owner)
        (unsubscribeAll_callbacks w owner) rfl rfl ⟨rfl, rfl⟩
        (.cons rfl rfl .nil)⟩
  | clearPending =>
      exact .noted rfl rfl ⟨rfl, rfl, rfl⟩ ⟨rfl, rfl⟩ (.cons rfl rfl .nil)
  | emit =>
      exact .silent rfl ⟨rfl, rfl, rfl⟩ ⟨rfl, rfl⟩
        (.cons rfl rfl (.cons rfl rfl (.cons rfl rfl .nil)))
  | _ =>
      first
        | exact .silent rfl ⟨rfl, rfl, rfl⟩ ⟨rfl, rfl⟩ (.cons rfl rfl .nil)
        | exact .silent rfl ⟨rfl, rfl, rfl⟩ ⟨rfl, rfl⟩
            (.cons rfl rfl (.cons rfl rfl .nil))

end RegistryMove

/-! ## The step of bus and trace -/

section Step

variable [Fintype ι] [DecidableEq ι] [RequestTraits ε] {s s' : TracedBus ι ε}
  {a : BusAction ι ε}

omit [DecidableEq ι] [RequestTraits ε] in
/-- The frame of a dispatch holds the guard that it has checked. -/
theorem alive_of_passed {s : BusSystem ι ε} {t : ι} {f : Frame ε}
    {rest : List (Frame ε)} (ht : s.frames t = f :: rest) (hf : f.PassedGuard)
    (d : Nat) (r : CallbackRecord) (hr : f.passedRecord = some (d, r))
    (hguarded : r.hasGuard) : r.guard.any s.alive := by
  obtain ⟨g, hg⟩ := Option.isSome_iff_exists.mp (hf d r hr hguarded)
  have hholds : f.holds g = true := by
    cases f with
    | records d' ev rest pc =>
        cases pc with
        | passed r' =>
            cases hr
            simp [Frame.holds, Frame.lockedRecord, hguarded, hg]
        | _ => cases hr
    | _ => cases hr
  have hheld : s.held g :=
    ⟨t, List.any_eq_true.mpr ⟨f, ht ▸ List.mem_cons_self, hholds⟩⟩
  rw [hg]
  exact Bool.or_eq_true_iff.mpr (.inr (decide_eq_true hheld))

omit [DecidableEq ι] in
theorem Moved.registers {t : ι} {f : Frame ε} {rest : List (Frame ε)}
    {o : Outcome ε} {s : BusSystem ι ε} (ht : s.frames t = f :: rest)
    (hf : f.PassedGuard) (h : Moved s a t f o) :
    Registers s.alive s.world f o (s.registers a) := by
  cases h with
  | advance hmode h =>
      have hops : s.registers (.advance t) = f.registers s.world := by
        simp only [BusSystem.registers, ht, hmode]
      rw [hops]
      exact advance_registers hf (alive_of_passed ht hf) h
  | unwind hmode h =>
      have hops : s.registers (.advance t) = [] := by
        simp only [BusSystem.registers, ht, hmode]
      rw [hops]
      exact unwind_registers h
  | call c hmode => exact call_registers ..
  | ret | throw => exact .silent rfl .refl ⟨rfl, rfl⟩ .nil
  | «catch» => exact .silent rfl .refl ⟨rfl, rfl⟩ (.cons rfl rfl .nil)

theorem TracedBus.step_cases (h : TracedBus.step s a = some s')
    (hguards : Threads.Forall Frame.PassedGuard s.bus.frames) :
    (SameTables s.bus.world s'.bus.world ∧ s'.bus.frames = s.bus.frames ∧
      s'.trace = s.trace) ∨
    ∃ t f rest fs obs, s.bus.frames t = f :: rest ∧
      s'.bus.frames = Threads.replaceTop s.bus.frames t fs ∧
      RegistryMove s.bus.world f s'.bus.world fs (s'.bus.mode t) obs ∧
      s'.trace = obs ++ s.trace := by
  obtain ⟨bus, hbus, rfl⟩ := Option.map_eq_some_iff.mp h
  rcases BusSystem.step_cases hbus with
    ⟨delta, rfl, rfl⟩ | ⟨t, f, rest, o, ht, hmoved, rfl⟩
  · refine .inl ⟨⟨rfl, rfl, rfl⟩, rfl, ?_⟩
    simp [BusSystem.observes, BusSystem.registers]
  · obtain ⟨added, hlog, hmove⟩ := hmoved.registers ht (hguards.top ht)
    have hmode : (s.bus.put t o).mode t = o.mode := Function.update_self ..
    refine .inr ⟨t, f, rest, o.frames, _, ht, rfl, hmode ▸ hmove, ?_⟩
    have hadded : o.world.log.take
        (o.world.log.length - s.bus.world.log.length) = added := by
      rw [hlog, List.length_append, Nat.add_sub_cancel]
      exact List.take_left
    change BusSystem.observes _ _ _ ++ s.trace = _
    unfold BusSystem.observes
    dsimp only [BusSystem.put]
    rw [hadded]

end Step

/-! ## Tables -/

/-- Ids are drawn once. -/
structure IdsDrawn [Fintype ι] (w : World ε) (frames : ι → List (Frame ε)) :
    Prop where
  below : ∀ type, ∀ r ∈ w.callbacks type, r.id < w.nextSubscriptionId
  adding : Threads.Forall
    (fun f => ∀ r, f.adding = some r → r.id < w.nextSubscriptionId) frames
  one : ∀ id, Threads.total (Frame.addsId id) frames ≤ 1
  apart : ∀ type, ∀ r ∈ w.callbacks type,
    Threads.total (Frame.addsId r.id) frames = 0
  nodup : ∀ type, ((w.callbacks type).map (·.id)).Nodup
  types : ∀ type type', ∀ r ∈ w.callbacks type, ∀ r' ∈ w.callbacks type',
    r.id = r'.id → type = type'

section Tables

variable [Fintype ι] [DecidableEq ι] {w w' : World ε}
  {frames : ι → List (Frame ε)} {t : ι} {f : Frame ε}
  {rest fs : List (Frame ε)} {obs trace : List RegistryObs}

theorem Frame.Unregistered.addsId (h : f.Unregistered) (id : Nat) :
    f.addsId id = false := by
  unfold Frame.addsId
  rw [h.2]

theorem Frame.adding_of_ahead {x : Nat × List CallbackRecord}
    (h : f.ahead = some x) : f.adding = none := by
  cases f with
  | records d' ev rest pc => rfl
  | _ => cases h

theorem Frame.addsId_of_ahead {id : Nat} {x : Nat × List CallbackRecord}
    (h : f.ahead = some x) : f.addsId id = false := by
  unfold Frame.addsId
  rw [Frame.adding_of_ahead h]

theorem Idle.adding {above : List (Frame ε)} {x : Nat × List CallbackRecord}
    (habove : Idle above) (hf : f.ahead = some x) :
    ∀ g ∈ above ++ [f], g.adding = none := by
  intro g hg
  rcases List.mem_append.mp hg with hg | hg
  · exact (habove g hg).2
  · rw [List.mem_singleton.mp hg]
    exact Frame.adding_of_ahead hf

/-- No id is added that was not. -/
theorem IdsDrawn.replace (h : IdsDrawn w frames) (ht : frames t = f :: rest)
    (hcallbacks : ∀ type, (w'.callbacks type).Sublist (w.callbacks type))
    (hid : w'.nextSubscriptionId = w.nextSubscriptionId)
    (hf : ∀ id, f.addsId id = false)
    (hfs : ∀ g ∈ fs, g.adding = none) :
    IdsDrawn w' (Threads.replaceTop frames t fs) := by
  have htotal : ∀ id, Threads.total (Frame.addsId id)
      (Threads.replaceTop frames t fs) =
      Threads.total (Frame.addsId id) frames := by
    intro id
    refine Threads.total_replaceTop_of_none fs ht (hf id) fun g hg => ?_
    unfold Frame.addsId
    rw [hfs g hg]
  constructor
  · intro type r hr
    rw [hid]
    exact h.below type r ((hcallbacks type).subset hr)
  · rw [hid]
    refine h.adding.replace fun g hg r hr => ?_
    rw [hfs g hg] at hr
    cases hr
  · exact fun id => (htotal id).trans_le (h.one id)
  · exact fun type r hr =>
      (htotal r.id).trans (h.apart type r ((hcallbacks type).subset hr))
  · exact fun type => (h.nodup type).sublist ((hcallbacks type).map _)
  · exact fun type type' r hr r' hr' => h.types type type' r
      ((hcallbacks type).subset hr) r' ((hcallbacks type').subset hr')

/-- The id drawn is new. -/
theorem IdsDrawn.draw (h : IdsDrawn w frames) (ht : frames t = f :: rest)
    {type : Nat} {r : CallbackRecord} (hr : r.id = w.nextSubscriptionId)
    (hf : f.Unregistered) (hfs : Idle fs) :
    IdsDrawn { w with nextSubscriptionId := w.nextSubscriptionId + 1 }
      (Threads.replaceTop frames t (.addCallback type r :: fs)) := by
  have htotal : ∀ id, Threads.total (Frame.addsId id)
      (Threads.replaceTop frames t (.addCallback type r :: fs)) =
      Threads.total (Frame.addsId id) frames + if r.id = id then 1 else 0 := by
    intro id
    have hcount := Threads.total_replaceTop (p := Frame.addsId id)
      (.addCallback type r :: fs) ht
    have hzero : fs.countP (Frame.addsId id) = 0 :=
      List.countP_eq_zero.mpr fun g hg => by rw [(hfs g hg).addsId]; nofun
    have hadds : Frame.addsId id (.addCallback type r : Frame ε) =
        decide (r.id = id) := rfl
    simp only [List.countP_cons, List.countP_nil, hzero, hf.addsId, hadds,
      decide_eq_true_eq, Bool.false_eq_true, if_false] at hcount
    omega
  have hnew : Threads.total (Frame.addsId w.nextSubscriptionId) frames = 0 := by
    refine Threads.total_eq_zero_iff.mpr fun u g hg => ?_
    unfold Frame.addsId
    cases hadding : g.adding with
    | none => simp only [hadding]
    | some q =>
        simp only [hadding]
        exact decide_eq_false (h.adding u g hg q hadding).ne
  constructor
  · exact fun type' q hq => Nat.lt_succ_of_lt (h.below type' q hq)
  · refine (h.adding.imp fun g hg q hq => Nat.lt_succ_of_lt (hg q hq)).replace ?_
    refine List.forall_mem_cons.mpr ⟨?_, fun g hg q hq => ?_⟩
    · rintro q ⟨⟩
      rw [hr]
      exact Nat.lt_succ_self _
    · rw [(hfs g hg).2] at hq
      cases hq
  · intro id
    rw [htotal]
    split
    · next hid =>
        rw [← hid, hr, hnew]
    · exact h.one id
  · intro type' q hq
    have hne : r.id ≠ q.id := by
      rw [hr]
      exact (h.below type' q hq).ne'
    rw [htotal, if_neg hne]
    exact h.apart type' q hq
  · exact h.nodup
  · exact h.types

/-- The record goes from the frame into the table. -/
theorem IdsDrawn.add {type : Nat} {r : CallbackRecord} (h : IdsDrawn w frames)
    (ht : frames t = .addCallback type r :: rest) :
    IdsDrawn (w.addCallback type r) (Threads.replaceTop frames t []) := by
  have htotal : ∀ id, Threads.total (Frame.addsId id)
      (Threads.replaceTop frames t []) + (if r.id = id then 1 else 0) =
      Threads.total (Frame.addsId id) frames := by
    intro id
    have hcount := Threads.total_replaceTop (p := Frame.addsId id) [] ht
    have hadds : Frame.addsId id (.addCallback type r : Frame ε) =
        decide (r.id = id) := rfl
    simp only [List.countP_cons, List.countP_nil, hadds,
      decide_eq_true_eq] at hcount
    omega
  have hmem : ∀ type' q, q ∈ (w.addCallback type r).callbacks type' →
      q ∈ w.callbacks type' ∨ type' = type ∧ q = r := by
    intro type' q hq
    by_cases htype : type' = type
    · subst htype
      rw [addCallback_self, List.mem_append, List.mem_singleton] at hq
      exact hq.imp id fun hq => ⟨rfl, hq⟩
    · rw [addCallback_of_ne htype] at hq
      exact .inl hq
  have hfresh : ∀ type', ∀ q ∈ w.callbacks type', q.id ≠ r.id := by
    intro type' q hq heq
    have hzero := h.apart type' q hq
    have hone := htotal q.id
    rw [if_pos heq.symm] at hone
    omega
  constructor
  · intro type' q hq
    rcases hmem type' q hq with hq | ⟨-, rfl⟩
    · exact h.below type' q hq
    · exact h.adding.top ht q rfl
  · exact h.adding.replace (List.forall_mem_nil _)
  · intro id
    have := htotal id
    have := h.one id
    omega
  · intro type' q hq
    have hone := htotal q.id
    rcases hmem type' q hq with hq | ⟨-, rfl⟩
    · have := h.apart type' q hq
      omega
    · have := h.one q.id
      rw [if_pos rfl] at hone
      omega
  · intro type'
    by_cases htype : type' = type
    · subst htype
      rw [addCallback_self, List.map_append, List.nodup_append]
      refine ⟨h.nodup type', List.nodup_singleton _, ?_⟩
      intro id hid id' hid'
      obtain ⟨q, hq, rfl⟩ := List.mem_map.mp hid
      rw [List.mem_singleton.mp hid']
      exact hfresh type' q hq
    · rw [addCallback_of_ne htype]
      exact h.nodup type'
  · intro type' type'' q hq q' hq' hid
    rcases hmem type' q hq with hold | ⟨rfl, rfl⟩ <;>
      rcases hmem type'' q' hq' with hold' | ⟨rfl, rfl⟩
    · exact h.types type' type'' q hold q' hold' hid
    · exact absurd hid (hfresh type' q hold)
    · exact absurd hid.symm (hfresh type'' q' hold')
    · rfl

theorem IdsDrawn.step (h : IdsDrawn w frames) (ht : frames t = f :: rest)
    {mode : Mode} (hmove : RegistryMove w f w' fs mode obs) :
    IdsDrawn w' (Threads.replaceTop frames t fs) := by
  cases hmove with
  | quiet hw hf hfs =>
      exact h.replace ht (fun type => by rw [hw.callbacks])
        hw.nextSubscriptionId hf.addsId fun g hg => (hfs g hg).2
  | removed target hcallbacks hid hd hf hfs =>
      exact h.replace ht (fun type => by
          rw [hcallbacks]
          exact List.filter_sublist)
        hid hf.addsId fun g hg => (hfs g hg).2
  | began type g hcallbacks hid hd hf hfs hg hguard =>
      rw [hfs]
      exact h.replace ht (fun type => by rw [hcallbacks]) hid hf.addsId
        (Idle.nil.adding hg)
  | kept d l above g hw hf hfs habove hg hguard =>
      rw [hfs]
      exact h.replace ht (fun type => by rw [hw.callbacks])
        hw.nextSubscriptionId (fun _ => Frame.addsId_of_ahead hf)
        (habove.adding hg)
  | turned d r l called above g hw hf hfs habove hg hguard =>
      rw [hfs]
      exact h.replace ht (fun type => by rw [hw.callbacks])
        hw.nextSubscriptionId (fun _ => Frame.addsId_of_ahead hf)
        (habove.adding hg)
  | ended d hw hf hfs =>
      rw [hfs]
      exact h.replace ht (fun type => by rw [hw.callbacks])
        hw.nextSubscriptionId (fun _ => Frame.addsId_of_ahead hf) nofun
  | dropped d l hw hf hfs hmode =>
      rw [hfs]
      exact h.replace ht (fun type => by rw [hw.callbacks])
        hw.nextSubscriptionId (fun _ => Frame.addsId_of_ahead hf) nofun
  | drew type r above hw hr hf hfs hrest =>
      rw [hw, hfs]
      exact h.draw ht hr hf hrest
  | added type r hf hw hfs =>
      subst hf
      rw [hw, hfs]
      exact h.add ht

end Tables

/-! ## Turns -/

section Turns

variable {d d' : Nat} {o : RegistryObs} {trace : List RegistryObs}

@[simp] theorem turnsOf_cons :
    turnsOf d (o :: trace) = turnsOf d trace ++ o.turnOf d := History.observed_cons ..

/-- No dispatch of this number began. -/
def Unbegun (d : Nat) (trace : List RegistryObs) : Prop :=
  recordsAt d trace = [] ∧ turnsOf d trace = [] ∧ .ended d ∉ trace ∧
    trace.countP (·.begins d) = 0

end Turns

/-- The frames of the dispatches and the trace agree. -/
structure DispatchesTraced [Fintype ι] (w : World ε)
    (frames : ι → List (Frame ε)) (trace : List RegistryObs) : Prop where
  tables : ∀ type, w.callbacks type = present type trace
  ahead : Threads.Forall (fun f => ∀ d l, f.ahead = some (d, l) →
    turnsOf d trace ++ l = recordsAt d trace) frames
  one : ∀ d, Threads.total (Frame.runs d) frames ≤ 1
  unbegun : ∀ d, w.nextDispatch ≤ d →
    Threads.total (Frame.runs d) frames = 0 ∧ Unbegun d trace
  ended : ∀ d, .ended d ∈ trace → Threads.total (Frame.runs d) frames = 0
  guards : Threads.Forall Frame.PassedGuard frames
  exact : ExactDispatches trace

section Dispatches

variable [Fintype ι] [DecidableEq ι] {w w' : World ε}
  {frames : ι → List (Frame ε)} {t : ι} {f g : Frame ε}
  {rest fs : List (Frame ε)} {obs trace trace' : List RegistryObs} {d d' : Nat}
  {l : List CallbackRecord}

theorem Frame.runs_of_ahead (h : f.ahead = some (d, l)) (d' : Nat) :
    f.runs d' = decide (d = d') := by
  unfold Frame.runs
  rw [h]

theorem Frame.runs_of_none (h : f.ahead = none) (d : Nat) : f.runs d = false := by
  unfold Frame.runs
  rw [h]

theorem Frame.passedGuard_of_none (h : f.ahead = none) : f.PassedGuard := by
  intro d r hr
  cases f with
  | records d' ev rest pc => cases pc <;> cases h
  | _ => cases hr

/-- The trace says of dispatches what it said before. -/
structure SameDispatches (trace trace' : List RegistryObs) : Prop where
  turnsOf : ∀ d, turnsOf d trace' = turnsOf d trace
  recordsAt : ∀ d, recordsAt d trace' = recordsAt d trace
  ended : ∀ d, .ended d ∈ trace' → .ended d ∈ trace
  turn : ∀ d r called lockable,
    .turn d r called lockable ∈ trace' → .turn d r called lockable ∈ trace
  begins : ∀ d, trace'.countP (·.begins d) = trace.countP (·.begins d)

theorem SameDispatches.refl : SameDispatches trace trace :=
  ⟨fun _ => rfl, fun _ => rfl, fun _ => id, fun _ _ _ _ => id, fun _ => rfl⟩

theorem SameDispatches.subscribed {type : Nat} {r : CallbackRecord} :
    SameDispatches trace (.subscribed type r :: trace) where
  turnsOf d := by simp [RegistryObs.turnOf]
  recordsAt _ := rfl
  ended d h := by simpa using h
  turn _ _ _ _ h := by simpa using h
  begins _ := rfl

theorem SameDispatches.unsubscribed {target : Unsubscription} :
    SameDispatches trace (.unsubscribed target :: trace) where
  turnsOf d := by simp [RegistryObs.turnOf]
  recordsAt _ := rfl
  ended d h := by simpa using h
  turn _ _ _ _ h := by simpa using h
  begins _ := rfl

omit [DecidableEq ι] in
/-- The ids of what is present are those of the tables. -/
theorem IdsDrawn.ids (h : IdsDrawn w frames)
    (hpresent : ∀ type, w.callbacks type = present type trace) :
    ∀ type type', ∀ r ∈ present type trace, ∀ r' ∈ present type' trace,
      r.id = r'.id → type = type' ∧ r = r' := by
  intro type type' r hr r' hr' hid
  rw [← hpresent] at hr hr'
  obtain rfl := h.types type type' r hr r' hr' hid
  exact ⟨rfl, List.inj_on_of_nodup_map (h.nodup type) hr hr' hid⟩

/-- No dispatch moves. -/
theorem DispatchesTraced.quiet (h : DispatchesTraced w frames trace)
    (ht : frames t = f :: rest) (hids : IdsDrawn w' (Threads.replaceTop frames t fs))
    (hpresent : ∀ type, w'.callbacks type = present type trace')
    (hd : w'.nextDispatch = w.nextDispatch)
    (hsame : SameDispatches trace trace') (hf : f.ahead = none)
    (hfs : ∀ g ∈ fs, g.ahead = none) :
    DispatchesTraced w' (Threads.replaceTop frames t fs) trace' := by
  have htotal : ∀ d, Threads.total (Frame.runs d)
      (Threads.replaceTop frames t fs) = Threads.total (Frame.runs d) frames :=
    fun d => Threads.total_replaceTop_of_none fs ht (Frame.runs_of_none hf d)
      fun g hg => Frame.runs_of_none (hfs g hg) d
  constructor
  · exact hpresent
  · refine Threads.Forall.replace (h.ahead.imp fun g hg d l hl => ?_) ?_
    · rw [hsame.turnsOf, hsame.recordsAt]
      exact hg d l hl
    · intro g hg d l hl
      rw [hfs g hg] at hl
      cases hl
  · exact fun d => (htotal d).trans_le (h.one d)
  · intro d hle
    rw [hd] at hle
    obtain ⟨hzero, hrecords, hturns, hended, hbegins⟩ := h.unbegun d hle
    exact ⟨(htotal d).trans hzero, (hsame.recordsAt d).trans hrecords,
      (hsame.turnsOf d).trans hturns, fun hmem => hended (hsame.ended d hmem),
      (hsame.begins d).trans hbegins⟩
  · exact fun d hmem => (htotal d).trans (h.ended d (hsame.ended d hmem))
  · exact h.guards.replace fun g hg => Frame.passedGuard_of_none (hfs g hg)
  · constructor
    · intro d
      rw [hsame.turnsOf, hsame.recordsAt]
      exact h.exact.turns d
    · intro d hmem
      rw [hsame.turnsOf, hsame.recordsAt]
      exact h.exact.complete d (hsame.ended d hmem)
    · exact fun d r called lockable hmem =>
        h.exact.called d r called lockable (hsame.turn d r called lockable hmem)
    · intro d
      rw [hsame.recordsAt]
      exact h.exact.once d
    · exact fun d => (hsame.begins d).trans_le (h.exact.began d)
    · exact hids.ids hpresent

/-- A dispatch begins with a copy of the records. -/
theorem DispatchesTraced.begin (h : DispatchesTraced w frames trace)
    (ht : frames t = f :: rest) {type : Nat}
    (hids : IdsDrawn w' (Threads.replaceTop frames t [g]))
    (hcallbacks : w'.callbacks = w.callbacks)
    (hd : w'.nextDispatch = w.nextDispatch + 1) (hf : f.ahead = none)
    (hg : g.ahead = some (w.nextDispatch, w.callbacks type))
    (hguard : g.PassedGuard) :
    DispatchesTraced w' (Threads.replaceTop frames t [g])
      (.began w.nextDispatch type :: trace) := by
  obtain ⟨hzero, hnew⟩ := h.unbegun w.nextDispatch le_rfl
  have htotal : ∀ d, Threads.total (Frame.runs d)
      (Threads.replaceTop frames t [g]) = Threads.total (Frame.runs d) frames +
        if w.nextDispatch = d then 1 else 0 := by
    intro d
    have hcount := Threads.total_replaceTop (p := Frame.runs d) [g] ht
    simp only [List.countP_cons, List.countP_nil, Frame.runs_of_none hf,
      Frame.runs_of_ahead hg, decide_eq_true_eq, Bool.false_eq_true,
      if_false] at hcount
    omega
  have hturns : ∀ d, turnsOf d (.began w.nextDispatch type :: trace) =
      turnsOf d trace := by
    intro d
    rw [turnsOf_cons]
    exact List.append_nil _
  have hended : ∀ d, .ended d ∈ RegistryObs.began w.nextDispatch type :: trace →
      d ≠ w.nextDispatch ∧ .ended d ∈ trace := by
    intro d hmem
    have hmem : .ended d ∈ trace := by simpa using hmem
    exact ⟨fun heq => hnew.2.2.1 (heq ▸ hmem), hmem⟩
  have hold : ∀ d, d ≠ w.nextDispatch →
      recordsAt d (.began w.nextDispatch type :: trace) = recordsAt d trace :=
    fun d hne => if_neg hne
  have hat : recordsAt w.nextDispatch (.began w.nextDispatch type :: trace) =
      w.callbacks type :=
    (if_pos rfl).trans (h.tables type).symm
  have hpresent : ∀ type', w'.callbacks type' =
      EventHub.present type' (.began w.nextDispatch type :: trace) := by
    intro type'
    rw [hcallbacks]
    exact h.tables type'
  constructor
  · exact hpresent
  · -- the frames of older dispatches, and the new one
    refine Threads.Forall.replace ?_ (List.forall_mem_singleton.mpr ?_)
    · intro u x hx d l hl
      have hne : d ≠ w.nextDispatch := by
        rintro rfl
        have hruns : x.runs w.nextDispatch = false :=
          Threads.total_eq_zero_iff.mp hzero u x hx
        rw [Frame.runs_of_ahead hl] at hruns
        exact of_decide_eq_false hruns rfl
      rw [hturns, hold d hne]
      exact h.ahead u x hx d l hl
    · intro d l hl
      rw [hg] at hl
      cases hl
      rw [hturns, hat, hnew.2.1]
      rfl
  · intro d
    rw [htotal]
    split
    · next heq => rw [← heq, hzero]
    · exact h.one d
  · intro d hle
    rw [hd] at hle
    have hne : w.nextDispatch ≠ d := by omega
    obtain ⟨hzero', hrecords, hturns', hended', hbegins⟩ :=
      h.unbegun d (by omega)
    refine ⟨by rw [htotal, if_neg hne]; exact hzero', ?_, ?_, ?_, ?_⟩
    · exact (hold d hne.symm).trans hrecords
    · exact (hturns d).trans hturns'
    · exact fun hmem => hended' (hended d hmem).2
    · rw [List.countP_cons_of_neg (by
        simp only [RegistryObs.begins, decide_eq_true_eq]; omega)]
      exact hbegins
  · intro d hmem
    obtain ⟨hne, hmem⟩ := hended d hmem
    rw [htotal, if_neg hne.symm]
    exact h.ended d hmem
  · exact h.guards.replace (List.forall_mem_singleton.mpr hguard)
  · constructor
    · intro d
      rw [hturns]
      by_cases hne : d = w.nextDispatch
      · rw [hne, hnew.2.1]
        exact List.nil_prefix
      · rw [hold d hne]
        exact h.exact.turns d
    · intro d hmem
      obtain ⟨hne, hmem⟩ := hended d hmem
      rw [hturns, hold d hne]
      exact h.exact.complete d hmem
    · exact fun d r called lockable hmem =>
        h.exact.called d r called lockable (by simpa using hmem)
    · intro d
      by_cases hne : d = w.nextDispatch
      · rw [hne, hat, ← hcallbacks]
        exact (hids.nodup type).of_map
      · rw [hold d hne]
        exact h.exact.once d
    · intro d
      rw [List.countP_cons]
      split
      · next heq =>
          rw [of_decide_eq_true heq, hnew.2.2.2]
      · exact h.exact.began d
    · exact hids.ids hpresent

/-- What a step of dispatch `d` leaves to be seen of it. -/
structure Proceeds (d : Nat) (trace trace' : List RegistryObs)
    (fs : List (Frame ε)) : Prop where
  present : ∀ type, present type trace' = EventHub.present type trace
  recordsAt : ∀ d', recordsAt d' trace' = EventHub.recordsAt d' trace
  begins : ∀ d', trace'.countP (·.begins d') = trace.countP (·.begins d')
  turns : ∀ d', d' ≠ d → turnsOf d' trace' = turnsOf d' trace
  turns_self : turnsOf d trace' <+: EventHub.recordsAt d trace
  ended : ∀ d', d' ≠ d → .ended d' ∈ trace' → .ended d' ∈ trace
  ended_self : .ended d ∈ trace' → fs.countP (Frame.runs d) = 0 ∧
    turnsOf d trace' = EventHub.recordsAt d trace
  called : ∀ d' r called lockable, .turn d' r called lockable ∈ trace' →
    .turn d' r called lockable ∈ trace ∨ called = lockable
  frames : ∀ x ∈ fs, x.PassedGuard ∧ ∀ d' l, x.ahead = some (d', l) →
    d' = d ∧ turnsOf d trace' ++ l = EventHub.recordsAt d trace
  one : fs.countP (Frame.runs d) ≤ 1

theorem DispatchesTraced.proceed (h : DispatchesTraced w frames trace)
    (ht : frames t = f :: rest)
    (hids : IdsDrawn w' (Threads.replaceTop frames t fs))
    (hw : SameTables w w') (hf : f.ahead = some (d, l))
    (hproceeds : Proceeds d trace trace' fs) :
    DispatchesTraced w' (Threads.replaceTop frames t fs) trace' := by
  have hfd : f.runs d = true := by
    rw [Frame.runs_of_ahead hf]
    exact decide_eq_true rfl
  have hother : ∀ d', d' ≠ d → Threads.total (Frame.runs d')
      (Threads.replaceTop frames t fs) =
      Threads.total (Frame.runs d') frames := by
    intro d' hne
    refine Threads.total_replaceTop_of_none fs ht ?_ fun x hx => ?_
    · rw [Frame.runs_of_ahead hf]
      exact decide_eq_false (Ne.symm hne)
    · cases hx' : x.ahead with
      | none => exact Frame.runs_of_none hx' d'
      | some y =>
          rw [Frame.runs_of_ahead hx']
          refine decide_eq_false fun heq => hne ?_
          rw [← heq]
          exact ((hproceeds.frames x hx).2 y.1 y.2 hx').1
  have hself : Threads.total (Frame.runs d) (Threads.replaceTop frames t fs) =
        fs.countP (Frame.runs d) ∧
      1 ≤ Threads.total (Frame.runs d) frames := by
    have hcount := Threads.total_replaceTop (p := Frame.runs d) fs ht
    rw [List.countP_cons_of_pos hfd, List.countP_nil] at hcount
    have hgone := Threads.total_replaceTop (p := Frame.runs d) [] ht
    rw [List.countP_cons_of_pos hfd, List.countP_nil] at hgone
    have := h.one d
    omega
  have hbelow : ∀ d', w.nextDispatch ≤ d' → d' ≠ d := by
    rintro d' hle rfl
    have := (h.unbegun d' hle).1
    omega
  have hpresent : ∀ type, w'.callbacks type =
      EventHub.present type trace' := by
    intro type
    rw [hw.callbacks, hproceeds.present]
    exact h.tables type
  constructor
  · exact hpresent
  · refine Threads.Forall.put ?_ fun x hx d' l' hl => ?_
    · -- no other frame is of this dispatch
      have hgone := Threads.gone_of_only (h.one d) ht hfd
      have hold := h.ahead.replace (t := t) (List.forall_mem_nil _)
      intro u x hx d' l' hl
      have hruns : x.runs d = false := hgone u x hx
      rw [Frame.runs_of_ahead hl] at hruns
      rw [hproceeds.turns d' (of_decide_eq_false hruns), hproceeds.recordsAt]
      exact hold u x hx d' l' hl
    · obtain ⟨rfl, heq⟩ := (hproceeds.frames x hx).2 d' l' hl
      rw [hproceeds.recordsAt]
      exact heq
  · intro d'
    by_cases hne : d' = d
    · rw [hne, hself.1]
      exact hproceeds.one
    · rw [hother d' hne]
      exact h.one d'
  · intro d' hle
    rw [hw.nextDispatch] at hle
    have hne := hbelow d' hle
    obtain ⟨hzero, hrecords, hturns, hended, hbegins⟩ := h.unbegun d' hle
    exact ⟨(hother d' hne).trans hzero, (hproceeds.recordsAt d').trans hrecords,
      (hproceeds.turns d' hne).trans hturns,
      fun hmem => hended (hproceeds.ended d' hne hmem),
      (hproceeds.begins d').trans hbegins⟩
  · intro d' hmem
    by_cases hne : d' = d
    · subst hne
      rw [hself.1]
      exact (hproceeds.ended_self hmem).1
    · rw [hother d' hne]
      exact h.ended d' (hproceeds.ended d' hne hmem)
  · exact h.guards.replace fun x hx => (hproceeds.frames x hx).1
  · constructor
    · intro d'
      rw [hproceeds.recordsAt]
      by_cases hne : d' = d
      · rw [hne]
        exact hproceeds.turns_self
      · rw [hproceeds.turns d' hne]
        exact h.exact.turns d'
    · intro d' hmem
      rw [hproceeds.recordsAt]
      by_cases hne : d' = d
      · subst hne
        exact (hproceeds.ended_self hmem).2
      · rw [hproceeds.turns d' hne]
        exact h.exact.complete d' (hproceeds.ended d' hne hmem)
    · intro d' r called lockable hmem
      rcases hproceeds.called d' r called lockable hmem with hmem | heq
      · exact h.exact.called d' r called lockable hmem
      · exact heq
    · intro d'
      rw [hproceeds.recordsAt]
      exact h.exact.once d'
    · exact fun d' => (hproceeds.begins d').trans_le (h.exact.began d')
    · exact hids.ids hpresent

omit [DecidableEq ι] in
/-- While its frame is there a dispatch has not ended. -/
theorem DispatchesTraced.not_ended (h : DispatchesTraced w frames trace)
    (ht : frames t = f :: rest) (hf : f.ahead = some (d, l)) :
    .ended d ∉ trace := by
  intro hmem
  have hruns : f.runs d = false :=
    (Threads.total_eq_zero_iff.mp (h.ended d hmem)).top ht
  rw [Frame.runs_of_ahead hf] at hruns
  exact of_decide_eq_false hruns rfl

omit [DecidableEq ι] in
theorem DispatchesTraced.turns_append (h : DispatchesTraced w frames trace)
    (ht : frames t = f :: rest) (hf : f.ahead = some (d, l)) :
    turnsOf d trace ++ l = recordsAt d trace :=
  h.ahead.top ht d l hf

/-- The frames that a step of dispatch `d` leaves. -/
theorem Idle.proceeds {above : List (Frame ε)} (habove : Idle above)
    (hg : g.ahead = some (d, l)) (hguard : g.PassedGuard)
    (hl : turnsOf d trace' ++ l = recordsAt d trace) :
    (∀ x ∈ above ++ [g], x.PassedGuard ∧ ∀ d' l', x.ahead = some (d', l') →
      d' = d ∧ turnsOf d trace' ++ l' = recordsAt d trace) ∧
    (above ++ [g]).countP (Frame.runs d) ≤ 1 := by
  constructor
  · intro x hx
    rcases List.mem_append.mp hx with hx | hx
    · refine ⟨(habove x hx).passedGuard, fun d' l' hl' => ?_⟩
      rw [(habove x hx).1] at hl'
      cases hl'
    · rw [List.mem_singleton.mp hx]
      refine ⟨hguard, fun d' l' hl' => ?_⟩
      rw [hg] at hl'
      cases hl'
      exact ⟨rfl, hl⟩
  · have hzero : above.countP (Frame.runs d) = 0 :=
      List.countP_eq_zero.mpr fun x hx => by
        rw [Frame.runs_of_none (habove x hx).1]
        nofun
    rw [List.countP_append, hzero, Nat.zero_add]
    exact List.countP_le_length

theorem DispatchesTraced.step (h : DispatchesTraced w frames trace)
    (ht : frames t = f :: rest)
    (hids : IdsDrawn w' (Threads.replaceTop frames t fs))
    {mode : Mode} (hmove : RegistryMove w f w' fs mode obs) :
    DispatchesTraced w' (Threads.replaceTop frames t fs) (obs ++ trace) := by
  cases hmove with
  | quiet hw hf hfs =>
      exact h.quiet ht hids (fun type => by rw [hw.callbacks]; exact h.tables type)
        hw.nextDispatch .refl hf.1 fun g hg => (hfs g hg).1
  | drew type r above hw hr hf hfs hrest =>
      refine h.quiet ht hids (fun type => ?_) ?_ .refl hf.1 ?_
      · rw [hw]
        exact h.tables type
      · rw [hw]
      · rw [hfs]
        exact List.forall_mem_cons.mpr ⟨rfl, fun g hg => (hrest g hg).1⟩
  | added type r hf hw hfs =>
      refine h.quiet ht hids (fun type' => ?_) ?_ .subscribed ?_ ?_
      · change _ = if type' = type then present type' trace ++ [r]
          else present type' trace
        rw [hw, ← h.tables type']
        by_cases htype : type' = type
        · rw [htype, if_pos rfl, addCallback_self]
        · rw [if_neg htype, addCallback_of_ne htype]
      · rw [hw]
        rfl
      · rw [hf]
        rfl
      · rw [hfs]
        exact List.forall_mem_nil _
  | removed target hcallbacks hid hd hf hfs =>
      refine h.quiet ht hids (fun type => ?_) hd .unsubscribed hf.1
        fun g hg => (hfs g hg).1
      rw [hcallbacks]
      dsimp only
      rw [h.tables]
      rfl
  | began type g hcallbacks hid hd hf hfs hg hguard =>
      subst hfs
      exact h.begin ht hids hcallbacks hd hf.1 hg hguard
  | kept d l above g hw hf hfs habove hg hguard =>
      subst hfs
      have hl := h.turns_append ht hf
      obtain ⟨hframes, hone⟩ := habove.proceeds hg hguard hl
      exact h.proceed ht hids hw hf
        { present := fun _ => rfl
          recordsAt := fun _ => rfl
          begins := fun _ => rfl
          turns := fun _ _ => rfl
          turns_self := h.exact.turns d
          ended := fun _ _ => id
          ended_self := fun hmem => absurd hmem (h.not_ended ht hf)
          called := fun _ _ _ _ => .inl
          frames := hframes
          one := hone }
  | turned d r l called above g hw hf hfs habove hg hguard =>
      subst hfs
      have hself : turnsOf d (.turn d r called called :: trace) =
          turnsOf d trace ++ [r] := by
        rw [turnsOf_cons, RegistryObs.turnOf, if_pos rfl]
      have hl : turnsOf d (.turn d r called called :: trace) ++ l =
          recordsAt d trace := by
        rw [hself, List.append_assoc]
        exact h.turns_append ht hf
      obtain ⟨hframes, hone⟩ := habove.proceeds hg hguard hl
      exact h.proceed ht hids hw hf
        { present := fun _ => rfl
          recordsAt := fun _ => rfl
          begins := fun _ => rfl
          turns := fun d' hne => by
            change turnsOf d' (_ :: trace) = _
            rw [turnsOf_cons, RegistryObs.turnOf, if_neg hne, List.append_nil]
          turns_self := ⟨l, hl⟩
          ended := fun d' _ hmem => by simpa using hmem
          ended_self := fun hmem =>
            absurd (by simpa using hmem) (h.not_ended ht hf)
          called := fun d' r' called' lockable hmem => by
            rcases List.mem_cons.mp hmem with heq | hmem
            · cases heq
              exact .inr rfl
            · exact .inl hmem
          frames := hframes
          one := hone }
  | ended d hw hf hfs =>
      subst hfs
      have hself : turnsOf d (.ended d :: trace) = turnsOf d trace := by
        rw [turnsOf_cons]
        exact List.append_nil _
      have hl := h.turns_append ht hf
      rw [List.append_nil] at hl
      exact h.proceed ht hids hw hf
        { present := fun _ => rfl
          recordsAt := fun _ => rfl
          begins := fun _ => rfl
          turns := fun d' _ => by
            change turnsOf d' (_ :: trace) = _
            rw [turnsOf_cons]
            exact List.append_nil _
          turns_self := hself ▸ hl ▸ List.prefix_rfl
          ended := fun d' hne hmem => by
            rcases List.mem_cons.mp hmem with heq | hmem
            · cases heq
              exact absurd rfl hne
            · exact hmem
          ended_self := fun _ => ⟨rfl, hself.trans hl⟩
          called := fun d' r called lockable hmem => by
            rcases List.mem_cons.mp hmem with heq | hmem
            · cases heq
            · exact .inl hmem
          frames := List.forall_mem_nil _
          one := Nat.zero_le _ }
  | dropped d l hw hf hfs hmode =>
      subst hfs
      exact h.proceed ht hids hw hf
        { present := fun _ => rfl
          recordsAt := fun _ => rfl
          begins := fun _ => rfl
          turns := fun _ _ => rfl
          turns_self := h.exact.turns d
          ended := fun _ _ => id
          ended_self := fun hmem => absurd hmem (h.not_ended ht hf)
          called := fun _ _ _ _ => .inl
          frames := List.forall_mem_nil _
          one := Nat.zero_le _ }

end Dispatches

/-! ## Without exceptions -/

section NoThrow

variable {w : World ε} {f : Frame ε} {o : Outcome ε} {alive : Guard → Bool}
  {result : Bool}

theorem cancelThen_mode {a : Nat} {cause : Cause} {rest : List (Frame ε)} :
    (cancelThen w a cause rest).mode = .running false := by
  unfold cancelThen
  split <;> rfl

theorem advance_mode [RequestTraits ε] (h : advance alive w result f = some o) :
    o.mode = .running false := by
  cases f with
  | user code => cases h
  | records d ev rest pc =>
      cases h
      fun_cases advanceDispatch <;> rfl
  | handleEvent a ev pc =>
      cases h
      fun_cases advanceHandle <;> first
        | rfl
        | exact cancelThen_mode
  | pollTimeout a pc =>
      cases h
      fun_cases advancePoll <;> first
        | rfl
        | exact cancelThen_mode
  | cancel a canceller =>
      cases h
      exact cancelThen_mode
  | nextRequestId | notifyWorkAvailable =>
      simp only [advance] at h
      split at h <;> cases h <;> rfl
  | polling live | draining live n | cancelling live canceller =>
      cases live <;> cases h <;> rfl
  | _ =>
      cases h
      rfl

variable [Fintype ι] [DecidableEq ι] [RequestTraits ε]

/-- No thread unwinds. -/
def BusSystem.Calm (s : BusSystem ι ε) : Prop := ∀ t, s.mode t ≠ .throwing

theorem BusSystem.Calm.step {s s' : BusSystem ι ε} {a : BusAction ι ε}
    (h : s.Calm) (ha : a.throws = false) (hstep : s.step a = some s') :
    s'.Calm := by
  rcases BusSystem.step_cases hstep with
    ⟨delta, rfl, rfl⟩ | ⟨t, f, rest, o, ht, hmoved, rfl⟩
  · exact h
  have hmode : o.mode ≠ .throwing := by
    cases hmoved with
    | advance hmode h => rw [advance_mode h]; nofun
    | unwind hmode => exact absurd hmode (h t)
    | throw => cases ha
    | call | ret | «catch» => nofun
  intro u
  change Function.update s.mode t o.mode u ≠ .throwing
  by_cases hu : u = t
  · rw [hu, Function.update_self]
    exact hmode
  · rw [Function.update_of_ne hu]
    exact h u

/-- Every dispatch that began has ended or is still on a stack. -/
def Awaited (frames : ι → List (Frame ε)) (trace : List RegistryObs) : Prop :=
  ∀ d type, .began d type ∈ trace →
    .ended d ∈ trace ∨ 1 ≤ Threads.total (Frame.runs d) frames

omit [RequestTraits ε] in
theorem Awaited.step {w' : World ε} {frames : ι → List (Frame ε)} {t : ι}
    {rest fs : List (Frame ε)} {mode : Mode} {obs trace : List RegistryObs}
    (h : Awaited frames trace) (ht : frames t = f :: rest)
    (hmove : RegistryMove w f w' fs mode obs) (hmode : mode ≠ .throwing) :
    Awaited (Threads.replaceTop frames t fs) (obs ++ trace) := by
  have hcount := fun d =>
    Threads.total_replaceTop (p := Frame.runs d) fs ht
  simp only [List.countP_cons, List.countP_nil] at hcount
  -- a dispatch that began before has ended or its frame is still there
  have hold (hf : ∀ d, f.runs d → 1 ≤ fs.countP (Frame.runs d)) :
      Awaited (Threads.replaceTop frames t fs) trace := by
    intro d type hbegan
    refine (h d type hbegan).imp id fun htotal => ?_
    have hd := hcount d
    have hfd := hf d
    split at hd
    · next hruns =>
        have := hfd hruns
        omega
    · omega
  have hquiet (hf : f.ahead = none) :
      Awaited (Threads.replaceTop frames t fs) trace :=
    hold fun d hd => by rw [Frame.runs_of_none hf] at hd; cases hd
  have hkept {d : Nat} {l l' : List CallbackRecord} {above : List (Frame ε)}
      {g : Frame ε} (hf : f.ahead = some (d, l)) (hfs : fs = above ++ [g])
      (hg : g.ahead = some (d, l')) :
      Awaited (Threads.replaceTop frames t fs) trace := by
    refine hold fun d' hd' => List.countP_pos_iff.mpr ⟨g, ?_, ?_⟩
    · rw [hfs]
      exact List.mem_append_right _ List.mem_cons_self
    · rw [Frame.runs_of_ahead hf] at hd'
      rw [Frame.runs_of_ahead hg]
      exact hd'
  cases hmove with
  | quiet hw hf hfs => exact hquiet hf.1
  | drew type r above hw hr hf hfs hrest => exact hquiet hf.1
  | added type r hf hw hfs =>
      intro d type' hbegan
      refine (hquiet (by rw [hf]; rfl) d type' (by simpa using hbegan)).imp ?_ id
      exact List.mem_append_right _
  | removed target hcallbacks hid hd hf hfs =>
      intro d type' hbegan
      refine (hquiet hf.1 d type' (by simpa using hbegan)).imp ?_ id
      exact List.mem_append_right _
  | began type g hcallbacks hid hd hf hfs hg hguard =>
      intro d type' hbegan
      rcases List.mem_cons.mp hbegan with heq | hbegan
      · cases heq
        right
        have hone : fs.countP (Frame.runs w.nextDispatch) = 1 := by
          rw [hfs, List.countP_singleton, Frame.runs_of_ahead hg]
          exact if_pos (decide_eq_true rfl)
        have hd := hcount w.nextDispatch
        rw [Frame.runs_of_none hf.1, hone] at hd
        simp only [Bool.false_eq_true, if_false] at hd
        omega
      · exact (hquiet hf.1 d type' hbegan).imp (List.mem_append_right _) id
  | kept d l above g hw hf hfs habove hg hguard => exact hkept hf hfs hg
  | turned d r l called above g hw hf hfs habove hg hguard =>
      intro d' type' hbegan
      refine (hkept hf hfs hg d' type' (by simpa using hbegan)).imp ?_ id
      exact List.mem_append_right _
  | ended d hw hf hfs =>
      intro d' type' hbegan
      by_cases hd : d' = d
      · exact .inl (hd ▸ List.mem_cons_self)
      · refine (h d' type' (by simpa using hbegan)).imp
          (List.mem_append_right _) fun htotal => ?_
        have hcount := hcount d'
        rw [Frame.runs_of_ahead hf, hfs, decide_eq_false (Ne.symm hd)] at hcount
        simp only [Bool.false_eq_true, if_false, List.countP_nil] at hcount
        rw [hfs]
        omega
  | dropped d l hw hf hfs hmode' => exact absurd hmode' hmode

end NoThrow

/-! ## Runs -/

section Run

variable [Fintype ι] [DecidableEq ι] [RequestTraits ε]

/-- What carries the proof. -/
structure TracedBus.Inv (s : TracedBus ι ε) : Prop where
  ids : IdsDrawn s.bus.world s.bus.frames
  dispatches : DispatchesTraced s.bus.world s.bus.frames s.trace

omit [DecidableEq ι] [RequestTraits ε] in
theorem TracedBus.Inv.init : ({} : TracedBus ι ε).Inv := by
  have hframes {P : Frame ε → Prop} (h : P (.user .main)) :
      Threads.Forall P (fun _ : ι => [Frame.user .main]) :=
    fun _ => List.forall_mem_singleton.mpr h
  have htotal (p : Frame ε → Bool) (h : p (.user .main) = false) :
      Threads.total p (fun _ : ι => [Frame.user .main]) = 0 :=
    Threads.total_eq_zero_iff.mpr (hframes h)
  refine ⟨⟨fun _ => List.forall_mem_nil _, hframes nofun,
    fun id => (htotal _ rfl).trans_le (Nat.zero_le 1),
    fun _ => List.forall_mem_nil _, fun _ => List.nodup_nil,
    fun _ _ => List.forall_mem_nil _⟩, ?_⟩
  refine ⟨fun _ => rfl, hframes nofun,
    fun d => (htotal _ rfl).trans_le (Nat.zero_le 1),
    fun d _ => ⟨htotal _ rfl, rfl, rfl, List.not_mem_nil, rfl⟩, nofun,
    hframes nofun, ?_⟩
  exact ⟨fun _ => List.prefix_rfl, nofun, nofun, fun _ => List.nodup_nil,
    fun _ => Nat.zero_le 1, fun _ _ => List.forall_mem_nil _⟩

theorem TracedBus.Inv.step {s s' : TracedBus ι ε} {a : BusAction ι ε}
    (h : s.Inv) (hstep : s.step a = some s') : s'.Inv := by
  rcases TracedBus.step_cases hstep h.dispatches.guards with
    ⟨hsame, hframes, htrace⟩ | ⟨t, f, rest, fs, obs, ht, hframes, hmove, htrace⟩
  · obtain ⟨hcallbacks, hid, hd⟩ := hsame
    constructor
    · constructor
      · rw [hcallbacks, hid]
        exact h.ids.below
      · rw [hframes, hid]
        exact h.ids.adding
      · rw [hframes]
        exact h.ids.one
      · rw [hcallbacks, hframes]
        exact h.ids.apart
      · rw [hcallbacks]
        exact h.ids.nodup
      · rw [hcallbacks]
        exact h.ids.types
    · rw [htrace]
      constructor
      · rw [hcallbacks]
        exact h.dispatches.tables
      · rw [hframes]
        exact h.dispatches.ahead
      · rw [hframes]
        exact h.dispatches.one
      · rw [hframes, hd]
        exact h.dispatches.unbegun
      · rw [hframes]
        exact h.dispatches.ended
      · rw [hframes]
        exact h.dispatches.guards
      · exact h.dispatches.exact
  · have hids := h.ids.step ht hmove
    have hdispatches := h.dispatches.step ht hids hmove
    rw [← hframes] at hids hdispatches
    rw [← htrace] at hdispatches
    exact ⟨hids, hdispatches⟩

/-- In a run in which nothing throws every dispatch that began has ended or
goes on. -/
theorem TracedBus.awaited {run : List (BusAction ι ε)} {s : TracedBus ι ε}
    (hrun : Lts.run TracedBus.step {} run = some s)
    (hthrow : ∀ a ∈ run, a.throws = false) : Awaited s.bus.frames s.trace := by
  have hstep : ∀ (s : TracedBus ι ε) (a : BusAction ι ε) (s' : TracedBus ι ε),
      s.Inv ∧ s.bus.Calm ∧ Awaited s.bus.frames s.trace → a.throws = false →
      s.step a = some s' →
      s'.Inv ∧ s'.bus.Calm ∧ Awaited s'.bus.frames s'.trace := by
    rintro s a s' ⟨hinv, hcalm, hawaited⟩ ha hstep
    obtain ⟨bus, hbus, rfl⟩ := Option.map_eq_some_iff.mp hstep
    have hcalm' : bus.Calm := hcalm.step ha hbus
    refine ⟨hinv.step hstep, hcalm', ?_⟩
    rcases TracedBus.step_cases hstep hinv.dispatches.guards with
      ⟨hsame, hframes, htrace⟩ |
      ⟨t, f, rest, fs, obs, ht, hframes, hmove, htrace⟩
    · rw [hframes, htrace]
      exact hawaited
    · rw [hframes, htrace]
      exact hawaited.step ht hmove (hcalm' t)
  have hinit : ({} : TracedBus ι ε).Inv ∧ ({} : TracedBus ι ε).bus.Calm ∧
      Awaited ({} : TracedBus ι ε).bus.frames ({} : TracedBus ι ε).trace :=
    ⟨.init, fun _ => nofun, fun _ _ h => nomatch h⟩
  exact (Lts.run_invariant_of_meets hstep hinit (Lts.RunMeets.of_mem hthrow)
    hrun).2.2

/-- Every dispatch calls exactly the subscriptions that were present when it
began. -/
theorem TracedBus.run_exactDispatches {run : List (BusAction ι ε)}
    {s : TracedBus ι ε} (hrun : Lts.run TracedBus.step {} run = some s) :
    ExactDispatches s.trace ∧
      (∀ type, s.bus.world.callbacks type = present type s.trace) ∧
      ((∀ a ∈ run, a.throws = false) → Awaited s.bus.frames s.trace) := by
  have hinv : s.Inv :=
    Lts.run_invariant (fun _ _ _ => TracedBus.Inv.step) .init hrun
  exact ⟨hinv.dispatches.exact, hinv.dispatches.tables, TracedBus.awaited hrun⟩

end Run

/-- The handler of the first subscription subscribes, unsubscribes the last one
and emits again; the guard of the second is gone. -/
def reentrantRun : List (BusAction Unit Nat) :=
  [.call () (.subscribe 0 (.other 0) none), .advance (),
    .call () (.subscribe 0 (.other 1) (some (some 7))), .advance (),
    .call () (.subscribe 0 (.other 2) none), .advance (),
    .call () (.releaseGuard 7),
    .call () (.emit { type := 0, payload := 5 }), .advance (),
    -- the first one is called
    .advance (), .advance (),
    .call () (.subscribe 0 (.other 3) none), .advance (),
    .call () (.unsubscribe 3),
    .call () (.emit { type := 0, payload := 6 }), .advance (),
    .advance (), .advance (), .ret () false, .advance (),
    .advance (),
    .advance (), .advance (), .ret () false, .advance (),
    .advance (), .advance (), .advance (),
    -- back in the first dispatch
    .ret () false, .advance (), .advance (),
    .advance (), .advance (), .ret () false, .advance (), .advance ()]

theorem TracedBus.run_exactDispatches_reentrant :
    ∃ s : TracedBus Unit Nat, Lts.run TracedBus.step {} reentrantRun = some s ∧
      ((.ended 0 ∈ s.trace ∧ .ended 1 ∈ s.trace ∧
        (turnsOf 0 s.trace).map (·.id) = [1, 2, 3] ∧
        (turnsOf 1 s.trace).map (·.id) = [1, 2, 4]) ∧
      ExactDispatches s.trace ∧
      (∀ type, s.bus.world.callbacks type = present type s.trace) ∧
      Awaited s.bus.frames s.trace) := by
  obtain ⟨s, hs, hturns⟩ : ∃ s : TracedBus Unit Nat,
      Lts.run TracedBus.step {} reentrantRun = some s ∧
      (.ended 0 ∈ s.trace ∧ .ended 1 ∈ s.trace ∧
        (turnsOf 0 s.trace).map (·.id) = [1, 2, 3] ∧
        (turnsOf 1 s.trace).map (·.id) = [1, 2, 4]) :=
    Lts.exists_run_of_decide (by decide)
  obtain ⟨hexact, htables, hawaited⟩ := TracedBus.run_exactDispatches hs
  exact ⟨s, hs, hturns, hexact, htables, hawaited (by decide)⟩

end EventHub
