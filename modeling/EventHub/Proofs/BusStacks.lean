import EventHub.Proofs.BusStep

/-!
# What lies on top of what

No code of the program runs inside a creation, a cancellation, or a check of an
awaiter. So when such code is on top of a thread, or a frame that may call it,
every frame below is one that waits for it.
-/

namespace EventHub

variable {ι ε : Type}

/-- What a frame may lie on. -/
inductive Depth
  /-- Ends awaiters; may be called from anywhere except a check. -/
  | cancelling
  /-- Creates an awaiter or posts. -/
  | creating
  /-- Checks an awaiter; never below another frame. -/
  | fleeting
  /-- Goes on after a cancellation. -/
  | finishing
  /-- Waits for code of the program, or may call it. -/
  | waiting
  deriving DecidableEq, Repr

/-- The first may be somewhere above the second. -/
def Depth.above : Depth → Depth → Bool
  | _, .waiting => true
  | _, .fleeting => false
  | .cancelling, _ => true
  | .creating, .creating => true
  | _, _ => false

namespace Frame

def depth : Frame ε → Depth
  | .cancel .. | .release _ | .cancelAwaiters .. | .cancelling .. => .cancelling
  | .addCallback .. | .makeAwaiter .. | .createAwaiter .. | .subscribeAwaiter _
  | .storeSubscriptionId .. | .registerAwaiter _ | .keepHandle ..
  | .nextRequestId .. | .enqueue .. | .notifyWorkAvailable | .requestReturn .. =>
      .creating
  | .handleEvent _ _ .entry | .handleEvent _ _ .token
  | .handleEvent _ _ .predicate | .handleEvent _ _ .matched
  | .pollTimeout _ .entry | .pollTimeout _ .token | .pollTimeout _ .deadline
  | .pollTimeout _ (.expired _) | .close _ => .fleeting
  | .handleEvent _ _ .callback | .pollTimeout _ (.timedOut _)
  | .closeUnsubscribe _ => .finishing
  | _ => .waiting

end Frame

/-- Every frame may lie on those below it. -/
def WellNested (fs : List (Frame ε)) : Prop :=
  fs.Pairwise fun upper lower => upper.depth.above lower.depth

/-- The frames may stand where `f` stood. -/
structure NestedFor (f : Frame ε) (fs : List (Frame ε)) : Prop where
  nested : WellNested fs
  above : ∀ g ∈ fs, ∀ d, f.depth.above d → g.depth.above d

theorem NestedFor.wellNested {f : Frame ε} {fs rest : List (Frame ε)}
    (h : NestedFor f fs) (hrest : WellNested (f :: rest)) :
    WellNested (fs ++ rest) := by
  obtain ⟨hf, hrest⟩ := List.pairwise_cons.mp hrest
  exact List.pairwise_append.mpr
    ⟨h.nested, hrest, fun g hg l hl => h.above g hg _ (hf l hl)⟩

/-- Frames over a frame that waits only have to be nested themselves. -/
theorem NestedFor.of_above {f : Frame ε} {fs : List (Frame ε)}
    (hf : ∀ d, f.depth.above d → d = .waiting) (hfs : WellNested fs) :
    NestedFor f fs where
  nested := hfs
  above g _ d hd := by
    rw [hf d hd]
    cases g.depth <;> rfl

theorem over_waiting (d e : Depth) (hd : d ≠ .cancelling) (hd' : d ≠ .creating)
    (h : d.above e) : e = .waiting := by
  revert hd hd' h
  cases d <;> cases e <;> decide

section

variable {w : World ε} {f g g' g'' : Frame ε} {o : Outcome ε}

theorem WellNested.one : WellNested [g] := List.pairwise_singleton ..

theorem WellNested.two (h : g.depth.above g'.depth) : WellNested [g, g'] :=
  List.pairwise_cons.mpr ⟨List.forall_mem_singleton.mpr h, WellNested.one⟩

theorem WellNested.three (h : g.depth.above g'.depth)
    (h' : g.depth.above g''.depth) (h'' : g'.depth.above g''.depth) :
    WellNested [g, g', g''] :=
  List.pairwise_cons.mpr
    ⟨List.forall_mem_cons.mpr ⟨h, List.forall_mem_singleton.mpr h'⟩, WellNested.two h''⟩

theorem NestedFor.nil : NestedFor f [] where
  nested := .nil
  above _ hg := nomatch hg

/-- Frames of the same depth. -/
theorem NestedFor.same {fs : List (Frame ε)} (hfs : WellNested fs)
    (h : ∀ g ∈ fs, g.depth = f.depth) : NestedFor f fs where
  nested := hfs
  above g hg _ hd := (h g hg).symm ▸ hd

theorem NestedFor.one (h : g.depth = f.depth) : NestedFor f [g] :=
  .same .one (List.forall_mem_singleton.mpr h)

theorem NestedFor.two (h : g.depth = f.depth) (h' : g'.depth = f.depth)
    (hover : g.depth.above g'.depth) : NestedFor f [g, g'] :=
  .same (.two hover)
    (List.forall_mem_cons.mpr ⟨h, List.forall_mem_singleton.mpr h'⟩)

theorem cancelThen_nested {b : Nat} {cause : Cause}
    (hf : ∀ d, f.depth.above d → d = .waiting) (hg : g.depth ≠ .fleeting) :
    NestedFor f (cancelThen w b cause [g]).frames := by
  unfold cancelThen
  split
  · refine .of_above hf (.two ?_)
    revert hg
    show g.depth ≠ .fleeting → Depth.cancelling.above g.depth
    cases g.depth <;> decide
  · exact .of_above hf .one

theorem advance_nested [RequestTraits ε] {alive : Guard → Bool} {result : Bool}
    (h : advance alive w result f = some o) : NestedFor f o.frames := by
  have hwaiting {d : Depth} (hc : f.depth ≠ .cancelling)
      (hc' : f.depth ≠ .creating) (hd : f.depth.above d) : d = .waiting :=
    over_waiting f.depth d hc hc' hd
  cases f with
  | user code => cases h
  | records d ev rest pc =>
      cases h
      refine .of_above (fun _ => hwaiting nofun nofun) ?_
      fun_cases advanceDispatch <;> first
        | exact .nil
        | exact .one
        | exact .two rfl
  | handleEvent b ev pc =>
      cases h
      have hpc {d : Depth} : (Frame.handleEvent b ev pc).depth.above d →
          d = .waiting := hwaiting (by cases pc <;> nofun) (by cases pc <;> nofun)
      fun_cases advanceHandle <;> first
        | exact .nil
        | exact .of_above (fun _ => hpc) .one
        | exact .of_above (fun _ => hpc) (.two rfl)
        | exact cancelThen_nested (fun _ => hpc) nofun
  | pollTimeout b pc =>
      cases h
      have hpc {d : Depth} : (Frame.pollTimeout (ε := ε) b pc).depth.above d →
          d = .waiting := hwaiting (by cases pc <;> nofun) (by cases pc <;> nofun)
      fun_cases advancePoll <;> first
        | exact .nil
        | exact .of_above (fun _ => hpc) .one
        | exact .of_above (fun _ => hpc) (.two rfl)
        | exact cancelThen_nested (fun _ => hpc) nofun
  | cancel b canceller =>
      cases h
      unfold cancelThen
      split
      · exact .one rfl
      · exact .nil
  | createAwaiter spec guard via =>
      cases h
      cases via with
      | none => exact .two rfl rfl rfl
      | some e =>
          exact .same (.three rfl rfl rfl) (List.forall_mem_cons.mpr
            ⟨rfl, List.forall_mem_cons.mpr ⟨rfl, List.forall_mem_singleton.mpr rfl⟩⟩)
  | enqueue ev request =>
      cases h
      cases request with
      | none => exact .one rfl
      | some request => exact .two rfl rfl rfl
  | nextRequestId retry request =>
      simp only [advance] at h
      split at h <;> cases h
      · exact .one rfl
      · cases request with
        | none => exact .nil
        | some request => exact .two rfl rfl rfl
  | notifyWorkAvailable =>
      simp only [advance] at h
      split at h <;> cases h <;> exact .nil
  | polling live | draining live n =>
      cases live <;> cases h <;> first
        | exact .nil
        | exact .of_above (fun _ => hwaiting nofun nofun) (.two rfl)
  | cancelling live canceller =>
      cases live <;> cases h
      · exact .nil
      · exact .two rfl rfl rfl
  | addCallback | storeSubscriptionId | registerAwaiter | keepHandle
  | requestReturn | release | closeUnsubscribe =>
      cases h
      exact .nil
  | makeAwaiter | cancelAwaiters =>
      cases h
      exact .one rfl
  | subscribeAwaiter =>
      cases h
      exact .two rfl rfl rfl
  | _ =>
      cases h
      first
      | exact .nil
      | exact .of_above (fun _ => hwaiting nofun nofun) .one
      | exact .of_above (fun _ => hwaiting nofun nofun) (.two rfl)

theorem unwind_nested (h : unwind w f = some o) : NestedFor f o.frames := by
  unfold unwind at h
  split at h
  case h_2 | h_7 =>
    split at h <;> cases h
    · exact .of_above (fun d => over_waiting _ d nofun nofun) (.two rfl)
    · exact .nil
  all_goals cases h
  all_goals exact .nil

theorem call_nested (code : UserCode) (c : BusCall ε) :
    NestedFor (.user code) ((call w c).2 ++ [.user code]) := by
  refine .of_above (fun d => over_waiting _ d nofun nofun) ?_
  cases c <;> first
    | exact .one
    | exact .two rfl
    | exact .three rfl rfl rfl

variable [Fintype ι] [RequestTraits ε] {s s' : BusSystem ι ε}
  {act : BusAction ι ε} {t : ι}

theorem Moved.nested (h : Moved s act t f o) : NestedFor f o.frames := by
  cases h with
  | advance hmode h => exact advance_nested h
  | unwind hmode h => exact unwind_nested h
  | call c hmode => exact call_nested ..
  | ret | throw => exact .nil
  | «catch» =>
      exact .one rfl

variable [DecidableEq ι]

theorem WellNested.step (h : ∀ t, WellNested (s.frames t))
    (hstep : BusSystem.step s act = some s') : ∀ t, WellNested (s'.frames t) := by
  rcases BusSystem.step_cases hstep with
    ⟨delta, rfl, rfl⟩ | ⟨t, f, rest, o, ht, hmoved, rfl⟩
  · exact h
  intro u
  show WellNested (Threads.replaceTop s.frames t o.frames u)
  by_cases hu : u = t
  · subst hu
    rw [Threads.replaceTop_self, ht]
    exact hmoved.nested.wellNested (ht ▸ h u)
  · rw [Threads.replaceTop_of_ne hu]
    exact h u

end

section

variable {f : Frame ε} {rest : List (Frame ε)}

/-- Below code of the program, and below a frame that may call it, everything
waits. -/
theorem WellNested.below (h : WellNested (f :: rest))
    (hf : f.depth ≠ .cancelling) (hf' : f.depth ≠ .creating) :
    ∀ g ∈ rest, g.depth = .waiting := fun g hg =>
  over_waiting f.depth g.depth hf hf' ((List.pairwise_cons.mp h).1 g hg)

/-- A check is always on top. -/
theorem WellNested.tail (h : WellNested (f :: rest)) :
    ∀ g ∈ rest, g.depth ≠ .fleeting := by
  intro g hg heq
  have hover := (List.pairwise_cons.mp h).1 g hg
  rw [heq] at hover
  revert hover
  cases f.depth <;> nofun

end

end EventHub
