import EventHub.Bus.Step

/-!
# What a step of the bus can do

Time passes, or the top frame of one thread is replaced. `Moved` lists the ways
in which that happens; every invariant of the bus is an induction over runs
whose step looks at the frame that moved and at nothing else.
-/

namespace EventHub

variable {ι ε : Type} [Fintype ι] [DecidableEq ι] [RequestTraits ε]

/-- The action `a` turns the top frame `f` of thread `t` into `o`. -/
inductive Moved (s : BusSystem ι ε) :
    BusAction ι ε → ι → Frame ε → Outcome ε → Prop
  | advance {t : ι} {f : Frame ε} {o : Outcome ε} {result : Bool}
      (hmode : s.mode t = .running result)
      (h : advance s.alive s.world result f = some o) :
      Moved s (.advance t) t f o
  | unwind {t : ι} {f : Frame ε} {o : Outcome ε}
      (hmode : s.mode t = .throwing) (h : unwind s.world f = some o) :
      Moved s (.advance t) t f o
  | call {t : ι} {code : UserCode} {result : Bool} (c : BusCall ε)
      (hmode : s.mode t = .running result) :
      Moved s (.call t c) t (.user code)
        { world := (call s.world c).1,
          frames := (call s.world c).2 ++ [.user code] }
  | ret {t : ι} {code : UserCode} {result : Bool} (result' : Bool)
      (hmode : s.mode t = .running result) (hcode : code ≠ .main) :
      Moved s (.ret t result') t (.user code)
        { world := s.world, frames := [], mode := .running result' }
  | throw {t : ι} {code : UserCode} (hcode : code ≠ .main) :
      Moved s (.throw t) t (.user code)
        { world := s.world, frames := [], mode := .throwing }
  | catch {t : ι} {code : UserCode} (hmode : s.mode t = .throwing) :
      Moved s (.catch t) t (.user code)
        { world := s.world, frames := [.user code] }

omit [DecidableEq ι] in
/-- Only the library moves the library's frames. -/
theorem Moved.eq_advance {s : BusSystem ι ε} {a : BusAction ι ε} {t : ι}
    {f : Frame ε} {o : Outcome ε} (h : Moved s a t f o)
    (hf : ∀ code, f ≠ .user code) : a = .advance t := by
  cases h with
  | advance hmode h | unwind hmode h => rfl
  | call | ret | throw | «catch» => exact absurd rfl (hf _)

namespace BusSystem

variable {s s' : BusSystem ι ε}

omit [DecidableEq ι] in
theorem outcome_cases {a : BusAction ι ε} {t : ι} {o : Outcome ε}
    (h : s.outcome a = some (t, o)) :
    ∃ f rest, s.frames t = f :: rest ∧ Moved s a t f o := by
  cases a with
  | advance u =>
      simp only [outcome] at h
      split at h
      · next f rest result hf hm =>
          obtain ⟨o', ho', heq⟩ := Option.map_eq_some_iff.mp h
          cases heq
          exact ⟨f, rest, hf, .advance hm ho'⟩
      · next f rest hf hm =>
          obtain ⟨o', ho', heq⟩ := Option.map_eq_some_iff.mp h
          cases heq
          exact ⟨f, rest, hf, .unwind hm ho'⟩
      · cases h
  | call u c =>
      simp only [outcome] at h
      split at h
      · next code rest result hf hm =>
          cases h
          exact ⟨_, rest, hf, .call c hm⟩
      · cases h
  | ret u result' =>
      simp only [outcome] at h
      split at h
      · cases h
      · next code rest result hne hf hm =>
          cases h
          exact ⟨_, rest, hf, .ret result' hm fun hc => hne (hc ▸ rfl)⟩
      · cases h
  | throw u =>
      simp only [outcome] at h
      split at h
      · cases h
      · next code rest hne hf =>
          cases h
          exact ⟨_, rest, hf, .throw fun hc => hne (hc ▸ rfl)⟩
      · cases h
  | «catch» u =>
      simp only [outcome] at h
      split at h
      · next code rest hf hm =>
          cases h
          exact ⟨_, rest, hf, .catch hm⟩
      · cases h
  | tick delta => cases h

theorem step_cases {a : BusAction ι ε} (h : step s a = some s') :
    (∃ delta, a = .tick delta ∧
      s' = { s with world := { s.world with now := s.world.now + delta } }) ∨
    ∃ t f rest o, s.frames t = f :: rest ∧ Moved s a t f o ∧ s' = s.put t o := by
  by_cases htick : ∃ delta, a = .tick delta
  · obtain ⟨delta, rfl⟩ := htick
    cases h
    exact .inl ⟨delta, rfl, rfl⟩
  · have hmap : (s.outcome a).map (fun x => s.put x.1 x.2) = some s' := by
      cases a with
      | tick delta => exact absurd ⟨delta, rfl⟩ htick
      | _ => exact h
    obtain ⟨⟨t, o⟩, ho, rfl⟩ := Option.map_eq_some_iff.mp hmap
    obtain ⟨f, rest, hf, hmoved⟩ := outcome_cases ho
    exact .inr ⟨t, f, rest, o, hf, hmoved, rfl⟩

end BusSystem

end EventHub
