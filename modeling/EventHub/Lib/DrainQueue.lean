import Mathlib.Data.List.Nodup

/-!
# A queue that is drained in sessions

Items enter at the back. A session takes everything that waits in its hand and
serves the hand from the front, while more items may enter and the waiting ones
may be dropped. A session that breaks off puts the rest of its hand back in
front. Besides the two lists that exist, the state carries what happened: since
the beginning, and since the session began.

The invariant says that nothing is lost, duplicated or overtaken: what entered
and was not dropped is what was served, then the hand, then what waits.
-/

namespace DrainQueue

/-- What happened since the session took its snapshot; `broken` once it put its
hand back. -/
structure Session (α : Type*) where
  snapshot : List α := []
  served : List α := []
  entered : List α := []
  dropped : List α := []
  broken : Bool := false

structure State (α : Type*) where
  waiting : List α := []
  inHand : List α := []
  entered : List α := []
  dropped : List α := []
  served : List α := []
  session : Session α := {}

variable {α : Type*}

inductive Step : State α → State α → Prop
  | enter {q : State α} (x : α) (h : x ∉ q.entered) :
      Step q
        { q with
          waiting := q.waiting ++ [x]
          entered := q.entered ++ [x]
          session :=
            { q.session with entered := q.session.entered ++ [x] } }
  | drop {q : State α} :
      Step q
        { q with
          waiting := []
          dropped := q.dropped ++ q.waiting
          session :=
            { q.session with dropped := q.session.dropped ++ q.waiting } }
  | take {q : State α} (h : q.inHand = []) :
      Step q
        { q with
          waiting := []
          inHand := q.waiting
          session := { snapshot := q.waiting } }
  | serve {q : State α} {x : α} {rest : List α} (h : q.inHand = x :: rest) :
      Step q
        { q with
          inHand := rest
          served := q.served ++ [x]
          session := { q.session with served := q.session.served ++ [x] } }
  | putBack {q : State α} :
      Step q
        { q with
          waiting := q.inHand ++ q.waiting
          inHand := []
          session := { q.session with broken := true } }

open Classical in
/-- The items of `xs` that are not among `ys`, in order. -/
noncomputable def without (xs ys : List α) : List α :=
  xs.filter fun x => x ∉ ys

theorem mem_without {xs ys : List α} {x : α} :
    x ∈ without xs ys ↔ x ∈ xs ∧ x ∉ ys := by
  simp [without]

@[simp] theorem without_nil (xs : List α) : without xs [] = xs := by
  simp [without]

theorem without_append (xs xs' ys : List α) :
    without (xs ++ xs') ys = without xs ys ++ without xs' ys :=
  List.filter_append ..

theorem without_without (xs ys ys' : List α) :
    without (without xs ys) ys' = without xs (ys ++ ys') := by
  unfold without
  rw [List.filter_filter]
  refine List.filter_congr fun x _ => ?_
  by_cases hy : x ∈ ys <;> simp [hy]

theorem without_eq_self {xs ys : List α} (h : ∀ x ∈ xs, x ∉ ys) :
    without xs ys = xs := by
  simpa [without, List.filter_eq_self] using h

theorem without_self (xs : List α) : without xs xs = [] := by
  simp [without, List.filter_eq_nil_iff]

theorem without_sublist (xs ys : List α) : (without xs ys).Sublist xs :=
  List.filter_sublist

/-- Dropping a suffix of a list without repetitions keeps what is before it. -/
theorem without_append_right {xs ys : List α} (h : (xs ++ ys).Nodup) :
    without (xs ++ ys) ys = xs := by
  have hdisjoint := List.disjoint_of_nodup_append h
  rw [without_append, without_self, List.append_nil]
  exact without_eq_self fun x hx hy => hdisjoint hx hy

/-! ## The invariant -/

/-- A session that did not break off. -/
structure Session.Inv (s : Session α) (inHand waiting : List α) : Prop where
  snapshot : s.snapshot = s.served ++ inHand
  waiting : waiting = without s.entered s.dropped
  dropped : ∀ x ∈ s.dropped, x ∈ s.entered
  later : ∀ x ∈ s.snapshot, x ∉ s.entered

structure State.Inv (q : State α) : Prop where
  nodup : q.entered.Nodup
  dropped : ∀ x ∈ q.dropped, x ∈ q.entered
  order : without q.entered q.dropped = q.served ++ q.inHand ++ q.waiting
  snapshot : ∀ x ∈ q.session.snapshot, x ∈ q.entered
  entered : ∀ x ∈ q.session.entered, x ∈ q.entered
  session : q.session.broken = false → q.session.Inv q.inHand q.waiting

namespace State

variable {q q' : State α}

theorem Inv.init : ({} : State α).Inv where
  nodup := List.nodup_nil
  dropped := fun _ h => h
  order := without_nil []
  snapshot := fun _ h => h
  entered := fun _ h => h
  session := fun _ =>
    { snapshot := rfl
      waiting := (without_nil []).symm
      dropped := fun _ h => h
      later := fun _ h => nomatch h }

theorem Inv.nodup_order (h : q.Inv) :
    (q.served ++ q.inHand ++ q.waiting).Nodup :=
  h.order ▸ (h.nodup.sublist (without_sublist ..))

theorem Inv.waiting_mem (h : q.Inv) : ∀ x ∈ q.waiting, x ∈ q.entered := by
  intro x hx
  have hmem : x ∈ without q.entered q.dropped := by
    rw [h.order]
    exact List.mem_append_right _ hx
  exact (mem_without.mp hmem).1

theorem Inv.enter (h : q.Inv) {x : α} (hx : x ∉ q.entered) :
    Inv { q with
          waiting := q.waiting ++ [x]
          entered := q.entered ++ [x]
          session :=
            { q.session with entered := q.session.entered ++ [x] } } where
  nodup := List.Nodup.append h.nodup (List.nodup_singleton x)
    (List.disjoint_singleton.mpr hx)
  dropped := fun y hy => List.mem_append_left _ (h.dropped y hy)
  order := by
    have hone : without [x] q.dropped = [x] :=
      without_eq_self fun y hy hd =>
        hx (List.mem_singleton.mp hy ▸ h.dropped y hd)
    show without (q.entered ++ [x]) q.dropped = _ ++ (q.waiting ++ [x])
    rw [without_append, hone, h.order, ← List.append_assoc]
  snapshot := fun y hy => List.mem_append_left _ (h.snapshot y hy)
  entered := fun y hy => by
    rcases List.mem_append.mp hy with hy | hy
    · exact List.mem_append_left _ (h.entered y hy)
    · exact List.mem_append_right _ hy
  session := fun hopen =>
    let hs := h.session hopen
    { snapshot := hs.snapshot
      waiting := by
        have hone : without [x] q.session.dropped = [x] :=
          without_eq_self fun y hy hd =>
            hx (List.mem_singleton.mp hy ▸ h.entered y (hs.dropped y hd))
        show q.waiting ++ [x] = without (_ ++ [x]) _
        rw [without_append, hone, ← hs.waiting]
      dropped := fun y hy => List.mem_append_left _ (hs.dropped y hy)
      later := fun y hy hmem => by
        rcases List.mem_append.mp hmem with hmem | hmem
        · exact hs.later y hy hmem
        · exact hx (List.mem_singleton.mp hmem ▸ h.snapshot y hy) }

theorem Inv.drop (h : q.Inv) :
    Inv { q with
          waiting := []
          dropped := q.dropped ++ q.waiting
          session :=
            { q.session with
              dropped := q.session.dropped ++ q.waiting } } where
  nodup := h.nodup
  dropped := fun x hx => by
    rcases List.mem_append.mp hx with hx | hx
    · exact h.dropped x hx
    · exact h.waiting_mem x hx
  order := by
    show without q.entered (q.dropped ++ q.waiting) = q.served ++ q.inHand ++ []
    rw [← without_without, h.order, without_append_right h.nodup_order,
      List.append_nil]
  snapshot := h.snapshot
  entered := h.entered
  session := fun hopen =>
    let hs := h.session hopen
    { snapshot := hs.snapshot
      waiting := by
        show [] = without _ (_ ++ q.waiting)
        rw [← without_without, ← hs.waiting, without_self]
      dropped := fun x hx => by
        rcases List.mem_append.mp hx with hx | hx
        · exact hs.dropped x hx
        · rw [hs.waiting] at hx
          exact (mem_without.mp hx).1
      later := hs.later }

theorem Inv.take (h : q.Inv) (hempty : q.inHand = []) :
    Inv { q with
          waiting := []
          inHand := q.waiting
          session := { snapshot := q.waiting } } where
  nodup := h.nodup
  dropped := h.dropped
  order := by
    have horder := h.order
    rw [hempty, List.append_nil] at horder
    show without q.entered q.dropped = q.served ++ q.waiting ++ []
    rw [horder, List.append_nil]
  snapshot := h.waiting_mem
  entered := fun _ hx => nomatch hx
  session := fun _ =>
    { snapshot := rfl
      waiting := (without_nil []).symm
      dropped := fun _ hx => nomatch hx
      later := fun _ _ hx => nomatch hx }

theorem Inv.serve (h : q.Inv) {x : α} {rest : List α}
    (hhand : q.inHand = x :: rest) :
    Inv { q with
          inHand := rest
          served := q.served ++ [x]
          session :=
            { q.session with served := q.session.served ++ [x] } } where
  nodup := h.nodup
  dropped := h.dropped
  order := by
    show without q.entered q.dropped = q.served ++ [x] ++ rest ++ q.waiting
    rw [h.order, hhand, List.append_assoc q.served [x], List.singleton_append]
  snapshot := h.snapshot
  entered := h.entered
  session := fun hopen =>
    let hs := h.session hopen
    { snapshot := by
        show q.session.snapshot = q.session.served ++ [x] ++ rest
        rw [hs.snapshot, hhand, List.append_assoc, List.singleton_append]
      waiting := hs.waiting
      dropped := hs.dropped
      later := hs.later }

theorem Inv.putBack (h : q.Inv) :
    Inv { q with
          waiting := q.inHand ++ q.waiting
          inHand := []
          session := { q.session with broken := true } } where
  nodup := h.nodup
  dropped := h.dropped
  order := by
    show without q.entered q.dropped = q.served ++ [] ++ (q.inHand ++ q.waiting)
    rw [h.order, List.append_nil, List.append_assoc]
  snapshot := h.snapshot
  entered := h.entered
  session := fun hopen => nomatch hopen

/-- Every move of the queue keeps the invariant. -/
theorem Inv.step (h : q.Inv) (hstep : Step q q') : q'.Inv := by
  cases hstep with
  | enter x hx => exact h.enter hx
  | drop => exact h.drop
  | take hempty => exact h.take hempty
  | serve hhand => exact h.serve hhand
  | putBack => exact h.putBack

/-! ## What follows -/

theorem Inv.served_nodup (h : q.Inv) : q.served.Nodup :=
  (List.nodup_append.mp (List.nodup_append.mp h.nodup_order).1).1

/-- What a session serves was there when it began. -/
theorem Inv.served_in_snapshot (h : q.Inv) (hopen : q.session.broken = false)
    {x : α} (hx : x ∈ q.inHand) :
    x ∈ q.session.snapshot ∧ x ∉ q.session.entered := by
  have hs := h.session hopen
  have hmem : x ∈ q.session.snapshot := by
    rw [hs.snapshot]
    exact List.mem_append_right _ hx
  exact ⟨hmem, hs.later x hmem⟩

end State

end DrainQueue
