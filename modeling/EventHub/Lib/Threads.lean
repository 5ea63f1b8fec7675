import Mathlib.Algebra.BigOperators.Group.Finset.Basic
import Mathlib.Algebra.Order.BigOperators.Group.Finset
import Mathlib.Data.Fintype.Basic
import Mathlib.Logic.Function.Basic

/-!
# Threads with call frames

A family of stacks of frames, top first, and the one move a step makes: the top frame of
one thread is replaced by some frames. Two kinds of facts survive such a move
for local reasons. A property of every frame needs only the new frames. A
count of frames over all threads changes by what the new frames add and the
old top takes away.
-/

namespace Threads

variable {ι φ : Type*}

/-- The top frame of `t` is replaced by `fs`. -/
def replaceTop [DecidableEq ι] (frames : ι → List φ) (t : ι) (fs : List φ) :
    ι → List φ :=
  Function.update frames t (fs ++ (frames t).tail)

/-- Every frame of every thread satisfies `P`. -/
def Forall (P : φ → Prop) (frames : ι → List φ) : Prop :=
  ∀ t, ∀ f ∈ frames t, P f

/-- Some frame of some thread satisfies `p`. -/
def Exists (p : φ → Bool) (frames : ι → List φ) : Prop :=
  ∃ t, (frames t).any p = true

instance [Fintype ι] (p : φ → Bool) (frames : ι → List φ) :
    Decidable (Exists p frames) :=
  inferInstanceAs (Decidable (∃ t, (frames t).any p = true))

/-- How many frames satisfy `p`. -/
def total [Fintype ι] (p : φ → Bool) (frames : ι → List φ) : Nat :=
  ∑ t, (frames t).countP p

variable {frames : ι → List φ} {P Q : φ → Prop} {p : φ → Bool}

theorem Forall.imp (h : Forall P frames) (hPQ : ∀ f, P f → Q f) :
    Forall Q frames :=
  fun t f hf => hPQ f (h t f hf)

theorem Forall.top {t : ι} {f : φ} {rest : List φ} (h : Forall P frames)
    (ht : frames t = f :: rest) : P f :=
  h t f (ht ▸ List.mem_cons_self)

theorem not_exists_iff :
    ¬ Exists p frames ↔ Forall (fun f => p f = false) frames := by
  simp [Exists, Forall]

section replaceTop

variable [DecidableEq ι] {t : ι} {fs : List φ}

@[simp] theorem replaceTop_self :
    replaceTop frames t fs t = fs ++ (frames t).tail :=
  Function.update_self ..

theorem replaceTop_of_ne {u : ι} (h : u ≠ t) :
    replaceTop frames t fs u = frames u :=
  Function.update_of_ne h ..

theorem Forall.replace (h : Forall P frames) (hfs : ∀ f ∈ fs, P f) :
    Forall P (replaceTop frames t fs) := by
  intro u f hf
  by_cases hu : u = t
  · rw [hu, replaceTop_self, List.mem_append] at hf
    rcases hf with hf | hf
    · exact hfs f hf
    · exact h t f (List.mem_of_mem_tail hf)
  · rw [replaceTop_of_ne hu] at hf
    exact h u f hf

theorem Exists.of_new {g : φ} (hg : g ∈ fs) (hp : p g = true) :
    Exists p (replaceTop frames t fs) := by
  refine ⟨t, List.any_eq_true.mpr ⟨g, ?_, hp⟩⟩
  rw [replaceTop_self]
  exact List.mem_append_left _ hg

/-- A frame stays unless it is the one that is replaced. -/
theorem Exists.replace {f : φ} {rest : List φ} (h : Exists p frames)
    (ht : frames t = f :: rest) :
    p f = true ∨ Exists p (replaceTop frames t fs) := by
  obtain ⟨u, hu⟩ := h
  obtain ⟨g, hg, hp⟩ := List.any_eq_true.mp hu
  by_cases hut : u = t
  · subst hut
    rw [ht] at hg
    rcases List.mem_cons.mp hg with rfl | hg
    · exact .inl hp
    · refine .inr ⟨u, List.any_eq_true.mpr ⟨g, ?_, hp⟩⟩
      rw [replaceTop_self, ht, List.tail_cons]
      exact List.mem_append_right _ hg
  · refine .inr ⟨u, List.any_eq_true.mpr ⟨g, ?_, hp⟩⟩
    rwa [replaceTop_of_ne hut]

/-- What the new frames add and the old top takes away. -/
theorem total_replaceTop [Fintype ι] {f : φ} {rest : List φ} (fs : List φ)
    (ht : frames t = f :: rest) :
    total p (replaceTop frames t fs) + [f].countP p =
      total p frames + fs.countP p := by
  have hsplit (g : ι → List φ) :
      total p g = (g t).countP p + ∑ u ∈ Finset.univ.erase t, (g u).countP p :=
    (Finset.add_sum_erase _ _ (Finset.mem_univ t)).symm
  have hrest : ∑ u ∈ Finset.univ.erase t, (replaceTop frames t fs u).countP p =
      ∑ u ∈ Finset.univ.erase t, (frames u).countP p :=
    Finset.sum_congr rfl fun u hu => by
      rw [replaceTop_of_ne (Finset.ne_of_mem_erase hu)]
  rw [hsplit (replaceTop frames t fs), hsplit frames, hrest, replaceTop_self,
    ht, List.tail_cons, List.countP_append]
  simp only [List.countP_cons, List.countP_nil]
  omega

/-- Frames that do not count come and go. -/
theorem total_replaceTop_of_none [Fintype ι] {f : φ} {rest : List φ}
    (fs : List φ) (ht : frames t = f :: rest) (hf : p f = false)
    (hfs : ∀ g ∈ fs, p g = false) :
    total p (replaceTop frames t fs) = total p frames := by
  have hcount := total_replaceTop (p := p) fs ht
  have hnew : fs.countP p = 0 :=
    List.countP_eq_zero.mpr fun g hg => Bool.eq_false_iff.mp (hfs g hg)
  rw [hnew, List.countP_cons_of_neg (Bool.eq_false_iff.mp hf),
    List.countP_nil] at hcount
  exact hcount

end replaceTop

theorem total_mono [Fintype ι] {q : φ → Bool} (h : ∀ f, p f → q f) :
    total p frames ≤ total q frames :=
  Finset.sum_le_sum fun _ _ => List.countP_mono_left fun f _ => h f

theorem total_eq_zero_iff [Fintype ι] :
    total p frames = 0 ↔ Forall (fun f => p f = false) frames := by
  simp [total, Forall, Finset.sum_eq_zero_iff, List.countP_eq_zero]

/-- What holds of the frames that stay and of the new ones. -/
theorem Forall.put [DecidableEq ι] {t : ι} {fs : List φ}
    (h : Forall P (replaceTop frames t [])) (hfs : ∀ g ∈ fs, P g) :
    Forall P (replaceTop frames t fs) := by
  intro u g hg
  by_cases hu : u = t
  · rw [hu, replaceTop_self, List.mem_append] at hg
    rcases hg with hg | hg
    · exact hfs g hg
    · exact h t g (by rwa [replaceTop_self, List.nil_append])
  · rw [replaceTop_of_ne hu] at hg
    exact h u g (by rwa [replaceTop_of_ne hu])

/-- When the only frame that satisfies `p` is on top, no frame under it or on
another thread does. -/
theorem gone_of_only [Fintype ι] [DecidableEq ι] {t : ι} {f : φ}
    {rest : List φ} (hone : total p frames ≤ 1) (ht : frames t = f :: rest)
    (hf : p f = true) :
    Forall (fun g => p g = false) (replaceTop frames t []) := by
  have hcount := total_replaceTop (p := p) [] ht
  rw [List.countP_cons_of_pos hf, List.countP_nil] at hcount
  exact total_eq_zero_iff.mp (by omega)

/-- When the only frame that satisfies `p` is replaced, the frames that stay
are frames that do not. -/
theorem Forall.replace_only [Fintype ι] [DecidableEq ι] {t : ι} {f : φ}
    {rest fs : List φ} (hone : total p frames ≤ 1)
    (ht : frames t = f :: rest) (hf : p f = true) (hfs : ∀ g ∈ fs, P g)
    (hother : ∀ g, p g = false → P g) : Forall P (replaceTop frames t fs) :=
  ((gone_of_only hone ht hf).imp hother).put hfs

/-! ## Frames that need a frame under them -/

/-- Every frame that satisfies `p` lies on one that satisfies `q`. -/
def Rests (p q : φ → Bool) : List φ → Prop
  | [] => True
  | f :: rest => (p f → ∃ g ∈ rest.head?, q g) ∧ Rests p q rest

section Rests

variable {q : φ → Bool} {f : φ} {fs rest : List φ}

theorem Rests.push (h : Rests p q rest) (hfs : ∀ g ∈ fs, p g = false) :
    Rests p q (fs ++ rest) := by
  induction fs with
  | nil => exact h
  | cons g fs ih =>
      obtain ⟨hg, hfs⟩ := List.forall_mem_cons.mp hfs
      exact ⟨fun hp => absurd hp (by rw [hg]; decide), ih hfs⟩

/-- Another frame in the place of one that rested. -/
theorem Rests.swap {g : φ} (h : Rests p q (f :: rest)) (hf : p f) :
    Rests p q (g :: rest) :=
  ⟨fun _ => h.1 hf, h.2⟩

theorem Rests.countP_le (h : Rests p q fs) : fs.countP p ≤ fs.tail.countP q := by
  induction fs with
  | nil => exact Nat.le_refl 0
  | cons f rest ih =>
      have hrest := ih h.2
      rw [List.tail_cons]
      by_cases hf : p f
      · obtain ⟨g, hg, hq⟩ := h.1 hf
        cases rest with
        | nil => cases hg
        | cons g' rest' =>
            cases hg
            rw [List.countP_cons_of_pos hf, List.countP_cons_of_pos hq]
            exact Nat.succ_le_succ hrest
      · rw [List.countP_cons_of_neg hf]
        exact hrest.trans (List.tail_sublist rest).countP_le

theorem total_le_of_rests [Fintype ι] (h : ∀ t, Rests p q (frames t)) :
    total p frames ≤ total q frames :=
  Finset.sum_le_sum fun t _ =>
    (h t).countP_le.trans (List.tail_sublist _).countP_le

end Rests

end Threads
