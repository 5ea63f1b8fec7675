import Mathlib.Data.List.Destutter
import Mathlib.Data.List.Sort
import Mathlib.Order.Bounds.Defs

/-!
# Ordered lists

A list kept in order by `orderedInsert` may hold elements that no longer
count. Skipping them when the list is read and never having inserted them are
the same thing.

A search that walks upwards finds the least result first.
-/

namespace List

variable {α : Type*} {r : α → α → Prop} [DecidableRel r] {p : α → Bool}

/-- Inserting into an ordered list and dropping other elements commute. -/
theorem filter_orderedInsert [IsTrans α r] {a : α} (ha : p a) {l : List α}
    (hl : l.Pairwise r) :
    (l.orderedInsert r a).filter p = (l.filter p).orderedInsert r a := by
  induction l with
  | nil => simp [ha]
  | cons b l ih =>
      rw [List.pairwise_cons] at hl
      rw [List.orderedInsert_cons]
      split
      · next hab =>
          -- everything that is left is after `a` as well
          have hall : ∀ c ∈ (b :: l).filter p, r a c := by
            intro c hc
            rcases List.mem_cons.mp (List.mem_filter.mp hc).1 with rfl | hc
            · exact hab
            · exact IsTrans.trans a b c hab (hl.1 c hc)
          rw [List.filter_cons_of_pos ha]
          cases hf : (b :: l).filter p with
          | nil => rfl
          | cons c l' =>
              rw [List.orderedInsert_cons, if_pos]
              exact hall c (by rw [hf]; exact List.mem_cons_self)
      · next hab =>
          by_cases hb : p b
          · rw [List.filter_cons_of_pos hb, List.filter_cons_of_pos hb,
              List.orderedInsert_cons, if_neg hab, ih hl.2]
          · rw [List.filter_cons_of_neg hb, List.filter_cons_of_neg hb, ih hl.2]

theorem filter_orderedInsert_of_neg {a : α} (ha : ¬ p a) (l : List α) :
    (l.orderedInsert r a).filter p = l.filter p := by
  induction l with
  | nil => simp [ha]
  | cons b l ih =>
      rw [List.orderedInsert_cons]
      split
      · rw [List.filter_cons_of_neg ha]
      · rw [List.filter_cons, List.filter_cons, ih]

/-- Inserting keeps two ordered lists alike that differ in dropped elements
only. -/
theorem filter_orderedInsert_congr [IsTrans α r] {l l' : List α}
    (hl : l.Pairwise r) (hl' : l'.Pairwise r) (h : l.filter p = l'.filter p)
    (a : α) : (l.orderedInsert r a).filter p = (l'.orderedInsert r a).filter p := by
  by_cases ha : p a
  · rw [filter_orderedInsert ha hl, filter_orderedInsert ha hl', h]
  · rw [filter_orderedInsert_of_neg ha, filter_orderedInsert_of_neg ha, h]

theorem filter_of_filter {q : α → Bool} (hq : ∀ a, q a → p a) {l l' : List α}
    (h : l.filter p = l'.filter p) : l.filter q = l'.filter q := by
  have hsplit : ∀ l : List α, l.filter q = (l.filter p).filter q := by
    intro l
    rw [List.filter_filter]
    refine List.filter_congr fun a _ => ?_
    cases hqa : q a
    · rfl
    · rw [hq a hqa]
      rfl
  rw [hsplit l, hsplit l', h]

omit [DecidableRel r] in
/-- Walking an ordered list from its front while the elements that count have
a property which passes to earlier ones. -/
theorem filter_takeWhile_or {q : α → Bool} (hq : ∀ a b, r a b → q b → q a)
    {l : List α} (hl : l.Pairwise r) :
    (l.takeWhile fun a => !p a || q a).filter p =
      l.filter fun a => p a && q a := by
  induction l with
  | nil => rfl
  | cons a l ih =>
      rw [List.pairwise_cons] at hl
      by_cases hpa : p a
      · by_cases hqa : q a
        · simp [hpa, hqa, ih hl.2]
        · have hnone : ∀ b ∈ l, ¬ (p b && q b) := by
            intro b hb hpq
            rw [Bool.and_eq_true] at hpq
            exact hqa (hq a b (hl.1 b hb) hpq.2)
          simp [hpa, hqa, List.filter_eq_nil_iff.mpr hnone]
      · simp [hpa, ih hl.2]

omit [DecidableRel r] in
theorem filter_dropWhile_or {q : α → Bool} (hq : ∀ a b, r a b → q b → q a)
    {l : List α} (hl : l.Pairwise r) :
    (l.dropWhile fun a => !p a || q a).filter p =
      l.filter fun a => p a && !q a := by
  induction l with
  | nil => rfl
  | cons a l ih =>
      rw [List.pairwise_cons] at hl
      by_cases hpa : p a
      · by_cases hqa : q a
        · simp [hpa, hqa, ih hl.2]
        · have hall : ∀ b ∈ l, (p b && !q b) = p b := by
            intro b hb
            cases hqb : q b
            · simp
            · exact absurd (hq a b (hl.1 b hb) hqb) hqa
          simp [hpa, hqa, List.filter_congr hall]
      · simp [hpa, ih hl.2]

/-! ## Without repetitions -/

section Destutter

omit [DecidableRel r]

theorem mem_destutter_ne [DecidableEq α] {l : List α} {a : α} :
    a ∈ l.destutter (· ≠ ·) ↔ a ∈ l := by
  have hmem : ∀ (l : List α) b, a ∈ l.destutter' (· ≠ ·) b ↔ a ∈ b :: l := by
    intro l
    induction l with
    | nil => simp
    | cons c l ih =>
        intro b
        by_cases hbc : b = c
        · subst hbc
          rw [List.destutter'_cons_neg _ (by simp), ih]
          simp
        · rw [List.destutter'_cons_pos _ hbc, List.mem_cons, ih, ← List.mem_cons]
  cases l with
  | nil => rfl
  | cons b l => exact hmem l b

theorem pairwise_destutter_ne [PartialOrder α] [DecidableEq α] {l : List α}
    (h : l.Pairwise (· ≤ ·)) : (l.destutter (· ≠ ·)).Pairwise (· < ·) := by
  have hlt : ∀ l : List α, l.IsChain (· ≠ ·) → l.Pairwise (· ≤ ·) →
      l.IsChain (· < ·) := by
    intro l hne hle
    induction hne with
    | nil => exact .nil
    | singleton a => exact .singleton a
    | cons_cons hab _ ih =>
        rw [List.pairwise_cons] at hle
        exact .cons_cons (lt_of_le_of_ne (hle.1 _ List.mem_cons_self) hab)
          (ih hle.2)
  exact (hlt _ (List.isChain_destutter _ l)
    (h.sublist (List.destutter_sublist _ l))).pairwise

end Destutter

/-! ## Searching upwards -/

/-- A search for the least element of `s` may end so. -/
def FindsLeast {β : Type*} [LE β] (s : Set β) (result : Option β) : Prop :=
  (∀ u, result = some u → IsLeast s u) ∧ (result = none → s = ∅)

omit [DecidableRel r]

theorem findsLeast_findSome? {β : Type*} [Preorder β] {f : α → Option β}
    {l : List α}
    (hl : l.Pairwise fun a b => ∀ u v, f a = some u → f b = some v → u ≤ v) :
    FindsLeast {v | ∃ a ∈ l, f a = some v} (l.findSome? f) := by
  constructor
  · intro u h
    induction l with
    | nil => cases h
    | cons a l ih =>
        rw [List.pairwise_cons] at hl
        rw [List.findSome?_cons] at h
        cases hfa : f a with
        | none =>
            rw [hfa] at h
            obtain ⟨⟨b, hb, hfb⟩, hle⟩ := ih hl.2 h
            refine ⟨⟨b, List.mem_cons_of_mem _ hb, hfb⟩, ?_⟩
            rintro v ⟨c, hc, hfc⟩
            rcases List.mem_cons.mp hc with rfl | hc
            · rw [hfa] at hfc
              cases hfc
            · exact hle ⟨c, hc, hfc⟩
        | some w =>
            rw [hfa] at h
            cases h
            refine ⟨⟨a, List.mem_cons_self, hfa⟩, ?_⟩
            rintro v ⟨c, hc, hfc⟩
            rcases List.mem_cons.mp hc with rfl | hc
            · rw [hfa] at hfc
              cases hfc
              exact le_rfl
            · exact hl.1 c hc u v hfa hfc
  · intro h
    rw [List.findSome?_eq_none_iff] at h
    refine Set.eq_empty_of_forall_notMem ?_
    rintro v ⟨a, ha, hfa⟩
    rw [h a ha] at hfa
    cases hfa

theorem findSome?_congr {β : Type*} {l : List α} {f g : α → Option β}
    (h : ∀ a ∈ l, f a = g a) : l.findSome? f = l.findSome? g := by
  induction l with
  | nil => rfl
  | cons a l ih =>
      rw [List.findSome?_cons, List.findSome?_cons, h a List.mem_cons_self,
        ih fun b hb => h b (List.mem_cons_of_mem _ hb)]

theorem findSome?_flatMap {β γ : Type*} (l : List α) (g : α → List β)
    (f : β → Option γ) :
    (l.flatMap g).findSome? f = l.findSome? fun a => (g a).findSome? f := by
  induction l with
  | nil => rfl
  | cons a l ih =>
      rw [List.flatMap_cons, List.findSome?_append, ih, List.findSome?_cons]
      cases (g a).findSome? f <;> rfl

end List
