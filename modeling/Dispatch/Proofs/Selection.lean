import Dispatch.Selection
import Mathlib.Data.List.Basic
import Mathlib.Data.List.Sort

/-!
# What is picked, and how elements are lined up

Under a transitive relation that is total on a list `pick` finds the first of the least elements
(`pick_eq_some_iff`): each one listed before it is greater, and each one listed after it is no less.
When elements beat those of no greater key, one of the greatest key is picked (`pick_greatest`).
A list is lined up in the order of the relation (`lineUp_pairwise`).
-/

namespace Dispatch

variable {α : Type} {le : α → α → Bool} {l before after : List α} {a b x : α}

/-- The element is the first of the least ones in a list. -/
def IsFirstLeast (le : α → α → Bool) (l : List α) (x : α) : Prop :=
  ∃ before after, l = before ++ x :: after ∧ (∀ y ∈ before, le y x = false) ∧
    ∀ y ∈ after, le x y = true

theorem not_isFirstLeast_nil : ¬ IsFirstLeast le [] x := by simp [IsFirstLeast]

theorem isFirstLeast_cons :
    IsFirstLeast le (a :: l) x ↔
      (x = a ∧ ∀ y ∈ l, le a y = true) ∨ (le a x = false ∧ IsFirstLeast le l x) := by
  constructor
  · rintro ⟨before, after, hsplit, hbefore, hafter⟩
    cases before with
    | nil =>
      obtain ⟨rfl, rfl⟩ := List.cons.inj hsplit
      exact .inl ⟨rfl, hafter⟩
    | cons b before =>
      obtain ⟨rfl, rfl⟩ := List.cons.inj hsplit
      obtain ⟨ha, hbefore⟩ := List.forall_mem_cons.1 hbefore
      exact .inr ⟨ha, before, after, rfl, hbefore, hafter⟩
  · rintro (⟨rfl, hl⟩ | ⟨ha, before, after, rfl, hbefore, hafter⟩)
    · exact ⟨[], l, rfl, by simp, hl⟩
    · exact ⟨a :: before, after, rfl, List.forall_mem_cons.2 ⟨ha, hbefore⟩, hafter⟩

/-- Something is picked from a list that is not empty. -/
theorem pick_of_mem {beats : α → α → Bool} (h : x ∈ l) : ∃ y, pick beats l = some y := by
  cases l with
  | nil => cases h
  | cons a l => exact ⟨_, rfl⟩

/-- When elements beat those of no greater key, none has a greater key than the one picked. -/
theorem pick_greatest {β : Type} [LinearOrder β] {beats : α → α → Bool} {key : α → β}
    (hbeats : ∀ a b, beats a b = true ↔ key b ≤ key a) (h : pick beats l = some x) :
    ∀ y ∈ l, key y ≤ key x := by
  cases l with
  | nil => cases h
  | cons held l =>
    obtain rfl := Option.some.inj h
    induction l generalizing held with
    | nil => simp
    | cons y l ih =>
      -- what is held after the second element has at least the keys of the first two
      have hheld : key held ≤ key (if beats y held then y else held) ∧
          key y ≤ key (if beats y held then y else held) := by
        cases hy : beats y held with
        | true => exact ⟨(hbeats y held).1 hy, le_refl _⟩
        | false =>
          have hnot : ¬ key held ≤ key y := fun hle => by simp [(hbeats y held).2 hle] at hy
          exact ⟨le_refl _, (not_le.1 hnot).le⟩
      have hrest := List.forall_mem_cons.1 (ih (if beats y held then y else held) rfl)
      rw [List.foldl_cons, List.forall_mem_cons, List.forall_mem_cons]
      exact ⟨hheld.1.trans hrest.1, hheld.2.trans hrest.1, hrest.2⟩

/-- A least element of what is left of a list under a condition, where it stands in the whole. -/
theorem IsFirstLeast.of_filter {β : Type} {p : β → Bool} {f : β → α} {l : List β}
    (h : IsFirstLeast le ((l.filter p).map f) x) : ∃ before b after, l = before ++ b :: after ∧
      f b = x ∧ p b = true ∧ (∀ y ∈ before, p y = true → le (f y) (f b) = false) ∧
      ∀ y ∈ after, p y = true → le (f b) (f y) = true := by
  obtain ⟨before, after, hsplit, hbefore, hafter⟩ := h
  obtain ⟨first, rest, hfilter, rfl, hrest⟩ := List.map_eq_append_iff.1 hsplit
  obtain ⟨b, last, rfl, rfl, rfl⟩ := List.map_eq_cons_iff.1 hrest
  obtain ⟨l₁, l₂, rfl, rfl, hl₂⟩ := List.filter_eq_append_iff.1 hfilter
  obtain ⟨l₃, l₄, rfl, hnone, hb, rfl⟩ := List.filter_eq_cons_iff.1 hl₂
  refine ⟨l₁ ++ l₃, b, l₄, by simp, rfl, hb, fun y hy hp => ?_, fun y hy hp => ?_⟩
  · rcases List.mem_append.1 hy with hy | hy
    · exact hbefore (f y) (List.mem_map_of_mem (List.mem_filter.2 ⟨hy, hp⟩))
    · exact absurd hp (hnone y hy)
  · exact hafter (f y) (List.mem_map_of_mem (List.mem_filter.2 ⟨hy, hp⟩))

section Pick

variable (trans : ∀ a b c, le a b = true → le b c = true → le a c = true)
include trans

/-- Of the first two elements only the one that is held counts. -/
theorem isFirstLeast_cons_cons (total : le a b = true ∨ le b a = true) :
    IsFirstLeast le (a :: b :: l) x ↔ IsFirstLeast le ((if le a b then a else b) :: l) x := by
  simp only [isFirstLeast_cons, List.forall_mem_cons]
  cases hab : le a b with
  | true =>
    have hbx : le a x = false → le b x = false := by
      rw [← Bool.not_eq_true, ← Bool.not_eq_true]
      exact fun hax hbx => hax (trans a b x hab hbx)
    grind
  | false =>
    have hba : le b a = true := total.resolve_left (by simp [hab])
    have hax : le b x = false → le a x = false := by
      rw [← Bool.not_eq_true, ← Bool.not_eq_true]
      exact fun hbx hax => hbx (trans b a x hba hax)
    grind

/-- **The first of the least elements is picked.** -/
theorem pick_eq_some_iff (total : ∀ a ∈ l, ∀ b ∈ l, le a b = true ∨ le b a = true) :
    pick (fun y held => !le held y) l = some x ↔ IsFirstLeast le l x := by
  cases l with
  | nil => simp [pick, not_isFirstLeast_nil]
  | cons held l =>
    rw [pick, Option.some.injEq]
    induction l generalizing held with
    | nil =>
      rw [isFirstLeast_cons, List.foldl_nil, eq_comm]
      simp [not_isFirstLeast_nil]
    | cons y l ih =>
      have hfirst := total held (by simp) y (by simp)
      have hrest : ∀ a ∈ (if le held y then held else y) :: l,
          ∀ b ∈ (if le held y then held else y) :: l, le a b = true ∨ le b a = true := by
        have hsub : (if le held y then held else y) :: l ⊆ held :: y :: l := by
          split <;> simp
        exact fun a ha b hb => total a (hsub ha) b (hsub hb)
      rw [List.foldl_cons, isFirstLeast_cons_cons trans hfirst, ← ih _ hrest]
      cases le held y <;> rfl

/-- Whether an element at a known place is picked. -/
theorem pick_append_eq_some_iff
    (total : ∀ a ∈ before ++ x :: after, ∀ b ∈ before ++ x :: after,
      le a b = true ∨ le b a = true)
    (hbefore : x ∉ before) (hafter : x ∉ after) :
    pick (fun y held => !le held y) (before ++ x :: after) = some x ↔
      (∀ y ∈ before, le y x = false) ∧ ∀ y ∈ after, le x y = true := by
  rw [pick_eq_some_iff trans total]
  constructor
  · rintro ⟨before', after', hsplit, hb, ha⟩
    obtain ⟨rfl, -, rfl⟩ := (List.append_cons_inj_of_notMem hbefore hafter).1 hsplit
    exact ⟨hb, ha⟩
  · rintro ⟨hb, ha⟩
    exact ⟨before, after, rfl, hb, ha⟩

end Pick

/-- Lining up is an insertion sort. -/
theorem lineUp_eq (le : α → α → Bool) (l : List α) :
    lineUp le l = l.insertionSort (fun a b => le a b = true) := by
  have hslot : ∀ (x : α) (l : List α),
      slotIn le x l = l.orderedInsert (fun a b => le a b = true) x := by
    intro x l
    induction l with
    | nil => rfl
    | cons y l ih => rw [slotIn, List.orderedInsert_cons, ih]
  induction l with
  | nil => rfl
  | cons x l ih => rw [lineUp, List.insertionSort_cons, hslot, ih]

theorem lineUp_pairwise (trans : ∀ a b c, le a b = true → le b c = true → le a c = true)
    (total : ∀ a b, le a b = true ∨ le b a = true) (l : List α) :
    (lineUp le l).Pairwise (fun a b => le a b = true) := by
  have htotal : Std.Total (fun a b : α => le a b = true) := ⟨total⟩
  have htrans : IsTrans α (fun a b => le a b = true) := ⟨trans⟩
  rw [lineUp_eq]
  exact List.pairwise_insertionSort _ l

end Dispatch
