/-! # Picking and lining up

Three small list operations on which every decision of the planner rests: a left-to-right search
for the best element under an arbitrary relation (`pick`), a stable sort (`lineUp`), and the
latest of a list of instants or numbers.  No law is asked of the relations; what the results mean
follows from the laws a given relation has.
-/

namespace Dispatch

variable {α : Type}

/-- Hold the first element and replace it by each later one that beats what is held. -/
def pick (beats : α → α → Bool) : List α → Option α
  | [] => none
  | x :: xs => some (xs.foldl (fun held y => if beats y held then y else held) x)

/-- Put `x` before the first element that it may precede. -/
def slotIn (le : α → α → Bool) (x : α) : List α → List α
  | [] => [x]
  | y :: ys => if le x y then x :: y :: ys else y :: slotIn le x ys

/-- Sort by `le`, keeping the order of elements that precede each other. -/
def lineUp (le : α → α → Bool) : List α → List α
  | [] => []
  | x :: xs => slotIn le x (lineUp le xs)

theorem pick_mem {beats : α → α → Bool} {l : List α} {x : α} (h : pick beats l = some x) :
    x ∈ l := by
  cases l with
  | nil => simp [pick] at h
  | cons a l =>
    simp only [pick, Option.some.injEq] at h
    suffices ∀ (l : List α) (b : α),
        l.foldl (fun held y => if beats y held then y else held) b = b ∨
          l.foldl (fun held y => if beats y held then y else held) b ∈ l by
      rcases this l a with e | e <;> rw [h] at e
      · simp [e]
      · exact List.mem_cons_of_mem _ e
    intro l
    induction l with
    | nil => simp
    | cons y l ih =>
      intro b
      rw [List.foldl_cons]
      rcases ih (if beats y b then y else b) with e | e
      · rw [e]
        split
        · exact .inr List.mem_cons_self
        · exact .inl rfl
      · exact .inr (List.mem_cons_of_mem _ e)

theorem slotIn_perm (le : α → α → Bool) (x : α) (l : List α) :
    (slotIn le x l).Perm (x :: l) := by
  induction l with
  | nil => exact .refl _
  | cons y l ih =>
    rw [slotIn]
    split
    · exact .refl _
    · exact (ih.cons y).trans (.swap x y l)

theorem lineUp_perm (le : α → α → Bool) (l : List α) : (lineUp le l).Perm l := by
  induction l with
  | nil => exact .refl _
  | cons x l ih => exact (slotIn_perm le x _).trans (ih.cons x)

@[simp] theorem mem_lineUp {le : α → α → Bool} {l : List α} {x : α} :
    x ∈ lineUp le l ↔ x ∈ l := (lineUp_perm le l).mem_iff

end Dispatch
