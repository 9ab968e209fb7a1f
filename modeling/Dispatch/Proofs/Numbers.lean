import Dispatch.Config
import Mathlib.Algebra.Order.Ring.Rat

/-!
# Laws of costs and capacities

Costs and capacities are compared, added, subtracted and divided, and on floating point numbers an
operation may overflow, or its result may be no number at all.  `Quantity.Lawful` collects what the
planner can rely on nevertheless: comparisons order the numbers, and from valid costs and capacities
come loads, spare capacities and ratios that are numbers, though they may be infinite.  All of this
holds of IEEE 754 numbers.  Nothing is said of rounding.

* `Quantity.IsNumber` : a value that is comparable to itself;
* `Quantity.Lawful` : the laws, which exact quantities have;
* `Quantity.sum_nonneg` : sums of costs are not negative;
* `Quantity.larger_le_iff` : the larger of two numbers.

Exact quantities are the rational numbers, on which sums do not round.  The definitions of the
scheduler run on them unchanged, with the same tolerance of one part in 10⁹.  Two settings serve the
histories that are replayed.
-/

namespace Dispatch

namespace Quantity

variable {κ : Type} [Quantity κ]

/-- Whether a value is a number, possibly an infinite one: it is comparable to itself. -/
def IsNumber (x : κ) : Prop := x ≤ x

/-- The laws that the planner can rely on. -/
class Lawful (κ : Type) [Quantity κ] : Prop where
  isNumber_of_le {x y : κ} : x ≤ y → IsNumber x ∧ IsNumber y
  le_total {x y : κ} : IsNumber x → IsNumber y → x ≤ y ∨ y ≤ x
  le_trans {x y z : κ} : x ≤ y → y ≤ z → x ≤ z
  lt_iff {x y : κ} : x < y ↔ IsNumber x ∧ IsNumber y ∧ ¬ y ≤ x
  isNumber_zero : IsNumber (0 : κ)
  isNumber_one : IsNumber (1 : κ)
  nonneg_of_isValid {x : κ} : isValid x = true → 0 ≤ x
  add_nonneg {x y : κ} : 0 ≤ x → 0 ≤ y → 0 ≤ x + y
  isNumber_sub {c l : κ} : isValid c = true → 0 ≤ l → IsNumber (c - l)
  isNumber_add_tolerance {x : κ} : IsNumber (x + tolerance) ↔ IsNumber x
  isNumber_div {c l : κ} : isValid c = true → 0 < c → 0 ≤ l → IsNumber (l / c)

section Laws

variable [Lawful κ] {x y z : κ}

theorem IsNumber.of_nonneg (h : 0 ≤ x) : IsNumber x := (Lawful.isNumber_of_le h).2

theorem IsNumber.of_isValid (h : isValid x = true) : IsNumber x :=
  .of_nonneg (Lawful.nonneg_of_isValid h)

theorem not_lt_iff (hx : IsNumber x) (hy : IsNumber y) : ¬ x < y ↔ y ≤ x := by
  simp [Lawful.lt_iff, hx, hy]

theorem not_le_iff (hx : IsNumber x) (hy : IsNumber y) : ¬ x ≤ y ↔ y < x := by
  simp [Lawful.lt_iff, hx, hy]

/-- Sums of costs are not negative, even where they overflow. -/
theorem sum_nonneg {xs : List κ} (h : ∀ x ∈ xs, isValid x = true) : 0 ≤ Quantity.sum xs := by
  have hadd : ∀ (xs : List κ) (start : κ), (∀ x ∈ xs, isValid x = true) → 0 ≤ start →
      0 ≤ xs.foldl (· + ·) start := by
    intro xs
    induction xs with
    | nil => exact fun _ _ hstart => hstart
    | cons x xs ih =>
      intro start h hstart
      obtain ⟨hx, hxs⟩ := List.forall_mem_cons.1 h
      exact ih _ hxs (Lawful.add_nonneg hstart (Lawful.nonneg_of_isValid hx))
  exact hadd xs 0 h Lawful.isNumber_zero

/-- The larger of two numbers is at most another one exactly when both are. -/
theorem larger_le_iff (hx : IsNumber x) (hy : IsNumber y) : larger x y ≤ z ↔ x ≤ z ∧ y ≤ z := by
  unfold larger
  split
  · rename_i hlt
    have hle : x ≤ y := (Lawful.le_total hx hy).resolve_right (Lawful.lt_iff.1 hlt).2.2
    exact ⟨fun h => ⟨Lawful.le_trans hle h, h⟩, And.right⟩
  · rename_i hlt
    exact ⟨fun h => ⟨h, Lawful.le_trans ((not_lt_iff hx hy).1 hlt) h⟩, And.left⟩

end Laws

theorem isNumber_larger {x y : κ} (hx : IsNumber x) (hy : IsNumber y) :
    IsNumber (larger x y) := by
  unfold larger
  split <;> assumption

end Quantity

/-! ### Exact quantities -/

instance : Quantity ℚ where
  zero := 0
  one := 1
  decidableLT := inferInstance
  decidableLE := inferInstance
  tolerance := 1 / 1000000000
  isFinite _ := true
  text := toString

theorem Quantity.isValid_iff {x : ℚ} : Quantity.isValid x = true ↔ 0 ≤ x := by
  have hvalid : Quantity.isValid x = (true && !decide (x < 0)) := rfl
  simp [hvalid]

instance : Quantity.Lawful ℚ where
  isNumber_of_le _ := ⟨le_refl _, le_refl _⟩
  le_total _ _ := le_total _ _
  le_trans := le_trans
  lt_iff {x y} := by simp [Quantity.IsNumber]
  isNumber_zero := le_refl _
  isNumber_one := le_refl _
  nonneg_of_isValid := Quantity.isValid_iff.1
  add_nonneg := add_nonneg
  isNumber_sub _ _ := le_refl _
  isNumber_add_tolerance := ⟨fun _ => le_refl _, fun _ => le_refl _⟩
  isNumber_div _ _ _ := le_refl _

/-- Settings under which the owner confirms that a job runs. -/
def ownerConfirms : Config ℚ := { balanceAt := 0 }

/-- Settings under which a start call that succeeds confirms that the job runs. -/
def startConfirms : Config ℚ := { balanceAt := 0, runningOnStart := true }

end Dispatch
