import Dispatch.Proofs.Numbers
import Mathlib.Tactic.Linarith

/-!
# Quantities that overflow

Rational numbers up to the largest floating point number of 64 bits, together with the values that
IEEE 754 adds to them: the two infinities, which stand for all beyond, and one value that is no
number, for a result that has none.  `Overflowing` obeys the laws of quantities, so that the planner
can be followed where an operation overflows, which no exact quantity does.  Results are not rounded
otherwise.
-/

namespace Dispatch

/-- A rational number in the range of floating point numbers, an infinity, or no number. -/
inductive Overflowing
  | finite (q : ℚ)
  | top
  | bottom
  | undefined

namespace Overflowing

/-- The least power of two that is out of range. -/
def limit : ℚ := 2 ^ 1024

/-- A rational number, or the infinity that stands for it. -/
def ofRat (q : ℚ) : Overflowing :=
  if limit ≤ q then top else if q ≤ -limit then bottom else finite q

/-- The order of numbers; what is no number is not comparable to anything. -/
def le : Overflowing → Overflowing → Bool
  | undefined, _ => false
  | _, undefined => false
  | bottom, _ => true
  | _, top => true
  | finite p, finite q => p ≤ q
  | _, _ => false

/-- The sum; the two infinities have none. -/
def add : Overflowing → Overflowing → Overflowing
  | finite p, finite q => ofRat (p + q)
  | top, finite _ => top
  | finite _, top => top
  | top, top => top
  | bottom, finite _ => bottom
  | finite _, bottom => bottom
  | bottom, bottom => bottom
  | _, _ => undefined

def neg : Overflowing → Overflowing
  | finite p => finite (-p)
  | top => bottom
  | bottom => top
  | undefined => undefined

/-- The quotient; a divisor of zero counts as positive. -/
def div : Overflowing → Overflowing → Overflowing
  | finite p, finite q =>
    if q = 0 then
      if p = 0 then undefined else if 0 < p then top else bottom
    else ofRat (p / q)
  | finite _, top => finite 0
  | finite _, bottom => finite 0
  | top, finite q => if q < 0 then bottom else top
  | bottom, finite q => if q < 0 then top else bottom
  | _, _ => undefined

instance : Quantity Overflowing where
  zero := finite 0
  one := finite 1
  add := add
  sub x y := add x (neg y)
  div := div
  lt x y := le x y = true ∧ le y x = false
  le x y := le x y = true
  beq x y := le x y && le y x
  decidableLT _ _ := inferInstanceAs (Decidable (_ ∧ _))
  decidableLE _ _ := inferInstanceAs (Decidable (_ = true))
  tolerance := finite (1 / 1000000000)
  isFinite
    | finite _ => true
    | _ => false
  text
    | finite q => toString q
    | top => "inf"
    | bottom => "-inf"
    | undefined => "NaN"

section Laws

variable {x y : Overflowing} {q : ℚ}

theorem le_iff : x ≤ y ↔ le x y = true := Iff.rfl

theorem lt_iff : x < y ↔ le x y = true ∧ le y x = false := Iff.rfl

theorem zero_eq : (0 : Overflowing) = finite 0 := rfl

theorem isNumber_iff : Quantity.IsNumber x ↔ x ≠ undefined := by
  cases x <;> simp [Quantity.IsNumber, le_iff, le]

theorem ofRat_ne (q : ℚ) : ofRat q ≠ undefined := by
  unfold ofRat
  split
  · simp
  · split <;> simp

theorem zero_le_ofRat (h : 0 ≤ q) : 0 ≤ ofRat q := by
  have hlimit : (0 : ℚ) < limit := by decide +kernel
  unfold ofRat
  split
  · rfl
  · rw [if_neg (by linarith), zero_eq, le_iff, le]
    exact decide_eq_true h

theorem exists_finite (h : Quantity.isValid x = true) : ∃ q, x = finite q ∧ 0 ≤ q := by
  have hvalid : (Quantity.isFinite x && !decide (x < 0)) = true := h
  simp only [Bool.and_eq_true, Bool.not_eq_true', decide_eq_false_iff_not] at hvalid
  obtain ⟨hfinite, hle⟩ := hvalid
  cases x with
  | finite q =>
    refine ⟨q, rfl, not_lt.1 fun hq => hle ?_⟩
    rw [zero_eq, lt_iff, le, le]
    exact ⟨decide_eq_true hq.le, decide_eq_false (not_le.2 hq)⟩
  | _ => cases hfinite

end Laws

/-- **The laws of quantities hold although operations overflow.** -/
instance : Quantity.Lawful Overflowing where
  isNumber_of_le {x y} := by cases x <;> cases y <;> simp [Quantity.IsNumber, le_iff, le]
  le_total {x y} := by
    cases x <;> cases y <;> simp [Quantity.IsNumber, le_iff, le, le_total]
  le_trans {x y z} := by
    cases x <;> cases y <;> cases z <;> simp [le_iff, le]
    exact le_trans
  lt_iff {x y} := by
    cases x <;> cases y <;> simp [Quantity.IsNumber, le_iff, lt_iff, le]
    exact le_of_lt
  isNumber_zero := isNumber_iff.2 (by simp [zero_eq])
  isNumber_one := isNumber_iff.2 (show finite 1 ≠ undefined by simp)
  nonneg_of_isValid {x} h := by
    obtain ⟨q, rfl, hq⟩ := exists_finite h
    rw [zero_eq, le_iff, le]
    exact decide_eq_true hq
  add_nonneg {x y} := by
    show 0 ≤ x → 0 ≤ y → 0 ≤ add x y
    cases x <;> cases y <;> simp [zero_eq, le_iff, le, add]
    exact fun hp hq => zero_le_ofRat (add_nonneg hp hq)
  isNumber_sub {c l} hc hl := by
    obtain ⟨q, rfl, -⟩ := exists_finite hc
    rw [isNumber_iff]
    show add (finite q) (neg l) ≠ undefined
    cases l with
    | finite p => exact ofRat_ne _
    | top => simp [neg, add]
    | bottom => simp [neg, add]
    | undefined => cases hl
  isNumber_add_tolerance {x} := by
    rw [isNumber_iff, isNumber_iff]
    show add x (finite _) ≠ undefined ↔ _
    cases x <;> simp [add, ofRat_ne]
  isNumber_div {c l} hc hpos hl := by
    obtain ⟨q, rfl, -⟩ := exists_finite hc
    have hq : ¬ q = 0 := by
      rintro rfl
      simp [zero_eq, lt_iff, le] at hpos
    rw [isNumber_iff]
    show div l (finite q) ≠ undefined
    cases l with
    | finite p =>
      rw [div, if_neg hq]
      exact ofRat_ne _
    | top =>
      rw [div]
      split <;> simp
    | bottom =>
      rw [div]
      split <;> simp
    | undefined => cases hl

end Overflowing

end Dispatch
