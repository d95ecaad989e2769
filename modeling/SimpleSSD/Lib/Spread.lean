import Mathlib.Algebra.BigOperators.Group.List.Basic
import Mathlib.Algebra.Order.BigOperators.Group.List
import Mathlib.Algebra.Order.Ring.Defs
import Mathlib.Tactic.Ring
import Mathlib.Tactic.Linarith

/-!
# The spread of a list of numbers

The square of a sum is bounded by the number of summands times the sum of their squares, and
`spread`, the sum of the squared differences over all pairs, is what is missing: Lagrange's
identity (`length_mul_sumSq`). It vanishes exactly when all the numbers are equal.
-/

namespace Spread

universe u

variable {R : Type u}

/-- The sum of the squares. -/
def sumSq [CommRing R] (l : List R) : R := (l.map fun x => x * x).sum

/-- The sum of the squared differences over all pairs. -/
def spread [CommRing R] : List R → R
  | [] => 0
  | x :: l => (l.map fun y => (x - y) * (x - y)).sum + spread l

section Ring

variable [CommRing R]

theorem sumSq_cons (x : R) (l : List R) : sumSq (x :: l) = x * x + sumSq l := by
  rw [sumSq, List.map_cons, List.sum_cons]
  rfl

/-- The squared differences to one number. -/
theorem sum_deviation (x : R) (l : List R) :
    (l.map fun y => (x - y) * (x - y)).sum = l.length * (x * x) - 2 * x * l.sum + sumSq l := by
  induction l with
  | nil => simp [sumSq]
  | cons y l ih =>
    rw [List.map_cons, List.sum_cons, ih, sumSq_cons, List.sum_cons, List.length_cons]
    push_cast
    ring

/-- Lagrange's identity. -/
theorem length_mul_sumSq (l : List R) :
    (l.length : R) * sumSq l = l.sum * l.sum + spread l := by
  induction l with
  | nil => simp [sumSq, spread]
  | cons x l ih =>
    rw [sumSq_cons, List.sum_cons, spread, sum_deviation, List.length_cons]
    push_cast
    calc ((l.length : R) + 1) * (x * x + sumSq l)
        = (l.length : R) * sumSq l + (l.length : R) * (x * x) + x * x + sumSq l := by ring
      _ = l.sum * l.sum + spread l + (l.length : R) * (x * x) + x * x + sumSq l := by rw [ih]
      _ = (x + l.sum) * (x + l.sum) +
          ((l.length : R) * (x * x) - 2 * x * l.sum + sumSq l + spread l) := by ring

end Ring

section Order

variable [CommRing R] [LinearOrder R] [IsStrictOrderedRing R]

theorem sumSq_nonneg (l : List R) : 0 ≤ sumSq l := by
  refine List.sum_nonneg fun y hy => ?_
  obtain ⟨x, -, rfl⟩ := List.mem_map.mp hy
  exact mul_self_nonneg x

theorem deviation_nonneg (x : R) (l : List R) :
    0 ≤ (l.map fun y => (x - y) * (x - y)).sum := by
  refine List.sum_nonneg fun y hy => ?_
  obtain ⟨z, -, rfl⟩ := List.mem_map.mp hy
  exact mul_self_nonneg (x - z)

theorem spread_nonneg (l : List R) : 0 ≤ spread l := by
  induction l with
  | nil => exact le_rfl
  | cons x l ih => exact add_nonneg (deviation_nonneg x l) ih

theorem deviation_eq_zero_iff (x : R) (l : List R) :
    (l.map fun y => (x - y) * (x - y)).sum = 0 ↔ ∀ y ∈ l, y = x := by
  induction l with
  | nil => simp
  | cons y l ih =>
    rw [List.map_cons, List.sum_cons,
      add_eq_zero_iff_of_nonneg (mul_self_nonneg (x - y)) (deviation_nonneg x l), ih,
      mul_self_eq_zero, sub_eq_zero, List.forall_mem_cons, eq_comm]

/-- There is no spread exactly when all the numbers are equal. -/
theorem spread_eq_zero_iff (l : List R) : spread l = 0 ↔ ∀ x ∈ l, ∀ y ∈ l, x = y := by
  induction l with
  | nil => simp [spread]
  | cons x l ih =>
    rw [spread, add_eq_zero_iff_of_nonneg (deviation_nonneg x l) (spread_nonneg l),
      deviation_eq_zero_iff, ih]
    constructor
    · rintro ⟨hx, -⟩ y hy z hz
      have hall : ∀ w ∈ x :: l, w = x := List.forall_mem_cons.mpr ⟨rfl, hx⟩
      rw [hall y hy, hall z hz]
    · intro h
      refine ⟨fun y hy => h y (List.mem_cons_of_mem x hy) x List.mem_cons_self, ?_⟩
      intro y hy z hz
      exact h y (List.mem_cons_of_mem x hy) z (List.mem_cons_of_mem x hz)

/-- The sum of the squares is positive as soon as one number is not zero. -/
theorem sumSq_pos_iff (l : List R) : 0 < sumSq l ↔ ∃ x ∈ l, x ≠ 0 := by
  induction l with
  | nil => simp [sumSq]
  | cons x l ih =>
    rw [sumSq_cons]
    constructor
    · intro h
      by_cases hx : x = 0
      · rw [hx, mul_zero, zero_add] at h
        obtain ⟨y, hy, hne⟩ := ih.mp h
        exact ⟨y, List.mem_cons_of_mem x hy, hne⟩
      · exact ⟨x, List.mem_cons_self, hx⟩
    · rintro ⟨y, hy, hne⟩
      rcases List.mem_cons.mp hy with rfl | hy
      · exact add_pos_of_pos_of_nonneg (mul_self_pos.mpr hne) (sumSq_nonneg l)
      · exact add_pos_of_nonneg_of_pos (mul_self_nonneg x) (ih.mpr ⟨y, hy, hne⟩)

end Order

end Spread
