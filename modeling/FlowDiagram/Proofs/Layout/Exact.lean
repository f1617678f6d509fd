import FlowDiagram.Layout.Config
import FlowDiagram.Layout.Diagram
import FlowDiagram.Proofs.Table
import Mathlib.Algebra.BigOperators.Group.List.Basic
import Mathlib.Algebra.Order.Ring.Rat
import Mathlib.Algebra.Order.Group.Unbundled.Abs
import Mathlib.Tactic.Linarith
import Mathlib.Tactic.Ring

namespace FlowDiagram

namespace Scalar

@[simp] theorem lt_rat (a b : Rat) : lt a b = decide (a < b) := rfl

@[simp] theorem eq_rat (a b : Rat) : eq a b = decide (a = b) := by
  by_cases h : a = b
  · rw [decide_eq_true h, h]
    exact beq_self_eq_true b
  · rw [decide_eq_false h]
    exact beq_eq_false_iff_ne.mpr h

@[simp] theorem le_rat (a b : Rat) : le a b = decide (a ≤ b) := by
  rw [le, lt_rat, eq_rat, Bool.eq_iff_iff]
  simp [le_iff_lt_or_eq]

@[simp] theorem max_rat (a b : Rat) : Scalar.max a b = Max.max a b := by
  by_cases h : a < b
  · rw [Scalar.max, lt_rat, if_pos (decide_eq_true h), max_eq_right h.le]
  · rw [Scalar.max, lt_rat, if_neg (by simpa using h), max_eq_left (not_lt.mp h)]

@[simp] theorem abs_rat (a : Rat) : abs a = |a| := by
  have hz : ((0 : Nat) : Rat) = 0 := Nat.cast_zero
  by_cases h : a < 0
  · rw [abs, lt_rat, hz, if_pos (decide_eq_true h), abs_of_neg h, zero_sub]
  · rw [abs, lt_rat, hz, if_neg (by simpa using h), abs_of_nonneg (not_lt.mp h)]

theorem sum_rat (xs : List Rat) : sum xs = xs.sum := List.sum_eq_foldl.symm

theorem least_rat (a : Rat) (xs : List Rat) : least a xs = xs.foldl min a := by
  rw [least]
  congr 1
  funext m x
  by_cases h : x < m
  · rw [lt_rat, if_pos (decide_eq_true h), min_eq_right h.le]
  · rw [lt_rat, if_neg (by simpa using h), min_eq_left (not_lt.mp h)]

theorem least_spec (a : Rat) (xs : List Rat) :
    least a xs ∈ a :: xs ∧ ∀ x ∈ a :: xs, least a xs ≤ x := by
  rw [least_rat]
  exact List.min?_eq_some_iff.mp List.min?_cons'

end Scalar

namespace PlacedNode

variable (n : PlacedNode Rat)

theorem left_rat : n.left = n.x - (n.kind.width : Rat) / 2 := rfl

theorem right_rat : n.right = n.x + (n.kind.width : Rat) / 2 := rfl

theorem top_rat : n.top = n.y - (n.kind.height : Rat) / 2 := rfl

theorem bottom_rat : n.bottom = n.y + (n.kind.height : Rat) / 2 := rfl

theorem left_le_x : n.left ≤ n.x := by
  have h : (0 : Rat) ≤ n.kind.width := Nat.cast_nonneg _
  rw [n.left_rat]
  linarith

theorem x_le_right : n.x ≤ n.right := by
  have h : (0 : Rat) ≤ n.kind.width := Nat.cast_nonneg _
  rw [n.right_rat]
  linarith

theorem left_le_right : n.left ≤ n.right := n.left_le_x.trans n.x_le_right

theorem top_le_y : n.top ≤ n.y := by
  have h : (0 : Rat) ≤ n.kind.height := Nat.cast_nonneg _
  rw [n.top_rat]
  linarith

theorem y_le_bottom : n.y ≤ n.bottom := by
  have h : (0 : Rat) ≤ n.kind.height := Nat.cast_nonneg _
  rw [n.bottom_rat]
  linarith

theorem top_le_bottom : n.top ≤ n.bottom := n.top_le_y.trans n.y_le_bottom

theorem width_le_widest : (n.kind.width : Rat) ≤ 100 := by
  exact_mod_cast n.kind.width_le

theorem height_le_tallest : (n.kind.height : Rat) ≤ 80 := by
  exact_mod_cast n.kind.height_le

end PlacedNode

namespace Quantity

/-- The number that a setting stands for. -/
def exact : Quantity Rat → Rat
  | int i => i
  | real x => x

@[simp] theorem value_rat (q : Quantity Rat) : q.value = .ok q.exact := by
  cases q with
  | int i =>
    have h : ((2 * i : Int) : Rat) / 2 = i := by
      push_cast
      ring
    exact congrArg Except.ok h
  | real x => rfl

@[simp] theorem isBelow_rat (n : Nat) (q : Quantity Rat) :
    q.isBelow n = decide (q.exact < n) := by
  cases q with
  | int i =>
    rw [isBelow, exact, Bool.eq_iff_iff]
    simp only [decide_eq_true_eq]
    exact_mod_cast Iff.rfl
  | real x => rfl

@[simp] theorem isAtMost_rat (n : Nat) (q : Quantity Rat) :
    q.isAtMost n = decide (q.exact ≤ n) := by
  cases q with
  | int i =>
    rw [isAtMost, exact, Bool.eq_iff_iff]
    simp only [decide_eq_true_eq]
    exact_mod_cast Iff.rfl
  | real x => exact Scalar.le_rat x n

end Quantity

theorem Config.check_eq_ok (c : Config Rat) (s : Spacing Rat) :
    c.check = .ok s ↔ 100 ≤ c.minSpacing.exact ∧ 80 < c.levelSpacing.exact ∧ 40 ≤ c.baseY.exact ∧
      0 ≤ c.leftMargin.exact ∧ ⟨c.minSpacing.exact, c.levelSpacing.exact, c.baseX.exact,
        c.baseY.exact, c.leftMargin.exact⟩ = s := by
  have hw : ((Kind.widest : Nat) : Rat) = 100 := rfl
  have ht : ((Kind.tallest : Nat) : Rat) = 80 := rfl
  have hy : ((Kind.tallest / 2 : Nat) : Rat) = 40 := rfl
  have hm : ((0 : Nat) : Rat) = 0 := rfl
  rw [check, guard_eq_ok, guard_eq_ok, guard_eq_ok, guard_eq_ok]
  simp only [Quantity.isBelow_rat, Quantity.isAtMost_rat, Quantity.value_rat, hw, ht, hy, hm,
    decide_eq_false_iff_not, not_lt, not_le]
  simp [bind, Except.bind, pure, Except.pure]

end FlowDiagram
