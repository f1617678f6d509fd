import FlowDiagram.Proofs.Layout.Exact
import Mathlib

namespace FlowDiagram.Scalar

structure Consistent (α : Type) [Scalar α] : Prop where
  trans : ∀ {a b c : α}, eq a b = true → eq b c = true → eq a c = true
  apart : ∀ {a b : α}, lt a b = true → eq a b = false

theorem consistent_rat : Consistent Rat where
  trans {a b c} hab hbc := by
    rw [eq_rat, decide_eq_true_iff] at hab hbc ⊢
    rw [hab, hbc]
  apart {a b} hlt := by
    rw [lt_rat, decide_eq_true_iff] at hlt
    rw [eq_rat, decide_eq_false_iff_not]
    exact ne_of_lt hlt

section Float

open Float.Model

theorem eq_float (a b : Float) : eq a b = (a.toModel.unpack.compare b.toModel.unpack == some .eq) := rfl

theorem lt_float (a b : Float) : lt a b = true ↔ a.toModel.unpack.compare b.toModel.unpack = some .lt := by
  change decide (a.lt b = true) = true ↔ _
  rw [decide_eq_true_iff, Float.lt, decide_eq_true_iff]
  exact beq_iff_eq

/-- Floating-point numbers are equal if they are the same number or both zero. -/
theorem compare_eq_eq (x y : UnpackedFloat) : x.compare y = some .eq ↔
    (x = y ∧ x ≠ .notANumber) ∨ ∃ s t, x = .zero s ∧ y = .zero t := by
  constructor
  · intro h
    cases x with
    | notANumber => simp [UnpackedFloat.compare] at h
    | infinity s =>
      cases y with
      | infinity t => cases s <;> cases t <;> simp_all [UnpackedFloat.compare]
      | _ => cases s <;> simp [UnpackedFloat.compare] at h
    | zero s =>
      cases y with
      | notANumber => simp [UnpackedFloat.compare] at h
      | zero t => exact .inr ⟨s, t, rfl, rfl⟩
      | infinity t => cases t <;> simp [UnpackedFloat.compare] at h
      | finite t => cases t <;> simp [UnpackedFloat.compare] at h
    | finite s m e =>
      cases y with
      | notANumber => simp [UnpackedFloat.compare] at h
      | zero t => cases s <;> simp [UnpackedFloat.compare] at h
      | infinity t => cases t <;> simp [UnpackedFloat.compare] at h
      | finite t => cases s <;> cases t <;> simp [UnpackedFloat.compare] at h <;> simp [h]
  · intro h
    obtain ⟨rfl, hnumber⟩ | ⟨s, t, rfl, rfl⟩ := h
    · cases x with
      | notANumber => exact absurd rfl hnumber
      | zero s => rfl
      | infinity s => cases s <;> rfl
      | finite s m e => cases s <;> simp [UnpackedFloat.compare]
    · rfl

theorem consistent_float : Consistent Float where
  trans {a b c} hab hbc := by
    rw [eq_float, beq_iff_eq, compare_eq_eq] at hab hbc ⊢
    obtain ⟨hab, hnumber⟩ | ⟨s, t, ha, hb⟩ := hab
    · rwa [hab]
    · obtain ⟨hbc, -⟩ | ⟨-, u, -, hc⟩ := hbc
      · exact .inr ⟨s, t, ha, hbc ▸ hb⟩
      · exact .inr ⟨s, u, ha, hc⟩
  apart {a b} hlt := by
    rw [lt_float] at hlt
    rw [eq_float, hlt]
    rfl

end Float

end FlowDiagram.Scalar
