import FlowDiagram.Proofs.Float.Bounds

namespace FlowDiagram.Binary64

open Float.Model Float.Model.UnpackedFloat

/-- The number is infinite, or no number. -/
def Stray (x : Float) : Prop := real? x = none

variable {u v : UnpackedFloat}

theorem value?_pack_none (h : value? u = none) : value? (Float.Model.pack u).unpack = none := by
  cases u with
  | infinity s => cases s <;> rfl
  | notANumber => rfl
  | zero s => cases h
  | finite s m e hm => cases h

theorem value?_add_left (h : value? u = none) (v : UnpackedFloat) :
    value? (UnpackedFloat.add .binary64 u v) = none := by
  cases u with
  | infinity s =>
    cases v with
    | infinity t => cases s <;> cases t <;> rfl
    | _ => rfl
  | notANumber => rfl
  | zero s => cases h
  | finite s m e hm => cases h

theorem value?_add_right (u : UnpackedFloat) (h : value? v = none) :
    value? (UnpackedFloat.add .binary64 u v) = none := by
  cases v with
  | infinity t =>
    cases u with
    | infinity s => cases s <;> cases t <;> rfl
    | _ => rfl
  | notANumber => cases u <;> rfl
  | zero s => cases h
  | finite s m e hm => cases h

theorem value?_mul_right (u : UnpackedFloat) (h : value? v = none) :
    value? (UnpackedFloat.mul .binary64 u v) = none := by
  cases v with
  | infinity t => cases u <;> rfl
  | notANumber => cases u <;> rfl
  | zero s => cases h
  | finite s m e hm => cases h

theorem value?_div_left (h : value? u = none) (hv : value? v ≠ none) :
    value? (UnpackedFloat.div .binary64 u v) = none := by
  cases u with
  | infinity s =>
    cases v with
    | infinity t => exact absurd rfl hv
    | _ => rfl
  | notANumber => cases v <;> rfl
  | zero s => cases h
  | finite s m e hm => cases h

theorem Stray.not_finite {x : Float} (h : Stray x) : ¬ Decimal.Finite x := by
  rintro ⟨negative, v, hx⟩
  rw [Stray, real?, hx] at h
  cases h

theorem stray_pack {x : Float} (hx : x.toModel = Float.Model.pack u) (h : value? u = none) : Stray x := by
  rw [Stray, real?_eq, hx]
  exact value?_pack_none h

namespace Stray

variable {x : Float} (h : Stray x) (y : Float)
include h

theorem add_right : Stray (x + y) := by
  rw [Stray, real?_eq] at h
  exact stray_pack rfl (value?_add_left h _)

theorem add_left : Stray (y + x) := by
  rw [Stray, real?_eq] at h
  exact stray_pack rfl (value?_add_right _ h)

theorem sub_right : Stray (x - y) := by
  rw [Stray, real?_eq] at h
  refine stray_pack (u := .sub .binary64 x.toModel.unpack y.toModel.unpack) rfl ?_
  rw [sub_eq_add]
  exact value?_add_left h _

theorem mul_left : Stray (y * x) := by
  rw [Stray, real?_eq] at h
  exact stray_pack rfl (value?_mul_right _ h)

theorem div_natCast {n : Nat} (hn : n < 2 ^ 53) : Stray (x / (n : Float)) := by
  rw [Stray, real?_eq] at h
  refine stray_pack (u := .div .binary64 x.toModel.unpack (n : Float).toModel.unpack) rfl ?_
  apply value?_div_left h
  rw [show (n : Float) = Float.ofNat n from rfl, value?_natCast hn]
  exact Option.some_ne_none _

end Stray

end FlowDiagram.Binary64
