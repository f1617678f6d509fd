import FlowDiagram.Proofs.Decimal.Nearest
import FlowDiagram.Proofs.Float.Bounds

namespace FlowDiagram.Decimal

def withSign (negative : Bool) (r : Rat) : Rat := if negative then -r else r

@[simp]
theorem withSign_false (r : Rat) : withSign false r = r := rfl

@[simp]
theorem withSign_true (r : Rat) : withSign true r = -r := rfl

theorem abs_withSign (negative : Bool) (r : Rat) : |withSign negative r| = |r| := by
  cases negative
  · rfl
  · exact abs_neg r

theorem withSign_sub (negative : Bool) (r s : Rat) :
    withSign negative r - withSign negative s = withSign negative (r - s) := by
  cases negative
  · rfl
  · simp only [withSign_true]
    ring

theorem roundEven_withSign (negative : Bool) (r : Rat) :
    (roundEven (withSign negative r) : Rat) = withSign negative (roundEven r) := by
  cases negative <;> simp [roundEven_neg]

namespace Binary

variable {v w : Binary}

def toRat (v : Binary) : Rat := v.m * 2 ^ v.q

theorem toRat_nonneg (v : Binary) : 0 ≤ v.toRat := by
  rw [toRat]
  positivity

theorem toRat_natCast (n : Nat) : (Binary.mk n 0).toRat = n := by simp [toRat]

theorem toRat_eq_div (v : Binary) : v.toRat = v.num / v.den := by
  obtain ⟨m, q⟩ := v
  simp only [toRat, num, den, Nat.pow_eq]
  obtain ⟨k, rfl | rfl⟩ := Int.eq_nat_or_neg q
  · simp
  · simp [div_eq_mul_inv]

theorem cast_den_pos (v : Binary) : (0 : Rat) < v.den := by exact_mod_cast v.den_pos

theorem le_iff : v.le w = true ↔ v.toRat ≤ w.toRat := by
  rw [le, decide_eq_true_iff, toRat_eq_div, toRat_eq_div, div_le_div_iff₀ v.cast_den_pos w.cast_den_pos]
  exact_mod_cast Iff.rfl

theorem roundEven_toRat (v : Binary) : roundEven v.toRat = nearest v.num v.den := by
  rw [toRat_eq_div, roundEven_div v.num v.den_pos]

theorem exists_multiple {e : Int} (h : e ≤ v.q) : ∃ a : Nat, v.toRat = a * 2 ^ e := by
  obtain ⟨k, hk⟩ : ∃ k : Nat, v.q = e + k := ⟨(v.q - e).toNat, by omega⟩
  refine ⟨v.m * 2 ^ k, ?_⟩
  rw [toRat, hk, zpow_add₀ (by norm_num), zpow_natCast]
  push_cast
  ring

theorem unit_le_sub {e : Int} (hv : e ≤ v.q) (hw : e ≤ w.q) (h : v.toRat < w.toRat) :
    2 ^ e ≤ w.toRat - v.toRat := by
  have hpos : (0 : Rat) < 2 ^ e := by positivity
  obtain ⟨a, ha⟩ := exists_multiple hv
  obtain ⟨b, hb⟩ := exists_multiple hw
  rw [ha, hb] at h ⊢
  have hlt : a < b := by exact_mod_cast lt_of_mul_lt_mul_right h hpos.le
  have hstep : (a : Rat) + 1 ≤ b := by exact_mod_cast hlt
  calc (2 : Rat) ^ e = ((a : Rat) + 1) * 2 ^ e - a * 2 ^ e := by ring
    _ ≤ b * 2 ^ e - a * 2 ^ e := by gcongr

end Binary

/-- A magnitude uses all 53 bits, unless it has the least exponent. -/
structure IsMagnitude (v : Binary) : Prop where
  lt : v.m < 2 ^ 53
  full : 2 ^ 52 ≤ v.m ∨ v.q = -1074
  least : -1074 ≤ v.q

theorem isMagnitude_of_ofFloat {x : Float} {negative : Bool} {v : Binary}
    (h : Number.ofFloat x = .finite negative v) : IsMagnitude v := by
  rw [Number.ofFloat, Number.ofBits] at h
  simp only [Nat.pow_eq] at h
  have hfraction : x.toBits.toNat % 2 ^ 52 < 2 ^ 52 := Nat.mod_lt _ (by decide)
  split at h
  · split at h <;> cases h
  · split at h
    · cases h
      constructor <;> dsimp only <;> omega
    · cases h
      constructor <;> dsimp only <;> omega

namespace IsMagnitude

variable {v w : Binary}

theorem toRat_lt (hv : IsMagnitude v) : v.toRat < 2 ^ 53 * 2 ^ v.q := by
  have hm : (v.m : Rat) < 2 ^ 53 := by exact_mod_cast hv.lt
  exact mul_lt_mul_of_pos_right hm (by positivity)

theorem q_le (hv : IsMagnitude v) (hw : IsMagnitude w) (h : v.toRat = w.toRat) : w.q ≤ v.q := by
  by_contra hlt
  have hfull : (2 : Rat) ^ 52 ≤ w.m := by exact_mod_cast hw.full.resolve_right (by have := hv.least; omega)
  have hpow : (2 : Rat) * 2 ^ v.q ≤ 2 ^ w.q := by
    rw [← zpow_one_add₀ (by norm_num)]
    exact zpow_le_zpow_right₀ (by norm_num) (by omega)
  have hle : v.toRat < v.toRat := by
    calc v.toRat < 2 ^ 52 * (2 * 2 ^ v.q) := by linarith [hv.toRat_lt]
      _ ≤ w.m * 2 ^ w.q := by gcongr
      _ = v.toRat := h.symm
  exact lt_irrefl _ hle

theorem eq (hv : IsMagnitude v) (hw : IsMagnitude w) (h : v.toRat = w.toRat) : v = w := by
  have hq : v.q = w.q := le_antisymm (hw.q_le hv h.symm) (hv.q_le hw h)
  have hpos : (2 : Rat) ^ w.q ≠ 0 := by positivity
  rw [Binary.toRat, Binary.toRat, hq] at h
  have hm : v.m = w.m := by exact_mod_cast mul_right_cancel₀ hpos h
  cases v
  cases w
  simp_all

/-- The gap above a magnitude, in terms of the next. One of the two is not larger than 2^53 units of the smaller
exponent, and they are at least one such unit apart. -/
theorem le_gap (hv : IsMagnitude v) (hw : IsMagnitude w) (h : v.toRat < w.toRat) :
    w.toRat ≤ 2 ^ 54 * (w.toRat - v.toRat) := by
  obtain hle | hlt := le_or_gt v.q w.q
  · have hunit := Binary.unit_le_sub le_rfl hle h
    have hsize := hv.toRat_lt
    linarith
  · have hunit := Binary.unit_le_sub hlt.le le_rfl h
    have hsize := hw.toRat_lt
    linarith

end IsMagnitude

open Binary64 in
theorem exists_magnitude {x : Float} {r : Rat} (h : real? x = some r) :
    ∃ negative v, Number.ofFloat x = .finite negative v ∧ IsMagnitude v ∧ r = withSign negative v.toRat := by
  rw [real?] at h
  cases hx : Number.ofFloat x with
  | finite negative v =>
    rw [hx] at h
    exact ⟨negative, v, rfl, isMagnitude_of_ofFloat hx, (Option.some.inj h).symm⟩
  | infinite negative =>
    rw [hx] at h
    cases h
  | undefined =>
    rw [hx] at h
    cases h

end FlowDiagram.Decimal
