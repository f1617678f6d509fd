import FlowDiagram.Proofs.Decimal.Value
import FlowDiagram.Svg.Coordinate

namespace FlowDiagram.Svg

open Decimal

/-- The test without rounding, for a magnitude and the integer that it is rounded to. -/
def within (v : Binary) (n : Nat) : Bool := |v.toRat - n| ≤ 1 / 10 ^ 9 * max v.toRat n

theorem nearest_one (n : Nat) : nearest n 1 = n := by
  have hnear := nearest_near n 1 (by decide)
  omega

/-- Keeping 53 leading bits changes a number by at most one part in 2^53. -/
theorem nearest_leading (p : Nat) :
    |((nearest p (2 ^ (p.log2 + 1 - 53)) * 2 ^ (p.log2 + 1 - 53) : Nat) : Rat) - p| ≤ p / 2 ^ 53 := by
  obtain ⟨k, hk⟩ : ∃ k, p.log2 + 1 - 53 = k := ⟨_, rfl⟩
  rw [hk]
  obtain rfl | hpos := k.eq_zero_or_pos
  · rw [pow_zero, nearest_one, mul_one, sub_self, abs_zero]
    positivity
  · have hp : p ≠ 0 := by
      rintro rfl
      simp at hk
      omega
    have hbits : 2 ^ 52 * 2 ^ k ≤ p := by
      rw [← Nat.pow_add]
      exact (Nat.pow_le_pow_right (by decide) (by omega)).trans (Nat.log2_self_le hp)
    obtain ⟨hhigh, hlow⟩ := nearest_near p (2 ^ k) (by positivity)
    have hbits' : (2 : Rat) ^ 52 * 2 ^ k ≤ p := by exact_mod_cast hbits
    have hhigh' : (2 : Rat) * (nearest p (2 ^ k) * 2 ^ k : Nat) ≤ 2 * p + 2 ^ k := by exact_mod_cast hhigh
    have hlow' : (2 : Rat) * p ≤ 2 * (nearest p (2 ^ k) * 2 ^ k : Nat) + 2 ^ k := by exact_mod_cast hlow
    rw [abs_le]
    constructor <;> linarith

theorem roundedProduct_near (v w : Binary) :
    |(roundedProduct v w).toRat - v.toRat * w.toRat| ≤ v.toRat * w.toRat / 2 ^ 53 := by
  obtain ⟨k, hk⟩ : ∃ k, (v.m * w.m).log2 + 1 - 53 = k := ⟨_, rfl⟩
  have hnear := nearest_leading (v.m * w.m)
  rw [hk] at hnear
  have hproduct : (roundedProduct v w).toRat =
      ((nearest (v.m * w.m) (2 ^ k) * 2 ^ k : Nat) : Rat) * 2 ^ (v.q + w.q) := by
    simp only [roundedProduct, Binary.toRat, hk, Nat.pow_eq]
    rw [zpow_add₀ (by norm_num), zpow_natCast]
    push_cast
    ring
  have hexact : v.toRat * w.toRat = ((v.m * w.m : Nat) : Rat) * 2 ^ (v.q + w.q) := by
    rw [Binary.toRat, Binary.toRat, zpow_add₀ (by norm_num)]
    push_cast
    ring
  have hpos : (0 : Rat) < 2 ^ (v.q + w.q) := by positivity
  rw [hproduct, hexact, ← sub_mul, abs_mul, abs_of_pos hpos, mul_div_right_comm]
  exact mul_le_mul_of_nonneg_right hnear hpos.le

theorem toRat_distance (v : Binary) (n : Nat) : (distance v n).toRat = |v.toRat - n| := by
  have hden : (2 : Rat) ^ min v.q 0 = 1 / v.den := by
    rw [Binary.den, Nat.pow_eq]
    obtain hq | hq := le_total v.q 0
    · obtain ⟨k, hk⟩ := Int.eq_ofNat_of_zero_le (neg_nonneg.mpr hq)
      have hvq : v.q = -k := by omega
      rw [min_eq_left hq, hk, hvq]
      simp
    · rw [min_eq_right hq, Int.toNat_of_nonpos (by omega)]
      simp
  have hdiff : v.toRat - n = ((v.num : Int) - (n * v.den : Nat) : Int) / v.den := by
    rw [Binary.toRat_eq_div, eq_div_iff v.cast_den_pos.ne', sub_mul, div_mul_cancel₀ _ v.cast_den_pos.ne']
    push_cast
    rfl
  rw [hdiff, abs_div, Nat.abs_cast, Binary.toRat, distance]
  dsimp only
  rw [hden, mul_one_div, Nat.cast_natAbs, Int.cast_abs]

/-- An exact integer needs no tolerance, so the first of the three tests is a case of the others. -/
theorem isClose_iff (v : Binary) (n : Nat) : isClose v n = true ↔
    |v.toRat - n| ≤ (roundedProduct tolerance ⟨n, 0⟩).toRat ∨ |v.toRat - n| ≤ (roundedProduct tolerance v).toRat := by
  rw [isClose, Bool.or_eq_true, Bool.or_eq_true, Binary.le_iff, Binary.le_iff, toRat_distance, decide_eq_true_eq,
    or_assoc]
  apply or_iff_right_of_imp
  intro hzero
  left
  rw [← toRat_distance, Binary.toRat, hzero, Nat.cast_zero, zero_mul]
  exact Binary.toRat_nonneg _

theorem toRat_tolerance : tolerance.toRat = 4835703278458517 / 2 ^ 82 := by
  rw [tolerance, Binary.toRat]
  norm_num

variable {v : Binary} {n : Nat}

theorem le_of_isClose (h : isClose v n = true) :
    |v.toRat - n| ≤ (1 + 1 / 2 ^ 53) * tolerance.toRat * max v.toRat n := by
  have hbound (w : Binary) (hw : w.toRat ≤ max v.toRat n) :
      (roundedProduct tolerance w).toRat ≤ (1 + 1 / 2 ^ 53) * tolerance.toRat * max v.toRat n := by
    have hnear := (abs_le.mp (roundedProduct_near tolerance w)).2
    have hscale := mul_le_mul_of_nonneg_left hw tolerance.toRat_nonneg
    linarith
  obtain h | h := (isClose_iff v n).mp h
  · exact h.trans (hbound ⟨n, 0⟩ (by rw [Binary.toRat_natCast]; exact le_max_right ..))
  · exact h.trans (hbound v (le_max_left ..))

theorem isClose_of_le (h : |v.toRat - n| ≤ (1 - 1 / 2 ^ 53) * tolerance.toRat * max v.toRat n) :
    isClose v n = true := by
  have hbound (w : Binary) : (1 - 1 / 2 ^ 53) * tolerance.toRat * w.toRat ≤ (roundedProduct tolerance w).toRat := by
    have hnear := (abs_le.mp (roundedProduct_near tolerance w)).1
    linarith
  rw [isClose_iff]
  obtain hmax | hmax := max_choice v.toRat n
  · right
    rw [hmax] at h
    exact h.trans (hbound v)
  · left
    rw [hmax, ← Binary.toRat_natCast] at h
    rw [← Binary.toRat_natCast n]
    exact h.trans (hbound ⟨n, 0⟩)

/-- What lies between an integer and a number that is close to it is close to it too. -/
def Narrowing (close : Binary → Nat → Bool) : Prop :=
  ∀ {v w : Binary} {n : Nat}, IsMagnitude v → IsMagnitude w → w.toRat ∈ Set.uIcc v.toRat n →
    close v n = true → close w n = true

theorem narrowing_within : Narrowing within := by
  intro v w n hv hw hbetween hclose
  rw [within, decide_eq_true_iff] at hclose ⊢
  obtain ⟨hvw, hwn⟩ | ⟨hnw, hwv⟩ := Set.mem_uIcc.mp hbetween
  · rw [max_eq_right (hvw.trans hwn), abs_sub_comm, abs_of_nonneg (by linarith)] at hclose
    rw [max_eq_right hwn, abs_sub_comm, abs_of_nonneg (by linarith)]
    linarith
  · rw [max_eq_left (hnw.trans hwv), abs_of_nonneg (by linarith)] at hclose
    rw [max_eq_left hnw, abs_of_nonneg (by linarith)]
    linarith

/-- Two magnitudes are far enough apart for the distance to outweigh what is rounded. -/
theorem narrowing_isClose : Narrowing isClose := by
  intro v w n hv hw hbetween hclose
  -- In proportion, a product is off by a billionth of 2^-53, but different magnitudes are 2^-54 apart.
  have hbound := le_of_isClose hclose
  have hpos := v.toRat_nonneg
  rw [toRat_tolerance] at hbound
  obtain ⟨hvw, hwn⟩ | ⟨hnw, hwv⟩ := Set.mem_uIcc.mp hbetween
  · obtain heq | hlt := hvw.eq_or_lt
    · exact hv.eq hw heq ▸ hclose
    · have hgap := hv.le_gap hw hlt
      rw [max_eq_right (hvw.trans hwn), abs_sub_comm, abs_of_nonneg (by linarith)] at hbound
      apply isClose_of_le
      rw [toRat_tolerance, max_eq_right hwn, abs_sub_comm, abs_of_nonneg (by linarith)]
      linarith
  · obtain heq | hlt := hwv.eq_or_lt
    · exact hw.eq hv heq ▸ hclose
    · have hgap := hw.le_gap hv hlt
      rw [max_eq_left (hnw.trans hwv), abs_of_nonneg (by linarith)] at hbound
      apply isClose_of_le
      rw [toRat_tolerance, max_eq_left hnw, abs_of_nonneg (by linarith)]
      linarith

end FlowDiagram.Svg
