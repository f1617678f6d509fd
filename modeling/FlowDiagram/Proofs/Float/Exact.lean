import FlowDiagram.Proofs.Float.Arithmetic

namespace FlowDiagram.Binary64

open Float.Model Float.Model.UnpackedFloat

/-- The larger exponent belongs to the larger number. -/
theorem magnitude_lt {s t : Sign} {m n : Nat} {e f : Int} {hm : 0 < m} {hn : 0 < n}
    (hu : Canonical (.finite s m e hm)) (hv : Canonical (.finite t n f hn)) (h : e < f) :
    (m : Rat) * 2 ^ e < n * 2 ^ f := by
  obtain ⟨⟨hlt, -⟩, he, -⟩ := hu
  obtain ⟨⟨-, hlow⟩, -, -⟩ := hv
  have hlow' : 2 ^ 52 ≤ n := hlow.resolve_right (by omega)
  obtain ⟨k, rfl⟩ : ∃ k : Nat, f = e + 1 + k := ⟨(f - e - 1).toNat, by omega⟩
  have hpos : (0 : Rat) < 2 ^ e := by positivity
  have hm' : (m : Rat) < 2 ^ 53 := by exact_mod_cast hlt
  have hn' : (2 : Rat) ^ 52 ≤ n := by exact_mod_cast hlow'
  have hk : (1 : Rat) ≤ 2 ^ k := one_le_pow₀ (by norm_num)
  calc (m : Rat) * 2 ^ e < 2 ^ 53 * 2 ^ e := mul_lt_mul_of_pos_right hm' hpos
    _ = 2 ^ 52 * (2 ^ e * 2) := by ring
    _ ≤ n * (2 ^ e * 2 * 2 ^ k) :=
      mul_le_mul hn' (le_mul_of_one_le_right (by positivity) hk) (by positivity) (by positivity)
    _ = n * 2 ^ (e + 1 + k) := by rw [zpow_add₀ (by norm_num), zpow_add_one₀ (by norm_num), zpow_natCast]

theorem compare_magnitude {s t : Sign} {m n : Nat} {e f : Int} {hm : 0 < m} {hn : 0 < n}
    (hu : Canonical (.finite s m e hm)) (hv : Canonical (.finite t n f hn)) :
    (compare e f).then (compare m n) = compare ((m : Rat) * 2 ^ e) (n * 2 ^ f) := by
  obtain h | rfl | h := lt_trichotomy e f
  · rw [compare_lt_iff_lt.mpr h, compare_lt_iff_lt.mpr (magnitude_lt hu hv h)]
    rfl
  · have hpos : (0 : Rat) < 2 ^ e := by positivity
    rw [compare_eq_iff_eq.mpr rfl]
    change compare m n = _
    obtain h | rfl | h := lt_trichotomy m n
    · rw [compare_lt_iff_lt.mpr h, compare_lt_iff_lt.mpr (mul_lt_mul_of_pos_right (Nat.cast_lt.mpr h) hpos)]
    · rw [compare_eq_iff_eq.mpr rfl, compare_eq_iff_eq.mpr rfl]
    · rw [compare_gt_iff_gt.mpr h, compare_gt_iff_gt.mpr (mul_lt_mul_of_pos_right (Nat.cast_lt.mpr h) hpos)]
  · rw [compare_gt_iff_gt.mpr h, compare_gt_iff_gt.mpr (magnitude_lt hv hu h)]
    rfl

/-- Comparing floating-point numbers is comparing their values. -/
theorem compare_eq_lt {u v : UnpackedFloat} {x y : Rat} (hu : Canonical u) (hv : Canonical v)
    (hx : value? u = some x) (hy : value? v = some y) : u.compare v = some .lt ↔ x < y := by
  cases u with
  | infinity s => cases hx
  | notANumber => cases hx
  | zero s =>
    obtain rfl := Option.some.inj hx
    cases v with
    | infinity t => cases hy
    | notANumber => cases hy
    | zero t =>
      obtain rfl := Option.some.inj hy
      simp [UnpackedFloat.compare]
    | finite t n f hn =>
      obtain rfl := Option.some.inj hy
      have hpos : (0 : Rat) < n * 2 ^ f := by positivity
      rw [apply_eq_signed, signed_mul]
      cases t with
      | negative => exact iff_of_false (by simp [UnpackedFloat.compare]) (by simp [signed, hpos.le])
      | positive => exact iff_of_true rfl hpos
  | finite s m e hm =>
    obtain rfl := Option.some.inj hx
    have hpos : (0 : Rat) < m * 2 ^ e := by positivity
    rw [apply_eq_signed, signed_mul]
    cases v with
    | infinity t => cases hy
    | notANumber => cases hy
    | zero t =>
      obtain rfl := Option.some.inj hy
      cases s with
      | negative => exact iff_of_true rfl (neg_lt_zero.mpr hpos)
      | positive => exact iff_of_false (by simp [UnpackedFloat.compare]) (by simp [signed, hpos.le])
    | finite t n f hn =>
      obtain rfl := Option.some.inj hy
      have hpos' : (0 : Rat) < n * 2 ^ f := by positivity
      have hcompare := compare_magnitude hu hv
      rw [apply_eq_signed, signed_mul]
      cases s with
      | negative =>
        cases t with
        | negative =>
          change some ((compare e f).then (compare m n)).swap = some .lt ↔ -_ < -_
          rw [hcompare, neg_lt_neg_iff, ← compare_gt_iff_gt, Option.some_inj]
          exact Ordering.swap_eq_lt
        | positive => exact iff_of_true rfl (by simp only [signed]; linarith)
      | positive =>
        cases t with
        | negative => exact iff_of_false (by simp [UnpackedFloat.compare]) (by simp only [signed]; linarith)
        | positive =>
          change some ((compare e f).then (compare m n)) = some .lt ↔ _ < _
          rw [hcompare, Option.some_inj, compare_lt_iff_lt]
          rfl

theorem ofMantissaAndAccuracy_shiftRight (m k : Nat) :
    ExtendedMantissa.ofMantissaAndAccuracy (m * 2 ^ k) .exact >>> k =
      ExtendedMantissa.ofMantissaAndAccuracy m .exact := by
  induction k generalizing m with
  | zero =>
    rw [Nat.pow_zero, Nat.mul_one]
    rfl
  | succ k ih =>
    change ExtendedMantissa.shiftRightOne
      (ExtendedMantissa.ofMantissaAndAccuracy (m * 2 ^ (k + 1)) .exact >>> k) = _
    rw [Nat.pow_succ, Nat.mul_comm (2 ^ k), ← Nat.mul_assoc, ih]
    simp [ExtendedMantissa.ofMantissaAndAccuracy, ExtendedMantissa.shiftRightOne]

/-- What can be represented is not changed by rounding: m at exponent e, seen from a smaller exponent. -/
theorem roundWithAccuracy_exact (s : Sign) {m : Nat} {e : Int} (hm : m < 2 ^ 53) (hlow : 2 ^ 52 ≤ m)
    (he : -1074 ≤ e) (he' : e ≤ 970) (k : Nat) :
    Canonical (roundWithAccuracy .binary64 s (m * 2 ^ k) (e - k) .exact) ∧
      value? (roundWithAccuracy .binary64 s (m * 2 ^ k) (e - k) .exact) =
        some ((s.apply m : Int) * (2 : Rat) ^ e) := by
  have hlog : (m * 2 ^ k).log2 = 52 + k := by
    apply (Nat.log2_eq_iff (by positivity)).mpr
    constructor
    · rw [Nat.pow_add]
      exact Nat.mul_le_mul_right _ hlow
    · have hsucc : 52 + k + 1 = 53 + k := by omega
      rw [hsucc, Nat.pow_add]
      exact Nat.mul_lt_mul_of_pos_right hm (by positivity)
  have htarget : target (m * 2 ^ k) (e - k) = e := by
    rw [target_eq, hlog]
    omega
  have hrounded : rounded (m * 2 ^ k) (e - k) .exact = m := by
    have hshift : (e - (e - k)).toNat = k := by omega
    rw [rounded, htarget, hshift, ofMantissaAndAccuracy_shiftRight]
    rfl
  have henough : 2 ^ 52 ≤ m * 2 ^ k := hlow.trans (Nat.le_mul_of_pos_right m (by positivity))
  have hspec := roundWithAccuracy_spec s (.inl henough) .exact (htarget ▸ he')
  rwa [hrounded, htarget] at hspec

theorem normalize_nat {n : Nat} (hpos : 0 < n) (hn : n < 2 ^ 53) :
    ∃ m e hm, UnpackedFloat.normalize .binary64 n 0 .positive = .finite .positive m e hm ∧
      (m < 2 ^ 53 ∧ 2 ^ 52 ≤ m) ∧ (-52 ≤ e ∧ e ≤ 0) ∧ (m : Rat) * 2 ^ e = n := by
  have hlog : n.log2 ≤ 52 := Nat.lt_succ_iff.mp ((Nat.log2_lt hpos.ne').mpr hn)
  obtain ⟨k, hk⟩ : ∃ k, n.log2 + k = 52 := ⟨52 - n.log2, by omega⟩
  have htarget : target n 0 = -k := by
    rw [target_eq]
    omega
  obtain ⟨m, hd, hvalue, hm⟩ := decreaseExponent_value (m := n) (e := 0) (t := -k) (by omega)
  have hshift : (0 - -(k : Int)).toNat = k := by omega
  rw [hshift] at hm
  have hlow : 2 ^ 52 ≤ m := by
    rw [hm, ← hk, Nat.pow_add]
    exact Nat.mul_le_mul_right _ (Nat.log2_self_le hpos.ne')
  have hlt : m < 2 ^ 53 := by
    have hsucc : 53 = n.log2 + 1 + k := by omega
    rw [hm, hsucc, Nat.pow_add]
    exact Nat.mul_lt_mul_of_pos_right Nat.lt_log2_self (by positivity)
  have hround : UnpackedFloat.normalize .binary64 n 0 .positive =
      roundWithAccuracy .binary64 .positive m (-k) .exact := by
    rw [UnpackedFloat.normalize, Int.compare_eq_gt.mpr (by omega)]
    change (let d := decreaseExponent n 0 (target n 0); roundWithAccuracy .binary64 .positive d.1 d.2 .exact) = _
    rw [htarget, hd]
  have htarget' : target m (-k) = -k := target_of_lt hlt (by omega) (.inl hlow)
  have hmpos : 0 < m := by omega
  refine ⟨m, -k, hmpos, ?_, ⟨hlt, hlow⟩, by omega, by simpa using hvalue⟩
  rw [hround, roundWithAccuracy_eq .positive (.inl hlow), rounded_exact htarget', htarget', if_pos hlt, make,
    dif_neg hmpos.ne']

theorem value?_toFloat {n : Nat} (hn : n < 2 ^ 53) : value? n.toUInt64.toFloat.toModel.unpack = some (n : Rat) ∧
    value? (n.toUInt64.toFloat * 1).toModel.unpack = some (n : Rat) := by
  have hnat : n.toUInt64.toNat = n := by
    rw [Nat.toUInt64_eq, UInt64.toNat_ofNat']
    omega
  have hone : (1 : Float).toModel.unpack = .finite .positive (2 ^ 52) (-52) (by decide) := rfl
  have hfloat : n.toUInt64.toFloat.toModel = Float.Model.pack (UnpackedFloat.normalize .binary64 n 0 .positive) := by
    change Float.Model.pack (UnpackedFloat.normalize .binary64 (n.toUInt64.toNat : Int) 0 .positive) = _
    rw [hnat]
  obtain rfl | hpos := n.eq_zero_or_pos
  · exact ⟨rfl, rfl⟩
  · obtain ⟨m, e, hm, hnormalize, hbits, he, hvalue⟩ := normalize_nat hpos hn
    have hcanonical : Canonical (.finite .positive m e hm) := ⟨⟨hbits.1, .inl hbits.2⟩, by omega, by omega⟩
    have hunpack : n.toUInt64.toFloat.toModel.unpack = .finite .positive m e hm := by
      rw [hfloat, hnormalize, unpack_pack_finite hcanonical]
    have hn' : value? (.finite .positive m e hm) = some (n : Rat) := by
      rw [← hvalue]
      rfl
    refine ⟨by rw [hunpack, hn'], ?_⟩
    change value? (Float.Model.pack (UnpackedFloat.mul .binary64 n.toUInt64.toFloat.toModel.unpack
      (1 : Float).toModel.unpack)).unpack = _
    have hlow : -1074 ≤ e := by omega
    have hhigh : e ≤ 970 := by omega
    obtain ⟨hproduct, hproductValue⟩ := roundWithAccuracy_exact .positive hbits.1 hbits.2 hlow hhigh 52
    rw [hunpack, hone]
    apply value?_pack hproduct
    rw [← hn']
    exact hproductValue

theorem value?_natCast {n : Nat} (hn : n < 2 ^ 53) : value? (Float.ofNat n).toModel.unpack = some (n : Rat) := by
  have hproduct : Float.ofNat n = n.toUInt64.toFloat * 1 := by
    change Float.ofScientific n false 0 = _
    rw [Float.ofScientific, dif_pos ⟨hn, by decide⟩]
    rfl
  rw [hproduct]
  exact (value?_toFloat hn).2

end FlowDiagram.Binary64
