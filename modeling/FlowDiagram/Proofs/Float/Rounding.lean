import Mathlib

namespace FlowDiagram.Binary64

open Float.Model Float.Model.UnpackedFloat

/-- The number that an unpacked floating-point number stands for, if it is finite. -/
def value? : UnpackedFloat → Option Rat
  | .finite s m e _ => some (s.apply m * 2 ^ e)
  | .zero _ => some 0
  | _ => none

/-- Finite numbers use all 53 bits, unless they have the least exponent; and no exponent is too large. -/
def Canonical : UnpackedFloat → Prop
  | .finite _ m e _ => (m < 2 ^ 53 ∧ (2 ^ 52 ≤ m ∨ e = -1074)) ∧ -1074 ≤ e ∧ e ≤ 971
  | _ => True

def target (m : Nat) (e : Int) : Int := Format.binary64.targetExponent (totalExponent m e)

theorem target_eq (m : Nat) (e : Int) : target m e = max (m.log2 + e - 52) (-1074) := by
  simp only [target, Format.targetExponent, totalExponent, Format.mantissaBits, Format.minExponent]
  omega

theorem le_target {m : Nat} {e : Int} (h : 2 ^ 52 ≤ m ∨ e ≤ -1074) : e ≤ target m e := by
  rw [target_eq]
  obtain h | h := h
  · have hlog := (Nat.le_log2 (by omega)).mpr h
    omega
  · omega

theorem mantissa_shiftRight (em : ExtendedMantissa) (k : Nat) : (em >>> k).mantissa = em.mantissa / 2 ^ k := by
  induction k with
  | zero => simp [HShiftRight.hShiftRight, Nat.repeat]
  | succ k ih =>
    change (em >>> k).mantissa / 2 = _
    rw [ih, Nat.div_div_eq_div_mul, Nat.pow_succ]

theorem mantissa_ofMantissaAndAccuracy (m : Nat) (acc : Accuracy) :
    (ExtendedMantissa.ofMantissaAndAccuracy m acc).mantissa = m := by
  cases acc with
  | exact => rfl
  | inexact o => cases o <;> rfl

theorem roundedMantissa_cases (em : ExtendedMantissa) :
    em.roundedMantissa = em.mantissa ∨ em.roundedMantissa = em.mantissa + 1 := by
  obtain ⟨m, roundBit, stickyBit⟩ := em
  cases roundBit <;> cases stickyBit <;>
    simp [ExtendedMantissa.roundedMantissa, ExtendedMantissa.accuracy, Accuracy.roundToNearestEven]
  omega

/-- The mantissa for the target exponent, rounded. -/
def rounded (m : Nat) (e : Int) (acc : Accuracy) : Nat :=
  (ExtendedMantissa.ofMantissaAndAccuracy m acc >>> (target m e - e).toNat).roundedMantissa

theorem rounded_cases (m : Nat) (e : Int) (acc : Accuracy) :
    rounded m e acc = m / 2 ^ (target m e - e).toNat ∨
      rounded m e acc = m / 2 ^ (target m e - e).toNat + 1 := by
  have h := roundedMantissa_cases
    (ExtendedMantissa.ofMantissaAndAccuracy m acc >>> (target m e - e).toNat)
  rwa [mantissa_shiftRight, mantissa_ofMantissaAndAccuracy] at h

theorem rounded_exact {m : Nat} {e : Int} (h : target m e = e) : rounded m e .exact = m := by
  rw [rounded, h, Int.sub_self]
  rfl

theorem shiftToTargetExponent_eq {m : Nat} {e : Int} (h : e ≤ target m e) (acc : Accuracy) :
    shiftToTargetExponent .binary64 m e acc =
      (ExtendedMantissa.ofMantissaAndAccuracy m acc >>> (target m e - e).toNat, target m e) := by
  have he : e + (target m e - e).toNat = target m e := by omega
  change (_, e + ((target m e - e).toNat : Int)) = _
  rw [he]
  rfl

theorem div_lt {m : Nat} {e : Int} : m / 2 ^ (target m e - e).toNat < 2 ^ 53 := by
  rw [Nat.div_lt_iff_lt_mul (by positivity), ← Nat.pow_add]
  have hlog : m.log2 + 1 ≤ 53 + (target m e - e).toNat := by
    rw [target_eq]
    omega
  exact Nat.lt_log2_self.trans_le (Nat.pow_le_pow_right (by decide) hlog)

theorem rounded_le (m : Nat) (e : Int) (acc : Accuracy) : rounded m e acc ≤ 2 ^ 53 := by
  have hlt := div_lt (m := m) (e := e)
  obtain h | h := rounded_cases m e acc <;> omega

theorem le_rounded {m : Nat} {e : Int} (h : 2 ^ 52 ≤ m ∨ e ≤ -1074) (acc : Accuracy) :
    2 ^ 52 ≤ rounded m e acc ∨ target m e = -1074 := by
  obtain hmin | hmin := eq_or_ne (target m e) (-1074)
  · exact .inr hmin
  · have htarget := target_eq m e
    have hm : m ≠ 0 := by
      rintro rfl
      rw [Nat.log2_zero] at htarget
      omega
    have hle : 2 ^ 52 ≤ m / 2 ^ (target m e - e).toNat := by
      rw [Nat.le_div_iff_mul_le (by positivity), ← Nat.pow_add]
      have hlog : 52 + (target m e - e).toNat ≤ m.log2 := by
        have := le_target h
        omega
      exact (Nat.pow_le_pow_right (by decide) hlog).trans (Nat.log2_self_le hm)
    obtain h | h := rounded_cases m e acc <;> omega

theorem target_of_lt {m : Nat} {e : Int} (hm : m < 2 ^ 53) (he : -1074 ≤ e) (hlow : 2 ^ 52 ≤ m ∨ e = -1074) :
    target m e = e := by
  have htarget := target_eq m e
  have hlog : m.log2 ≤ 52 := by
    by_cases h : m = 0
    · simp [h]
    · exact Nat.lt_succ_iff.mp ((Nat.log2_lt h).mpr hm)
  obtain h | h := hlow
  · have := (Nat.le_log2 (by omega)).mpr h
    omega
  · omega

theorem target_carry {e : Int} (he : -1074 ≤ e) : target (2 ^ 53) e = e + 1 := by
  rw [target_eq, Nat.log2_two_pow]
  omega

theorem shiftToTargetExponent_of_lt {m : Nat} {e : Int} (hm : m < 2 ^ 53) (he : -1074 ≤ e)
    (hlow : 2 ^ 52 ≤ m ∨ e = -1074) : shiftToTargetExponent .binary64 m e .exact = (⟨m, false, false⟩, e) := by
  have htarget := target_of_lt hm he hlow
  rw [shiftToTargetExponent_eq htarget.ge, htarget, Int.sub_self]
  rfl

theorem shiftToTargetExponent_carry {e : Int} (he : -1074 ≤ e) :
    shiftToTargetExponent .binary64 (2 ^ 53) e .exact = (⟨2 ^ 52, false, false⟩, e + 1) := by
  have htarget := target_carry he
  have hshift : (target (2 ^ 53) e - e).toNat = 1 := by omega
  rw [shiftToTargetExponent_eq (by omega), hshift, htarget]
  rfl

def make (s : Sign) (m : Nat) (e : Int) : UnpackedFloat :=
  if h : m = 0 then .zero s else .finite s m e (Nat.pos_of_ne_zero h)

theorem value?_make (s : Sign) (m : Nat) (e : Int) :
    value? (make s m e) = some ((s.apply m : Int) * (2 : Rat) ^ e) := by
  rw [make]
  split
  · next h =>
    subst h
    cases s <;> simp [value?, Sign.apply]
  · rfl

theorem canonical_make (s : Sign) {m : Nat} {e : Int} (hm : m < 2 ^ 53) (hlow : 2 ^ 52 ≤ m ∨ e = -1074)
    (he : -1074 ≤ e) (he' : e ≤ 971) : Canonical (make s m e) := by
  rw [make]
  split
  · trivial
  · exact ⟨⟨hm, hlow⟩, he, he'⟩

theorem roundWithAccuracy_eq (s : Sign) {m : Nat} {e : Int} (h : 2 ^ 52 ≤ m ∨ e ≤ -1074) (acc : Accuracy) :
    roundWithAccuracy .binary64 s m e acc = if rounded m e acc < 2 ^ 53 then
      make s (rounded m e acc) (target m e) else make s (2 ^ 52) (target m e + 1) := by
  have hmin : -1074 ≤ target m e := by
    rw [target_eq]
    omega
  rw [roundWithAccuracy, shiftToTargetExponent_eq (le_target h)]
  change make s (shiftToTargetExponent .binary64 (rounded m e acc) (target m e) .exact).1.mantissa
    (shiftToTargetExponent .binary64 (rounded m e acc) (target m e) .exact).2 = _
  split
  · next hlt => rw [shiftToTargetExponent_of_lt hlt hmin (le_rounded h acc)]
  · next hge =>
    have hcarry : rounded m e acc = 2 ^ 53 := by
      have hle := rounded_le m e acc
      omega
    rw [hcarry, shiftToTargetExponent_carry hmin]

/-- A rounded number is canonical unless it is too large, and its value is the rounded mantissa at the target
exponent. -/
theorem roundWithAccuracy_spec (s : Sign) {m : Nat} {e : Int} (h : 2 ^ 52 ≤ m ∨ e ≤ -1074) (acc : Accuracy)
    (htarget : target m e ≤ 970) : Canonical (roundWithAccuracy .binary64 s m e acc) ∧
      value? (roundWithAccuracy .binary64 s m e acc) =
        some ((s.apply (rounded m e acc) : Int) * (2 : Rat) ^ target m e) := by
  have hmin : -1074 ≤ target m e := by
    rw [target_eq]
    omega
  rw [roundWithAccuracy_eq s h acc]
  split
  · next hlt => exact ⟨canonical_make s hlt (le_rounded h acc) hmin (by omega), value?_make ..⟩
  · next hge =>
    refine ⟨canonical_make s (by decide) (.inl le_rfl) (by omega) (by omega), ?_⟩
    have hcarry : rounded m e acc = 2 ^ 53 := by
      have hle := rounded_le m e acc
      omega
    rw [value?_make, hcarry, zpow_add_one₀ (by norm_num)]
    cases s
    all_goals
      simp only [Sign.apply]
      push_cast
      congr 1
      ring

/-- What is rounded lies between a mantissa and the next; the result is off by at most a unit of the target
exponent. -/
theorem rounded_near {m : Nat} {e : Int} (h : 2 ^ 52 ≤ m ∨ e ≤ -1074) (acc : Accuracy) {r : Rat}
    (hlow : m * 2 ^ e ≤ r) (hhigh : r ≤ (m + 1) * 2 ^ e) :
    |rounded m e acc * 2 ^ target m e - r| ≤ 2 ^ target m e := by
  have hcases := rounded_cases m e acc
  obtain ⟨k, hk⟩ : ∃ k : Nat, target m e = e + k := ⟨(target m e - e).toNat, by have := le_target h; omega⟩
  have hshift : (target m e - e).toNat = k := by omega
  rw [hshift] at hcases
  have hpos : (0 : Rat) < 2 ^ e := by positivity
  have hpow : (2 : Rat) ^ target m e = 2 ^ k * 2 ^ e := by
    rw [hk, zpow_add₀ (by norm_num), zpow_natCast, mul_comm]
  -- The real number lies between the same multiples of the larger unit as the mantissa does.
  obtain ⟨q, hq⟩ : ∃ q, m / 2 ^ k = q := ⟨_, rfl⟩
  rw [hq] at hcases
  have hfloor : ((q * 2 ^ k : Nat) : Rat) ≤ m := by exact_mod_cast hq ▸ Nat.div_mul_le_self m (2 ^ k)
  have hceil : ((m + 1 : Nat) : Rat) ≤ ((q + 1) * 2 ^ k : Nat) := by
    have hlt := Nat.lt_mul_div_succ m (show 0 < 2 ^ k by positivity)
    rw [hq, Nat.mul_comm] at hlt
    exact_mod_cast hlt
  push_cast at hfloor hceil
  have hbelow : q * 2 ^ target m e ≤ r := by
    rw [hpow, ← mul_assoc]
    exact (mul_le_mul_of_nonneg_right hfloor hpos.le).trans hlow
  have habove : r ≤ (q + 1) * 2 ^ target m e := by
    rw [hpow, ← mul_assoc]
    exact hhigh.trans (mul_le_mul_of_nonneg_right hceil hpos.le)
  rw [abs_le]
  obtain hround | hround := hcases <;> rw [hround]
  · constructor <;> linarith
  · push_cast
    constructor <;> linarith

theorem target_le {m : Nat} {e N : Int} (h : 2 ^ 52 ≤ m ∨ e ≤ -1074) (hN : -1022 ≤ N)
    (hm : (m : Rat) * 2 ^ e ≤ 2 ^ N) : target m e ≤ N - 52 := by
  rw [target_eq]
  by_cases hlarge : 2 ^ 52 ≤ m
  · have hlog : (2 : Rat) ^ (m.log2 : Int) ≤ m := by
      rw [zpow_natCast]
      exact_mod_cast Nat.log2_self_le (by omega)
    have hpow : (2 : Rat) ^ (m.log2 + e : Int) ≤ 2 ^ N := by
      rw [zpow_add₀ (by norm_num)]
      exact (mul_le_mul_of_nonneg_right hlog (by positivity)).trans hm
    have hle := (zpow_le_zpow_iff_right₀ (by norm_num)).mp hpow
    omega
  · have hlog : m.log2 ≤ 51 := by
      by_cases hzero : m = 0
      · simp [hzero]
      · exact Nat.lt_succ_iff.mp ((Nat.log2_lt hzero).mpr (by omega))
    omega

def signed (s : Sign) (r : Rat) : Rat :=
  match s with
  | .negative => -r
  | .positive => r

theorem apply_eq_signed (s : Sign) (n : Nat) : ((s.apply n : Int) : Rat) = signed s n := by
  cases s <;> simp [Sign.apply, signed]

theorem abs_signed (s : Sign) (r : Rat) : |signed s r| = |r| := by
  cases s
  · exact abs_neg r
  · rfl

theorem signed_sub (s : Sign) (x y : Rat) : signed s x - signed s y = signed s (x - y) := by
  cases s <;> simp only [signed]
  ring

theorem signed_mul (s : Sign) (x y : Rat) : signed s x * y = signed s (x * y) := by
  cases s <;> simp only [signed]
  ring

/-- The number is canonical, and finite; and its value is close to r. -/
def Near (u : UnpackedFloat) (r δ : Rat) : Prop := Canonical u ∧ ∃ z, value? u = some z ∧ |z - r| ≤ δ

theorem roundWithAccuracy_near (s : Sign) {m : Nat} {e : Int} (h : 2 ^ 52 ≤ m ∨ e ≤ -1074) (acc : Accuracy)
    {r : Rat} (hlow : m * 2 ^ e ≤ r) (hhigh : r ≤ (m + 1) * 2 ^ e) {N : Int} (hN : -1022 ≤ N ∧ N ≤ 1022)
    (hr : r ≤ 2 ^ N) : Near (roundWithAccuracy .binary64 s m e acc) (signed s r) (2 ^ (N - 52)) := by
  have htarget := target_le h hN.1 (hlow.trans hr)
  obtain ⟨hcanonical, hvalue⟩ := roundWithAccuracy_spec s h acc (by omega)
  refine ⟨hcanonical, _, hvalue, ?_⟩
  rw [apply_eq_signed, signed_mul, signed_sub, abs_signed]
  exact (rounded_near h acc hlow hhigh).trans (zpow_le_zpow_right₀ (by norm_num) htarget)

end FlowDiagram.Binary64
