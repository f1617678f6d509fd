import FlowDiagram.Proofs.Float.Exact
import FlowDiagram.Proofs.Scalar

namespace FlowDiagram.Binary64

open Float.Model Float.Model.UnpackedFloat

/-- The rational number that a floating-point number stands for, if it is finite. -/
def real? (x : Float) : Option Rat := (Decimal.Number.ofFloat x).toRat?

theorem real?_eq (x : Float) : real? x = value? x.toModel.unpack := (value?_unpack x.toModel).symm

@[irreducible]
def unit : Rat := 2 ^ (970 : Int)

theorem unit_pos : 0 < unit := by
  rw [unit]
  positivity

theorem unit_eq : unit = 2 ^ (1022 - 52 : Int) := by
  rw [unit]
  rfl

theorem capacity_eq : 2 ^ 52 * unit = 2 ^ (1022 : Int) := by
  rw [unit, ← zpow_natCast, ← zpow_add₀ (by norm_num)]
  rfl

/-- The number is finite, and so many units large. -/
def Amounts (x : Float) (a : Rat) : Prop := real? x = some (a * unit)

namespace Amounts

variable {x y : Float} {a b : Rat}

theorem unique (h : Amounts x a) (h' : Amounts x b) : a = b :=
  mul_right_cancel₀ unit_pos.ne' (Option.some.inj (h.symm.trans h'))

theorem finite (h : Amounts x a) : Decimal.Finite x := by
  rw [Amounts, real?] at h
  cases hx : Decimal.Number.ofFloat x with
  | finite negative v => exact ⟨negative, v, hx⟩
  | infinite negative =>
    rw [hx] at h
    cases h
  | undefined =>
    rw [hx] at h
    cases h

theorem of_near {u : UnpackedFloat} {r : Rat} (hx : x.toModel = Float.Model.pack u)
    (h : Near u (r * unit) (2 ^ (1022 - 52 : Int))) : ∃ a, Amounts x a ∧ |a - r| ≤ 1 := by
  obtain ⟨hcanonical, z, hz, herror⟩ := h
  have hvalue : z / unit * unit = z := div_mul_cancel₀ z unit_pos.ne'
  refine ⟨z / unit, ?_, ?_⟩
  · rw [Amounts, real?_eq, hx, hvalue]
    exact value?_pack hcanonical hz
  · rw [← unit_eq, ← hvalue, ← sub_mul, abs_mul, abs_of_pos unit_pos] at herror
    exact le_of_mul_le_mul_right (by rwa [one_mul]) unit_pos

theorem capacity {r : Rat} (h : |r| ≤ 2 ^ 52) : |r * unit| ≤ 2 ^ (1022 : Int) := by
  rw [abs_mul, abs_of_pos unit_pos, ← capacity_eq]
  exact mul_le_mul_of_nonneg_right h unit_pos.le

variable (hx : Amounts x a) (hy : Amounts y b)
include hx

section

include hy

theorem add (h : |a + b| ≤ 2 ^ 52) : ∃ c, Amounts (x + y) c ∧ |c - (a + b)| ≤ 1 := by
  rw [Amounts, real?_eq] at hx hy
  have hr := capacity h
  rw [add_mul] at hr
  have hnear := add_near (by decide) (canonical_unpack _) (canonical_unpack _) hx hy hr
  rw [← add_mul] at hnear
  exact of_near rfl hnear

theorem sub (h : |a - b| ≤ 2 ^ 52) : ∃ c, Amounts (x - y) c ∧ |c - (a - b)| ≤ 1 := by
  rw [Amounts, real?_eq] at hx hy
  have hr := capacity h
  rw [sub_mul] at hr
  have hnear := sub_near (by decide) (canonical_unpack _) (canonical_unpack _) hx hy hr
  rw [← sub_mul] at hnear
  exact of_near rfl hnear

theorem lt : Scalar.lt x y = true ↔ a < b := by
  rw [Amounts, real?_eq] at hx hy
  rw [Scalar.lt_float, compare_eq_lt (canonical_unpack _) (canonical_unpack _) hx hy]
  exact mul_lt_mul_iff_left₀ unit_pos

end

variable {n : Nat} (hn : n < 2 ^ 53)
include hn

theorem natCast_mul (h : |n * a| ≤ 2 ^ 52) : ∃ c, Amounts ((n : Float) * x) c ∧ |c - n * a| ≤ 1 := by
  rw [Amounts, real?_eq] at hx
  have hr := capacity h
  rw [mul_assoc] at hr
  have hnear := mul_near (by decide) (canonical_unpack _) (canonical_unpack _) (value?_natCast hn) hx hr
  rw [← mul_assoc] at hnear
  exact of_near rfl hnear

theorem div_natCast (hpos : 0 < n) (h : |a / n| ≤ 2 ^ 52) :
    ∃ c, Amounts (x / (n : Float)) c ∧ |c - a / n| ≤ 1 := by
  rw [Amounts, real?_eq] at hx
  have hne : (n : Rat) ≠ 0 := Nat.cast_ne_zero.mpr hpos.ne'
  have hr := capacity h
  rw [← mul_div_right_comm] at hr
  have hnear := div_near (by decide) hx (value?_natCast hn) hne hr
  rw [mul_div_right_comm] at hnear
  exact of_near rfl hnear

end Amounts

theorem ofScientific_tenths {n : Nat} {r : Rat} (hr : (n : Rat) / 10 = r * unit) (h : |r| ≤ 2 ^ 52) :
    ∃ a, Amounts (Float.ofScientific n true 1) a ∧ |a - r| ≤ 1 := by
  have hcapacity := Amounts.capacity h
  rw [← hr] at hcapacity
  by_cases hn : n < 2 ^ 53
  · have hfast : Float.ofScientific n true 1 = n.toUInt64.toFloat / 10 := by
      rw [Float.ofScientific, dif_pos ⟨hn, by decide⟩]
      rfl
    have hten : value? (10 : Float).toModel.unpack = some 10 := by decide +kernel
    have hnear := div_near (by decide) (value?_toFloat hn).1 hten (by norm_num) hcapacity
    rw [hr] at hnear
    rw [hfast]
    exact Amounts.of_near rfl hnear
  · have hslow : Float.ofScientific n true 1 =
        .ofModel (.pack (UnpackedFloat.ofScientific .binary64 n (-1))) := by
      rw [Float.ofScientific, dif_neg (fun h => hn h.1)]
      rfl
    have hpos : 0 < n := by omega
    have hquotient : UnpackedFloat.ofScientific .binary64 n (-1) = UnpackedFloat.div .binary64
        (.finite .positive n 0 hpos) (.finite .positive 10 0 (by decide)) := by
      have hlow : ¬ (-1 : Int) < -(2 ^ Format.binary64.exponentBits + n.log2) := by
        have hbits : (2 : Int) ^ Format.binary64.exponentBits = 2048 := rfl
        omega
      rw [UnpackedFloat.ofScientific, dif_neg hpos.ne', if_neg (by decide), if_neg hlow, if_neg (by decide)]
      rfl
    have hvalue : value? (.finite .positive n 0 hpos) = some (n : Rat) := by
      simp [value?, Sign.apply]
    have hten : value? (.finite .positive 10 0 (by decide)) = some 10 := by
      simp [value?, Sign.apply]
    have hnear := div_near (by decide) hvalue hten (by norm_num) hcapacity
    rw [hr, ← hquotient] at hnear
    rw [hslow]
    exact Amounts.of_near rfl hnear

theorem amounts_natCast {n : Nat} (hn : n < 2 ^ 53) : ∃ a, Amounts (n : Float) a ∧ |a| ≤ 1 := by
  refine ⟨n / unit, ?_, ?_⟩
  · rw [Amounts, real?_eq, div_mul_cancel₀ _ unit_pos.ne']
    exact value?_natCast hn
  · have hle : (n : Rat) ≤ unit := by
      have hcast : (n : Rat) ≤ 2 ^ 53 := by exact_mod_cast hn.le
      have hunit : (2 : Rat) ^ (53 : Int) ≤ unit := by
        rw [unit]
        exact zpow_le_zpow_right₀ (by norm_num) (by norm_num)
      exact hcast.trans (by exact_mod_cast hunit)
    rw [abs_of_nonneg (div_nonneg (Nat.cast_nonneg n) unit_pos.le)]
    exact (div_le_one unit_pos).mpr hle

theorem ofNat_zero : Amounts ((0 : Nat) : Float) 0 := by
  rw [Amounts, real?_eq, zero_mul]
  exact value?_natCast (by decide)

theorem half?_amounts {n : Int} {r : Rat} (hr : (n : Rat) / 2 = r * unit) (h : |r| ≤ 2 ^ 51) :
    ∃ x a, (Scalar.half? n : Option Float) = some x ∧ Amounts x a ∧ |a - r| ≤ 2 := by
  have htenths : ((5 * n.natAbs : Nat) : Rat) / 10 = |r| * unit := by
    rw [← abs_of_pos unit_pos, ← abs_mul, ← hr, abs_div, abs_two]
    push_cast [Nat.cast_natAbs]
    ring
  obtain ⟨a, ha, herror⟩ := ofScientific_tenths htenths (by rw [abs_abs]; linarith)
  obtain ⟨negative, v, hfinite⟩ := ha.finite
  have hhalf : (Scalar.half? n : Option Float) = some (if n < 0 then 0 - Float.ofScientific (5 * n.natAbs) true 1
      else Float.ofScientific (5 * n.natAbs) true 1) := by
    simp only [Scalar.half?, hfinite]
  have herror' := abs_le.mp herror
  by_cases hn : n < 0
  · have hneg : r < 0 := by
      have hn' : (n : Rat) < 0 := Int.cast_lt_zero.mpr hn
      by_contra hr'
      have hmul := mul_nonneg (not_lt.mp hr') unit_pos.le
      linarith
    rw [abs_of_neg hneg] at herror' h
    obtain ⟨c, hc, hminus⟩ := ofNat_zero.sub ha (by rw [abs_le]; constructor <;> linarith)
    have hminus' := abs_le.mp hminus
    rw [if_pos hn] at hhalf
    exact ⟨_, c, hhalf, hc, by rw [abs_le]; constructor <;> linarith⟩
  · have hpos : 0 ≤ r := by
      have hn' : (0 : Rat) ≤ n := by exact_mod_cast not_lt.mp hn
      by_contra hr'
      have hmul := mul_neg_of_neg_of_pos (not_le.mp hr') unit_pos
      linarith
    rw [abs_of_nonneg hpos] at herror'
    rw [if_neg hn] at hhalf
    exact ⟨_, a, hhalf, ha, by rw [abs_le]; constructor <;> linarith⟩

/-- The number is finite, and at most so many units large. -/
def Within (k : Nat) (x : Float) : Prop := ∃ a, Amounts x a ∧ |a| ≤ k

namespace Within

variable {j k n : Nat} {x y : Float}

theorem mono (h : Within j x) (hjk : j ≤ k) : Within k x := by
  obtain ⟨a, ha, hle⟩ := h
  exact ⟨a, ha, hle.trans (Nat.cast_le.mpr hjk)⟩

theorem natCast (hn : n < 2 ^ 53) : Within 1 (n : Float) := by
  obtain ⟨a, ha, hle⟩ := amounts_natCast hn
  exact ⟨a, ha, by simpa using hle⟩

theorem of_amounts {a r : Rat} (hx : Amounts x a) (herror : |a - r| ≤ 1) (hr : |r| ≤ k) : Within (k + 1) x := by
  refine ⟨a, hx, ?_⟩
  have htriangle := abs_sub_abs_le_abs_sub a r
  push_cast
  linarith

section

variable (hx : Within j x) (hy : Within k y) (h : j + k ≤ 2 ^ 52)
include hx hy h

theorem add : Within (j + k + 1) (x + y) := by
  obtain ⟨a, ha, hj⟩ := hx
  obtain ⟨b, hb, hk⟩ := hy
  have hab : |a + b| ≤ (j + k : Nat) := by
    push_cast
    exact (abs_add_le a b).trans (add_le_add hj hk)
  obtain ⟨c, hc, herror⟩ := ha.add hb (hab.trans (by exact_mod_cast h))
  exact of_amounts hc herror hab

theorem sub : Within (j + k + 1) (x - y) := by
  obtain ⟨a, ha, hj⟩ := hx
  obtain ⟨b, hb, hk⟩ := hy
  have hab : |a - b| ≤ (j + k : Nat) := by
    push_cast
    exact (abs_sub a b).trans (add_le_add hj hk)
  obtain ⟨c, hc, herror⟩ := ha.sub hb (hab.trans (by exact_mod_cast h))
  exact of_amounts hc herror hab

end

theorem natCast_mul (hx : Within k x) (hn : n < 2 ^ 53) (h : n * k ≤ 2 ^ 52) :
    Within (n * k + 1) ((n : Float) * x) := by
  obtain ⟨a, ha, hk⟩ := hx
  have hna : |n * a| ≤ (n * k : Nat) := by
    rw [abs_mul, Nat.abs_cast]
    push_cast
    exact mul_le_mul_of_nonneg_left hk (Nat.cast_nonneg n)
  obtain ⟨c, hc, herror⟩ := ha.natCast_mul hn (hna.trans (by exact_mod_cast h))
  exact of_amounts hc herror hna

theorem div_natCast (hx : Within (n * k) x) (hpos : 0 < n) (hn : n < 2 ^ 53) (hk : k ≤ 2 ^ 52) :
    Within (k + 1) (x / (n : Float)) := by
  obtain ⟨a, ha, hle⟩ := hx
  have hn' : (0 : Rat) < n := Nat.cast_pos.mpr hpos
  have hdiv : |a / n| ≤ k := by
    rw [abs_div, Nat.abs_cast, div_le_iff₀ hn', mul_comm]
    exact_mod_cast hle
  obtain ⟨c, hc, herror⟩ := ha.div_natCast hn hpos (hdiv.trans (by exact_mod_cast hk))
  exact of_amounts hc herror hdiv

theorem half (hn : n < 2 ^ 53) : Within 2 (Scalar.half n : Float) :=
  ((natCast hn).mono (by decide)).div_natCast (k := 1) (n := 2) (by decide) (by decide) (by decide)

theorem max (hx : Within k x) (hy : Within k y) : Within k (Scalar.max x y) := by
  rw [Scalar.max]
  split
  · exact hy
  · exact hx

theorem least (hx : Within k x) {xs : List Float} (h : ∀ y ∈ xs, Within k y) : Within k (Scalar.least x xs) := by
  induction xs generalizing x with
  | nil => exact hx
  | cons y xs ih =>
    rw [Scalar.least, List.foldl_cons]
    refine ih ?_ fun z hz => h z (List.mem_cons_of_mem _ hz)
    split
    · exact h y (List.mem_cons_self ..)
    · exact hx

theorem foldl_max (hx : Within k x) {xs : List Float} (h : ∀ y ∈ xs, Within k y) :
    Within k (xs.foldl Scalar.max x) := by
  induction xs generalizing x with
  | nil => exact hx
  | cons y xs ih => exact ih (hx.max (h y (List.mem_cons_self ..))) fun z hz => h z (List.mem_cons_of_mem _ hz)

theorem zero : Within 0 ((0 : Nat) : Float) := ⟨0, ofNat_zero, by simp⟩

theorem foldl_add {xs : List Float} (hx : Within j x) (h : ∀ y ∈ xs, Within k y)
    (hle : j + xs.length * (k + 1) ≤ 2 ^ 52) : Within (j + xs.length * (k + 1)) (xs.foldl (· + ·) x) := by
  induction xs generalizing x j with
  | nil => simpa using hx
  | cons y xs ih =>
    rw [List.length_cons, Nat.succ_mul] at hle ⊢
    have hsum : j + (xs.length * (k + 1) + (k + 1)) = (j + k + 1) + xs.length * (k + 1) := by omega
    rw [hsum] at hle ⊢
    have hxy := hx.add (h y (List.mem_cons_self ..)) (by omega)
    exact ih hxy (fun z hz => h z (List.mem_cons_of_mem _ hz)) hle

theorem sum {xs : List Float} (h : ∀ y ∈ xs, Within k y) (hle : xs.length * (k + 1) ≤ 2 ^ 52) :
    Within (xs.length * (k + 1)) (Scalar.sum xs) := by
  have hsum := zero.foldl_add h (by rwa [Nat.zero_add])
  rwa [Nat.zero_add] at hsum

end Within

end FlowDiagram.Binary64
