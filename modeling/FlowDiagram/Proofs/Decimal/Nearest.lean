import FlowDiagram.Decimal.Binary
import Mathlib.Algebra.Order.Floor.Ring
import Mathlib.Data.Rat.Floor
import Mathlib.Order.Interval.Set.UnorderedInterval
import Mathlib.Tactic.Linarith
import Mathlib.Tactic.Ring

namespace FlowDiagram.Decimal

/-- The integer below or the next, by what is left above the first; of two that are equally near the even one. -/
def roundEven (r : Rat) : Int :=
  if Int.fract r < 1 / 2 then ⌊r⌋
  else if 1 / 2 < Int.fract r then ⌊r⌋ + 1
  else if ⌊r⌋ % 2 = 0 then ⌊r⌋ else ⌊r⌋ + 1

/-- The integer is less than a half away, or it is even and a half away. -/
def IsRounded (r : Rat) (n : Int) : Prop := |r - n| < 1 / 2 ∨ |r - n| = 1 / 2 ∧ n % 2 = 0

namespace IsRounded

variable {r s : Rat} {m n : Int}

theorem near (h : IsRounded r n) : |r - n| ≤ 1 / 2 := by
  obtain h | ⟨h, -⟩ := h
  · exact h.le
  · exact h.le

theorem even (h : IsRounded r n) (hhalf : 1 / 2 ≤ |r - n|) : n % 2 = 0 := by
  obtain h | ⟨-, h⟩ := h
  · exact absurd h hhalf.not_gt
  · exact h

/-- Rounded numbers can only be in the other order if both are half a unit off, to neighbours that are both even. -/
theorem mono (hm : IsRounded r m) (hn : IsRounded s n) (h : r ≤ s) : m ≤ n := by
  by_contra hlt
  have hstep : (n : Rat) + 1 ≤ m := by exact_mod_cast Int.add_one_le_of_lt (not_le.mp hlt)
  have hr := abs_le.mp hm.near
  have hs := abs_le.mp hn.near
  have hmeven : m % 2 = 0 := hm.even (by rw [le_abs]; right; linarith)
  have hneven : n % 2 = 0 := hn.even (by rw [le_abs]; left; linarith)
  have hnext : (m : Rat) ≤ n + 1 := by linarith
  have hnext' : m ≤ n + 1 := by exact_mod_cast hnext
  omega

theorem unique (hm : IsRounded r m) (hn : IsRounded r n) : m = n :=
  le_antisymm (hm.mono hn le_rfl) (hn.mono hm le_rfl)

theorem neg (h : IsRounded r n) : IsRounded (-r) (-n) := by
  have habs : |-r - (-n : Int)| = |r - n| := by
    rw [← abs_neg]
    push_cast
    ring_nf
  rw [IsRounded, habs, Int.neg_emod_two]
  exact h

end IsRounded

theorem isRounded_roundEven (r : Rat) : IsRounded r (roundEven r) := by
  have hpos := Int.fract_nonneg r
  have hlt := Int.fract_lt_one r
  have hbelow : |r - ⌊r⌋| = Int.fract r := abs_of_nonneg hpos
  have habove : |r - (⌊r⌋ + 1 : Int)| = 1 - Int.fract r := by
    rw [Int.cast_add, Int.cast_one, ← sub_sub, Int.self_sub_floor, abs_sub_comm, abs_of_pos (by linarith)]
  rw [roundEven]
  split_ifs with hlow hhigh heven
  · left
    rwa [hbelow]
  · left
    rw [habove]
    linarith
  · right
    exact ⟨by rw [hbelow]; linarith, heven⟩
  · right
    exact ⟨by rw [habove]; linarith, by omega⟩

example : roundEven (5 / 2) = 2 ∧ roundEven (-7 / 2) = -4 ∧ roundEven (-1 / 3) = 0 := by decide +kernel

theorem roundEven_eq {r : Rat} {n : Int} (h : IsRounded r n) : roundEven r = n :=
  (isRounded_roundEven r).unique h

theorem roundEven_mono {r s : Rat} (h : r ≤ s) : roundEven r ≤ roundEven s :=
  (isRounded_roundEven r).mono (isRounded_roundEven s) h

theorem roundEven_neg (r : Rat) : roundEven (-r) = -roundEven r :=
  roundEven_eq (isRounded_roundEven r).neg

theorem roundEven_intCast (n : Int) : roundEven n = n := by
  apply roundEven_eq
  left
  simp

theorem roundEven_between {r s : Rat} (h : s ∈ Set.uIcc r (roundEven r)) : roundEven s = roundEven r := by
  obtain ⟨hlow, hhigh⟩ | ⟨hlow, hhigh⟩ := Set.mem_uIcc.mp h
  · apply le_antisymm _ (roundEven_mono hlow)
    simpa [roundEven_intCast] using roundEven_mono hhigh
  · apply le_antisymm (roundEven_mono hhigh)
    simpa [roundEven_intCast] using roundEven_mono hlow

theorem abs_sub_roundEven_le (r : Rat) : |r - roundEven r| ≤ 1 / 2 := (isRounded_roundEven r).near

theorem roundEven_div (num : Nat) {den : Nat} (h : 0 < den) : roundEven (num / den) = nearest num den := by
  have hden : (0 : Rat) < den := by exact_mod_cast h
  have hfloor : ⌊(num : Rat) / den⌋ = (num / den : Nat) := Rat.floor_natCast_div_natCast num den
  have hbelow : ((num % den : Nat) : Rat) / den < 1 / 2 ↔ 2 * (num % den) < den := by
    rw [div_lt_div_iff₀ hden (by norm_num), one_mul, mul_comm]
    exact_mod_cast Iff.rfl
  have habove : 1 / 2 < ((num % den : Nat) : Rat) / den ↔ den < 2 * (num % den) := by
    rw [div_lt_div_iff₀ (by norm_num) hden, one_mul, mul_comm]
    exact_mod_cast Iff.rfl
  rw [roundEven, hfloor, Int.fract_div_natCast_eq_div_natCast_mod, nearest]
  simp only [hbelow, habove]
  split_ifs <;> omega

end FlowDiagram.Decimal
