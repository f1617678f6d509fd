import FlowDiagram.Proofs.Svg.Closeness
import FlowDiagram.Proofs.Svg.Numeral

namespace FlowDiagram.Svg

open Decimal Binary64

/-- The text of a number, given a test for being close to an integer. -/
def coordinateWith (close : Binary → Nat → Bool) (x : Float) : Except Fault String :=
  match Number.ofFloat x with
  | .finite negative v => .ok (String.ofList (writeWith close negative v))
  | .infinite _ => .error .infinite
  | .undefined => .error .notANumber

theorem coordinate_eq : coordinate = coordinateWith isClose := rfl

/-- The number rounded to three decimals. -/
def thousandths (r : Rat) : Rat := roundEven (1000 * r) / 1000

theorem thousandths_mono {r s : Rat} (h : r ≤ s) : thousandths r ≤ thousandths s := by
  have hround : (roundEven (1000 * r) : Rat) ≤ roundEven (1000 * s) := by
    exact_mod_cast roundEven_mono (by linarith)
  exact div_le_div_of_nonneg_right hround (by norm_num)

theorem thousandths_natCast (n : Nat) : thousandths n = n := by
  have hround : roundEven (1000 * n) = 1000 * n := by exact_mod_cast roundEven_intCast (1000 * n)
  rw [thousandths, hround]
  push_cast
  ring

theorem abs_thousandths_sub_le (r : Rat) : |thousandths r - r| ≤ 1 / 2000 := by
  have hnear := abs_le.mp (abs_sub_roundEven_le (1000 * r))
  rw [thousandths, abs_le]
  constructor <;> linarith

variable {close : Binary → Nat → Bool} {v w : Binary}

/-- The number that is written for a magnitude. -/
def settled (close : Binary → Nat → Bool) (v : Binary) : Rat :=
  if close v (nearest v.num v.den) then (nearest v.num v.den : Rat) else thousandths v.toRat

theorem nearest_eq (v : Binary) : (nearest v.num v.den : Rat) = roundEven v.toRat := by
  rw [Binary.roundEven_toRat, Int.cast_natCast]

theorem abs_roundEven_withSign (negative : Bool) (v : Binary) :
    |(roundEven (withSign negative v.toRat) : Rat)| = nearest v.num v.den := by
  rw [roundEven_withSign, abs_withSign, ← nearest_eq, Nat.abs_cast]

theorem thousandths_eq (v : Binary) : thousandths v.toRat = nearest (1000 * v.num) v.den / 1000 := by
  have hscale : 1000 * v.toRat = (1000 * v.num : Nat) / v.den := by
    rw [Binary.toRat_eq_div]
    push_cast
    ring
  rw [thousandths, hscale, roundEven_div _ v.den_pos, Int.cast_natCast]

theorem settled_of_eq_zero (h : v.toRat = 0) : settled close v = 0 := by
  have hround : roundEven 0 = 0 := by exact_mod_cast roundEven_intCast 0
  have hzero : thousandths 0 = 0 := by exact_mod_cast thousandths_natCast 0
  simp [settled, nearest_eq, h, hround, hzero]

theorem settled_nonneg (v : Binary) : 0 ≤ settled close v := by
  rw [settled]
  split
  · positivity
  · rw [thousandths_eq]
    positivity

/-- Zero has no sign where it is an integer, and a sign may stand before it where it was rounded to. -/
theorem exists_written (close : Binary → Nat → Bool) (negative : Bool) (v : Binary) : ∃ n : Numeral,
    n.chars = writeWith close negative v ∧ n.value = withSign negative (settled close v) := by
  obtain ⟨k, hk⟩ : ∃ k, nearest v.num v.den = k := ⟨_, rfl⟩
  rw [writeWith, settled, hk]
  dsimp only
  split
  · obtain ⟨n, hchars, hvalue⟩ := exists_numeral_natCast (negative && k ≠ 0) k
    refine ⟨n, hchars, hvalue.trans ?_⟩
    obtain rfl | hpos := k.eq_zero_or_pos
    · cases negative <;> simp
    · simp [hpos.ne']
  · rw [thousandths_eq]
    exact exists_numeral negative _

theorem exists_coordinateWith (close : Binary → Nat → Bool) {x : Float} {negative : Bool}
    (hx : Number.ofFloat x = .finite negative v) : ∃ n : Numeral,
      coordinateWith close x = .ok n.text ∧ n.value = withSign negative (settled close v) := by
  obtain ⟨n, hchars, hvalue⟩ := exists_written close negative v
  refine ⟨n, ?_, hvalue⟩
  rw [coordinateWith, hx, Numeral.text, hchars]

theorem settled_near (v : Binary) : |settled isClose v - v.toRat| ≤
    max (1 / 2000) (101 / 10 ^ 11 * max v.toRat (nearest v.num v.den)) := by
  rw [settled]
  split
  · next hclose =>
    have hpos : 0 ≤ max v.toRat (nearest v.num v.den) := v.toRat_nonneg.trans (le_max_left ..)
    have hbound := le_of_isClose hclose
    rw [toRat_tolerance] at hbound
    rw [abs_sub_comm]
    apply le_max_of_le_right
    linarith
  · exact le_max_of_le_left (abs_thousandths_sub_le _)

/-- Every finite number is written as one numeral. It is off by half a thousandth at most, or, where the number is
taken for an integer, by little more than a billionth of the larger of the two. -/
theorem coordinate_accurate {x : Float} {r : Rat} (hx : real? x = some r) : ∃ n : Numeral,
    (∀ m : Numeral, coordinate x = .ok m.text ↔ m = n) ∧
      |n.value - r| ≤ max (1 / 2000) (101 / 10 ^ 11 * max |r| |(roundEven r : Rat)|) := by
  obtain ⟨negative, v, hfloat, -, rfl⟩ := exists_magnitude hx
  obtain ⟨n, htext, hvalue⟩ := exists_coordinateWith isClose hfloat
  refine ⟨n, ?_, ?_⟩
  · intro m
    rw [coordinate_eq, htext, Except.ok.injEq]
    exact ⟨fun h => (Numeral.text_injective h).symm, fun h => h ▸ rfl⟩
  · rw [hvalue, withSign_sub, abs_withSign, abs_withSign, abs_roundEven_withSign, abs_of_nonneg v.toRat_nonneg]
    exact settled_near v

/-- Halfway between two integers, and yet close enough to both to be taken for the even one. -/
theorem coordinate_accurate_halfway : real? 500000000.5 = some (1000000001 / 2) ∧ ∃ n : Numeral,
    (∀ m : Numeral, coordinate 500000000.5 = .ok m.text ↔ m = n) ∧ |n.value - 1000000001 / 2| ≤
      max (1 / 2000) (101 / 10 ^ 11 * max |1000000001 / 2| |(roundEven (1000000001 / 2) : Rat)|) :=
  have hx : real? 500000000.5 = some (1000000001 / 2) := by decide +kernel
  ⟨hx, coordinate_accurate hx⟩

theorem Narrowing.settles (hclose : Narrowing close) (hv : IsMagnitude v) (hw : IsMagnitude w)
    (hbetween : w.toRat ∈ Set.uIcc v.toRat (nearest v.num v.den)) (h : close v (nearest v.num v.den) = true) :
    close w (nearest w.num w.den) = true := by
  have hsame : nearest w.num w.den = nearest v.num v.den := by
    rw [nearest_eq] at hbetween
    have hround := roundEven_between hbetween
    rw [Binary.roundEven_toRat, Binary.roundEven_toRat] at hround
    exact_mod_cast hround
  rw [hsame]
  exact hclose hv hw hbetween h

/-- If only one of the two magnitudes is close to its integer, then the integer does not lie beyond the other. -/
theorem settled_mono (hclose : Narrowing close) (hv : IsMagnitude v) (hw : IsMagnitude w)
    (h : v.toRat ≤ w.toRat) : settled close v ≤ settled close w := by
  rw [settled, settled]
  split_ifs with hcv hcw hcw
  · rw [nearest_eq, nearest_eq]
    exact_mod_cast roundEven_mono h
  · rw [← thousandths_natCast]
    apply thousandths_mono
    by_contra hlt
    -- Below the integer that v is close to, w is close to that integer as well.
    exact hcw (hclose.settles hv hw (Set.mem_uIcc.mpr (.inl ⟨h, (not_le.mp hlt).le⟩)) hcv)
  · rw [← thousandths_natCast (nearest w.num w.den)]
    apply thousandths_mono
    by_contra hlt
    exact hcv (hclose.settles hw hv (Set.mem_uIcc.mpr (.inr ⟨(not_le.mp hlt).le, h⟩)) hcw)
  · exact thousandths_mono h

theorem withSign_settled_mono (hclose : Narrowing close) (hv : IsMagnitude v) (hw : IsMagnitude w) {b c : Bool}
    (h : withSign b v.toRat ≤ withSign c w.toRat) : withSign b (settled close v) ≤ withSign c (settled close w) := by
  have hvpos := v.toRat_nonneg
  have hwpos := w.toRat_nonneg
  have hvwritten : 0 ≤ settled close v := settled_nonneg v
  have hwwritten : 0 ≤ settled close w := settled_nonneg w
  cases b with
  | false =>
    cases c with
    | false => exact settled_mono hclose hv hw h
    | true =>
      -- A number without a sign is not below one with a sign unless both are zero.
      rw [withSign_false, withSign_true] at h
      have hvzero : v.toRat = 0 := by linarith
      have hwzero : w.toRat = 0 := by linarith
      simp [settled_of_eq_zero hvzero, settled_of_eq_zero hwzero]
  | true =>
    cases c with
    | false =>
      rw [withSign_false, withSign_true]
      linarith
    | true => exact neg_le_neg (settled_mono hclose hw hv (neg_le_neg_iff.mp h))

theorem withSign_settled_nonneg {b : Bool} (h : 0 ≤ withSign b v.toRat) : 0 ≤ withSign b (settled close v) := by
  cases b with
  | false => exact settled_nonneg v
  | true =>
    have hzero : v.toRat = 0 := le_antisymm (neg_nonneg.mp h) v.toRat_nonneg
    simp [settled_of_eq_zero hzero]

variable {x y : Float} {r s : Rat}

theorem Narrowing.ordered (hclose : Narrowing close) (hx : real? x = some r) (hy : real? y = some s) (h : r ≤ s) :
    ∃ m n : Numeral, coordinateWith close x = .ok m.text ∧ coordinateWith close y = .ok n.text ∧
      m.value ≤ n.value ∧ (0 ≤ r → 0 ≤ m.value) := by
  obtain ⟨b, v, hvfloat, hv, rfl⟩ := exists_magnitude hx
  obtain ⟨c, w, hwfloat, hw, rfl⟩ := exists_magnitude hy
  obtain ⟨m, hm, hmvalue⟩ := exists_coordinateWith close hvfloat
  obtain ⟨n, hn, hnvalue⟩ := exists_coordinateWith close hwfloat
  refine ⟨m, n, hm, hn, ?_, ?_⟩
  · rw [hmvalue, hnvalue]
    exact withSign_settled_mono hclose hv hw h
  · rw [hmvalue]
    exact withSign_settled_nonneg

/-- Numbers in a drawing are written in their order, and none that is not negative is written as negative: with the
exact test for being close to an integer, and with the rounded one as well. -/
theorem coordinates_ordered (hx : real? x = some r) (hy : real? y = some s) (h : r ≤ s) :
    ∀ write ∈ [coordinateWith within, coordinate], ∃ m n : Numeral, write x = .ok m.text ∧ write y = .ok n.text ∧
      m.value ≤ n.value ∧ (0 ≤ r → 0 ≤ m.value) := by
  intro write hwrite
  obtain rfl | rfl : write = coordinateWith within ∨ write = coordinate := by simpa using hwrite
  · exact narrowing_within.ordered hx hy h
  · rw [coordinate_eq]
    exact narrowing_isClose.ordered hx hy h

/-- The first of the two is written with its thousandths, the second is close enough to the integer above both. -/
theorem coordinates_ordered_window : real? 1048575.99853515625 = some (1048576 - 3 / 2048) ∧
    real? 1048575.9990234375 = some (1048576 - 1 / 1024) ∧ (1048576 - 3 / 2048 : Rat) ≤ 1048576 - 1 / 1024 ∧
    ∀ write ∈ [coordinateWith within, coordinate], ∃ m n : Numeral,
      write 1048575.99853515625 = .ok m.text ∧ write 1048575.9990234375 = .ok n.text ∧
        m.value ≤ n.value ∧ ((0 : Rat) ≤ 1048576 - 3 / 2048 → 0 ≤ m.value) :=
  have hx : real? 1048575.99853515625 = some (1048576 - 3 / 2048) := by decide +kernel
  have hy : real? 1048575.9990234375 = some (1048576 - 1 / 1024) := by decide +kernel
  have h : (1048576 - 3 / 2048 : Rat) ≤ 1048576 - 1 / 1024 := by norm_num
  ⟨hx, hy, h, coordinates_ordered hx hy h⟩

end FlowDiagram.Svg
