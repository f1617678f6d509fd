import FlowDiagram.Decimal.Binary
import FlowDiagram.Proofs.Float.Rounding

namespace FlowDiagram

/-- The rational number that a bit pattern stands for, if it is finite. -/
def Decimal.Number.toRat? : Number → Option Rat
  | finite negative v => some (if negative then -(v.m * 2 ^ v.q) else v.m * 2 ^ v.q)
  | _ => none

/-- The floating-point number stands for a number. -/
def Decimal.Finite (x : Float) : Prop := ∃ negative v, Number.ofFloat x = .finite negative v

namespace Binary64

open Float.Model Float.Model.UnpackedFloat

theorem toNat_leading (m : BitVec 52) : (1#1 ++ m).toNat = 2 ^ 52 + m.toNat := by
  rw [BitVec.toNat_append, ← Nat.shiftLeft_add_eq_or_of_lt m.isLt]
  rfl

theorem unpack_fields {b : BitVec 64} {s : Sign} {e : BitVec 11} {m : BitVec 52}
    (hs : Sign.ofBitVec (@unpackSign .binary64 b) = s)
    (he : @unpackExponent .binary64 b = e) (hm : @unpackMantissa .binary64 b = m) :
    UnpackedFloat.unpack .binary64 b = if e.toNat = 2047 then
        if m.toNat = 0 then .infinity s else .notANumber
      else if e.toNat = 0 then make s m.toNat (-1074)
      else make s (2 ^ 52 + m.toNat) (e.toNat - 1075) := by
  have hones : e = -1#_ ↔ e.toNat = 2047 := BitVec.toNat_inj.symm
  have hzero : e = 0#_ ↔ e.toNat = 0 := BitVec.toNat_inj.symm
  have hmantissa : m = 0#_ ↔ m.toNat = 0 := BitVec.toNat_inj.symm
  rw [UnpackedFloat.unpack, hs]
  simp only [he, hm]
  by_cases h1 : e.toNat = 2047
  · rw [if_pos h1, if_pos (hones.mpr h1)]
    by_cases h2 : m.toNat = 0
    · rw [if_pos h2, if_pos (hmantissa.mpr h2)]
    · rw [if_neg h2, if_neg (mt hmantissa.mp h2)]
  · rw [if_neg h1, if_neg (mt hones.mp h1)]
    by_cases h2 : e.toNat = 0
    · rw [if_pos h2, if_pos (hzero.mpr h2), make]
      by_cases h3 : m.toNat = 0
      · rw [dif_pos (hmantissa.mpr h3), dif_pos h3]
      · rw [dif_neg (mt hmantissa.mp h3), dif_neg h3]
        congr 1
        rw [h2]
        rfl
    · rw [if_neg h2, if_neg (mt hzero.mp h2), make, dif_neg (by omega)]
      congr 1
      exact toNat_leading m

section Bits

variable (b : UInt64)

theorem toNat_unpackMantissa : (@unpackMantissa .binary64 b.toBitVec).toNat = b.toNat % 2 ^ 52 := by
  simp [unpackMantissa, BitVec.extractLsb]

theorem toNat_unpackExponent :
    (@unpackExponent .binary64 b.toBitVec).toNat = b.toNat / 2 ^ 52 % 2 ^ 11 := by
  simp [unpackExponent, BitVec.extractLsb, Nat.shiftRight_eq_div_pow]

theorem toNat_unpackSign : (@unpackSign .binary64 b.toBitVec).toNat = b.toNat / 2 ^ 63 % 2 := by
  simp [unpackSign, BitVec.extractLsb, Nat.shiftRight_eq_div_pow]

def signOf : Sign := if b.toNat / 2 ^ 63 = 1 then .negative else .positive

theorem ofBitVec_unpackSign : Sign.ofBitVec (@unpackSign .binary64 b.toBitVec) = signOf b := by
  have hlt := b.toNat_lt
  have hsign := toNat_unpackSign b
  rw [Sign.ofBitVec, signOf]
  by_cases h : @unpackSign .binary64 b.toBitVec = 0#1
  · have hzero : 0 = b.toNat / 2 ^ 63 % 2 := by rw [← hsign, h]; rfl
    rw [if_pos h, if_neg (by omega)]
  · have hne : (@unpackSign .binary64 b.toBitVec).toNat ≠ 0 := by
      intro hzero
      exact h (BitVec.eq_of_toNat_eq hzero)
    rw [if_neg h, if_pos (by omega)]

end Bits

theorem unpack_eq (x : Float.Model) : let n := x.toBits.toNat
    x.unpack = if n / 2 ^ 52 % 2 ^ 11 = 2047 then
        if n % 2 ^ 52 = 0 then .infinity (signOf x.toBits) else .notANumber
      else if n / 2 ^ 52 % 2 ^ 11 = 0 then make (signOf x.toBits) (n % 2 ^ 52) (-1074)
      else make (signOf x.toBits) (2 ^ 52 + n % 2 ^ 52) ((n / 2 ^ 52 % 2 ^ 11 : Nat) - 1075) := by
  intro n
  rw [Float.Model.unpack, unpack_fields (ofBitVec_unpackSign _) rfl rfl, toNat_unpackExponent,
    toNat_unpackMantissa]

/-- The bits stand for the same number either way. -/
theorem value?_unpack (x : Float.Model) : value? x.unpack = (Decimal.Number.ofBits x.toBits).toRat? := by
  have hsign (r : Rat) : signed (signOf x.toBits) r = if x.toBits.toNat / 2 ^ 63 = 1 then -r else r := by
    rw [signOf]
    split <;> rfl
  have hmake (m : Nat) (e : Int) : value? (make (signOf x.toBits) m e) =
      (Decimal.Number.finite (x.toBits.toNat / 2 ^ 63 = 1) ⟨m, e⟩).toRat? := by
    rw [value?_make, apply_eq_signed, signed_mul, hsign, Decimal.Number.toRat?]
    simp only [decide_eq_true_eq]
  rw [unpack_eq, Decimal.Number.ofBits]
  simp only [Nat.pow_eq]
  split
  · split <;> rfl
  · split <;> exact hmake ..

theorem canonical_unpack (x : Float.Model) : Canonical x.unpack := by
  have hmantissa : x.toBits.toNat % 2 ^ 52 < 2 ^ 52 := Nat.mod_lt _ (by decide)
  have hexponent : x.toBits.toNat / 2 ^ 52 % 2 ^ 11 < 2048 := Nat.mod_lt _ (by decide)
  rw [unpack_eq]
  split
  · split <;> trivial
  · split
    · exact canonical_make _ (by omega) (.inr rfl) (by decide) (by decide)
    · exact canonical_make _ (by omega) (.inl (by omega)) (by omega) (by omega)

theorem unpack_packComponents (s : Sign) {e m : Nat} (he : e < 2047) (hm : m < 2 ^ 52) :
    UnpackedFloat.unpack .binary64 (packComponents .binary64 s (BitVec.ofNat 11 e) (BitVec.ofNat 52 m)) =
      if e = 0 then make s m (-1074) else make s (2 ^ 52 + m) (e - 1075) := by
  have he' : (BitVec.ofNat 11 e).toNat = e := by
    rw [BitVec.toNat_ofNat]
    omega
  have hm' : (BitVec.ofNat 52 m).toNat = m := by
    rw [BitVec.toNat_ofNat]
    omega
  have hs : Sign.ofBitVec (unpackSign (packComponents .binary64 s (BitVec.ofNat 11 e) (BitVec.ofNat 52 m))) =
      s := by
    rw [unpackSign_packComponents, Sign.ofBitVec_toBitVec]
  rw [unpack_fields hs unpackExponent_packComponents unpackMantissa_packComponents, he', hm', if_neg (by omega)]

theorem unpack_pack_finite {s : Sign} {m : Nat} {e : Int} {hm : 0 < m} (h : Canonical (.finite s m e hm)) :
    (Float.Model.pack (.finite s m e hm)).unpack = .finite s m e hm := by
  obtain ⟨⟨hlt, hlow⟩, he, he'⟩ := h
  have hfinite : make s m e = .finite s m e hm := dif_neg hm.ne'
  have hrange : ¬ 2 ^ 11 ≤ (e + (1023 : Nat) + (52 : Nat)).toNat + 1 := by omega
  change UnpackedFloat.unpack .binary64 (UnpackedFloat.pack .binary64 (.finite s m e hm)) = _
  rw [UnpackedFloat.pack]
  change UnpackedFloat.unpack .binary64 (if 2 ^ 11 ≤ (e + (1023 : Nat) + (52 : Nat)).toNat + 1 then _ else
    if m.log2 + 1 = 53 then packComponents .binary64 s (BitVec.ofNat 11 (e + (1023 : Nat) + (52 : Nat)).toNat)
      (BitVec.ofNat 52 m) else packComponents .binary64 s (BitVec.ofNat 11 0) (BitVec.ofNat 52 m)) = _
  rw [if_neg hrange]
  by_cases hnormal : 2 ^ 52 ≤ m
  · have hlog : m.log2 = 52 := (Nat.log2_eq_iff hm.ne').mpr ⟨hnormal, hlt⟩
    have hbits : BitVec.ofNat 52 m = BitVec.ofNat 52 (m - 2 ^ 52) := by
      apply BitVec.eq_of_toNat_eq
      rw [BitVec.toNat_ofNat, BitVec.toNat_ofNat]
      omega
    have hmantissa : 2 ^ 52 + (m - 2 ^ 52) = m := by omega
    have hexponent : ((e + (1023 : Nat) + (52 : Nat)).toNat : Int) - 1075 = e := by omega
    rw [if_pos (by omega), hbits, unpack_packComponents s (by omega) (by omega), if_neg (by omega), hmantissa,
      hexponent, hfinite]
  · have hlog : m.log2 < 52 := (Nat.log2_lt hm.ne').mpr (by omega)
    rw [if_neg (by omega), unpack_packComponents s (by decide) (by omega), if_pos rfl, ← hfinite,
      hlow.resolve_left hnormal]

theorem value?_pack {u : UnpackedFloat} {z : Rat} (h : Canonical u) (hz : value? u = some z) :
    value? (Float.Model.pack u).unpack = some z := by
  cases u with
  | infinity s => cases hz
  | notANumber => cases hz
  | zero s =>
    rw [← hz]
    cases s <;> rfl
  | finite s m e hm => rw [unpack_pack_finite h, hz]

end Binary64

end FlowDiagram
