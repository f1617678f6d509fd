import FlowDiagram.Proofs.Float.Packing

namespace FlowDiagram.Binary64

open Float.Model Float.Model.UnpackedFloat

theorem decreaseExponent_value {m : Nat} {e t : Int} (h : t ≤ e) :
    ∃ m', decreaseExponent m e t = (m', t) ∧ (m' : Rat) * 2 ^ t = m * 2 ^ e ∧
      m' = m * 2 ^ (e - t).toNat := by
  obtain ⟨k, rfl⟩ : ∃ k : Nat, e = t + k := ⟨(e - t).toNat, by omega⟩
  have hk : (t + k - t).toNat = k := by omega
  have ht : t + k - (k : Int) = t := by omega
  refine ⟨m * 2 ^ k, ?_, ?_, by rw [hk]⟩
  · change (m <<< (t + k - t).toNat, t + k - ((t + k - t).toNat : Int)) = _
    rw [hk, ht, Nat.shiftLeft_eq]
  · rw [zpow_add₀ (by norm_num), zpow_natCast]
    push_cast
    ring

variable {N : Int} (hN : -1022 ≤ N ∧ N ≤ 1022)

theorem decreaseExponent_enough {m : Nat} {e : Int} (hm : 0 < m) :
    ∃ m' e', decreaseExponent m e (target m e) = (m', e') ∧ (2 ^ 52 ≤ m' ∨ e' ≤ -1074) ∧
      (m' : Rat) * 2 ^ e' = m * 2 ^ e := by
  have htarget := target_eq m e
  by_cases hle : target m e ≤ e
  · obtain ⟨m', hd, hvalue, hm'⟩ := decreaseExponent_value (m := m) hle
    refine ⟨m', target m e, hd, ?_, hvalue⟩
    by_cases hmin : target m e = -1074
    · exact .inr hmin.le
    · left
      have hlog : 52 ≤ m.log2 + (e - target m e).toNat := by omega
      calc 2 ^ 52 ≤ 2 ^ (m.log2 + (e - target m e).toNat) := Nat.pow_le_pow_right (by decide) hlog
        _ = 2 ^ m.log2 * 2 ^ (e - target m e).toNat := Nat.pow_add ..
        _ ≤ m * 2 ^ (e - target m e).toNat := Nat.mul_le_mul_right _ (Nat.log2_self_le hm.ne')
        _ = m' := hm'.symm
  · have hk : (e - target m e).toNat = 0 := by omega
    refine ⟨m, e, ?_, ?_, rfl⟩
    · change (m <<< (e - target m e).toNat, e - ((e - target m e).toNat : Int)) = _
      rw [hk]
      simp
    · by_cases hmin : target m e = -1074
      · exact .inr (by omega)
      · exact .inl ((Nat.le_log2 hm.ne').mp (by omega))

include hN in
theorem round_near (s : Sign) {m : Nat} {e : Int} (hm : 0 < m) (hr : (m : Rat) * 2 ^ e ≤ 2 ^ N) :
    Near (UnpackedFloat.round .binary64 s m e) (signed s (m * 2 ^ e)) (2 ^ (N - 52)) := by
  obtain ⟨m', e', hd, henough, hvalue⟩ := decreaseExponent_enough (e := e) hm
  have hround : UnpackedFloat.round .binary64 s m e = roundWithAccuracy .binary64 s m' e' .exact := by
    rw [UnpackedFloat.round]
    change (let d := decreaseExponent m e (target m e); roundWithAccuracy .binary64 s d.1 d.2 .exact) = _
    rw [hd]
  have hpos : (0 : Rat) < 2 ^ e' := by positivity
  rw [hround]
  rw [← hvalue] at hr ⊢
  exact roundWithAccuracy_near s henough .exact le_rfl (by linarith) hN hr

theorem near_zero (s : Sign) {δ : Rat} (hδ : 0 ≤ δ) : Near (.zero s) 0 δ := ⟨trivial, 0, rfl, by simpa⟩

include hN in
theorem normalize_near (n : Int) (e : Int) (s : Sign) (hr : |(n : Rat) * 2 ^ e| ≤ 2 ^ N) :
    Near (UnpackedFloat.normalize .binary64 n e s) (n * 2 ^ e) (2 ^ (N - 52)) := by
  have hpos : (0 : Rat) < 2 ^ e := by positivity
  rw [abs_mul, abs_of_pos hpos] at hr
  obtain hn | rfl | hn := Int.lt_trichotomy n 0
  · obtain ⟨k, rfl⟩ : ∃ k : Nat, n = -k := ⟨(-n).toNat, by omega⟩
    have hround : UnpackedFloat.normalize .binary64 (-k) e s = UnpackedFloat.round .binary64 .negative k e := by
      rw [UnpackedFloat.normalize, Int.compare_eq_lt.mpr hn]
      simp
    rw [Int.cast_neg, abs_neg, Int.cast_natCast, Nat.abs_cast] at hr
    rw [hround, Int.cast_neg, Int.cast_natCast, neg_mul]
    exact round_near hN .negative (by omega) hr
  · rw [Int.cast_zero, zero_mul]
    exact near_zero s (by positivity)
  · obtain ⟨k, rfl⟩ : ∃ k : Nat, n = k := ⟨n.toNat, by omega⟩
    have hround : UnpackedFloat.normalize .binary64 k e s = UnpackedFloat.round .binary64 .positive k e := by
      rw [UnpackedFloat.normalize, Int.compare_eq_gt.mpr hn]
      simp
    rw [Int.cast_natCast, Nat.abs_cast] at hr
    rw [hround, Int.cast_natCast]
    exact round_near hN .positive (by omega) hr

theorem near_self {u : UnpackedFloat} {z δ : Rat} (h : Canonical u) (hz : value? u = some z) (hδ : 0 ≤ δ) :
    Near u z δ := ⟨h, z, hz, by simpa⟩

theorem signed_decreaseExponent (s : Sign) {m : Nat} {e t : Int} (h : t ≤ e) :
    ((s.apply (decreaseExponent m e t).1 : Int) : Rat) * 2 ^ t = (s.apply m : Int) * 2 ^ e := by
  obtain ⟨m', hd, hvalue, -⟩ := decreaseExponent_value (m := m) h
  rw [hd, apply_eq_signed, apply_eq_signed, signed_mul, signed_mul, hvalue]

include hN in
theorem add_near {u v : UnpackedFloat} {x y : Rat} (hu : Canonical u) (hv : Canonical v) (hx : value? u = some x)
    (hy : value? v = some y) (hr : |x + y| ≤ 2 ^ N) :
    Near (UnpackedFloat.add .binary64 u v) (x + y) (2 ^ (N - 52)) := by
  have hδ : (0 : Rat) ≤ 2 ^ (N - 52) := by positivity
  cases u with
  | infinity s => cases hx
  | notANumber => cases hx
  | zero s =>
    obtain rfl := Option.some.inj hx
    cases v with
    | infinity t => cases hy
    | notANumber => cases hy
    | zero t =>
      obtain rfl := Option.some.inj hy
      rw [UnpackedFloat.add, zero_add]
      split <;> exact near_zero _ hδ
    | finite t n f hn =>
      rw [zero_add]
      exact near_self hv hy hδ
  | finite s m e hm =>
    cases v with
    | infinity t => cases hy
    | notANumber => cases hy
    | zero t =>
      obtain rfl := Option.some.inj hy
      rw [add_zero]
      exact near_self hu hx hδ
    | finite t n f hn =>
      obtain rfl := Option.some.inj hx
      obtain rfl := Option.some.inj hy
      have hsum := normalize_near hN (s.apply (decreaseExponent m e (min e f)).1 +
        t.apply (decreaseExponent n f (min e f)).1) (min e f) .positive
      rw [Int.cast_add, add_mul, signed_decreaseExponent s (min_le_left ..),
        signed_decreaseExponent t (min_le_right ..)] at hsum
      exact hsum hr

theorem apply_neg (s : Sign) (n : Int) : (-s).apply n = -s.apply n := by
  cases s
  · exact (neg_neg n).symm
  · rfl

theorem sub_eq_add (u v : UnpackedFloat) :
    UnpackedFloat.sub .binary64 u v = UnpackedFloat.add .binary64 u v.neg := by
  cases u <;> cases v <;> try rfl
  next s m e hm t n f hn =>
    change UnpackedFloat.normalize _ (_ - _) _ _ = UnpackedFloat.normalize _ (_ + _) _ _
    rw [apply_neg]
    rfl

theorem canonical_neg {u : UnpackedFloat} (h : Canonical u) : Canonical u.neg := by
  cases u <;> exact h

theorem value?_neg {u : UnpackedFloat} {x : Rat} (h : value? u = some x) : value? u.neg = some (-x) := by
  cases u with
  | infinity s => cases h
  | notANumber => cases h
  | zero s =>
    obtain rfl := Option.some.inj h
    rw [neg_zero]
    rfl
  | finite s m e hm =>
    obtain rfl := Option.some.inj h
    change some _ = _
    rw [apply_neg, Int.cast_neg, neg_mul]

include hN in
theorem sub_near {u v : UnpackedFloat} {x y : Rat} (hu : Canonical u) (hv : Canonical v) (hx : value? u = some x)
    (hy : value? v = some y) (hr : |x - y| ≤ 2 ^ N) :
    Near (UnpackedFloat.sub .binary64 u v) (x - y) (2 ^ (N - 52)) := by
  rw [sub_eq_add, sub_eq_add_neg]
  rw [sub_eq_add_neg] at hr
  exact add_near hN hu (canonical_neg hv) hx (value?_neg hy) hr

theorem signed_mul_signed (s t : Sign) (x y : Rat) : signed s x * signed t y = signed (s * t) (x * y) := by
  cases s <;> cases t
  · exact neg_mul_neg x y
  · exact neg_mul x y
  · exact mul_neg x y
  · rfl

include hN in
theorem mul_near {u v : UnpackedFloat} {x y : Rat} (hu : Canonical u) (hv : Canonical v) (hx : value? u = some x)
    (hy : value? v = some y) (hr : |x * y| ≤ 2 ^ N) :
    Near (UnpackedFloat.mul .binary64 u v) (x * y) (2 ^ (N - 52)) := by
  have hδ : (0 : Rat) ≤ 2 ^ (N - 52) := by positivity
  cases u with
  | infinity s => cases hx
  | notANumber => cases hx
  | zero s =>
    obtain rfl := Option.some.inj hx
    rw [zero_mul]
    cases v with
    | infinity t => cases hy
    | notANumber => cases hy
    | zero t => exact near_zero _ hδ
    | finite t n f hn => exact near_zero _ hδ
  | finite s m e hm =>
    cases v with
    | infinity t => cases hy
    | notANumber => cases hy
    | zero t =>
      obtain rfl := Option.some.inj hy
      rw [mul_zero]
      exact near_zero _ hδ
    | finite t n f hn =>
      obtain rfl := Option.some.inj hx
      obtain rfl := Option.some.inj hy
      obtain ⟨⟨-, hulow⟩, -, -⟩ := hu
      obtain ⟨⟨-, hvlow⟩, -, -⟩ := hv
      have henough : 2 ^ 52 ≤ m * n ∨ e + f ≤ -1074 := by
        obtain hm' | he := hulow
        · exact .inl (hm'.trans (Nat.le_mul_of_pos_right m hn))
        · obtain hn' | hf := hvlow
          · exact .inl (hn'.trans (Nat.le_mul_of_pos_left n hm))
          · exact .inr (by omega)
      have hvalue : ((m * n : Nat) : Rat) * 2 ^ (e + f) = m * 2 ^ e * (n * 2 ^ f) := by
        rw [zpow_add₀ (by norm_num)]
        push_cast
        ring
      have hpos : (0 : Rat) < 2 ^ (e + f) := by positivity
      rw [apply_eq_signed, apply_eq_signed, signed_mul s m, signed_mul t n, signed_mul_signed, ← hvalue] at hr ⊢
      rw [abs_signed] at hr
      exact roundWithAccuracy_near (s * t) henough .exact le_rfl (by linarith) hN ((le_abs_self _).trans hr)

/-- The quotient of two positive numbers has enough bits, and what is lost is less than a unit. -/
theorem divCore_spec {m n : Nat} (hm : 0 < m) (hn : 0 < n) (e f : Int) :
    ∃ q g acc, divCore .binary64 m e n f = (q, g, acc) ∧ (2 ^ 52 ≤ q ∨ g ≤ -1074) ∧
      (q : Rat) * 2 ^ g ≤ m * 2 ^ e / (n * 2 ^ f) ∧ m * 2 ^ e / (n * 2 ^ f) ≤ ((q : Rat) + 1) * 2 ^ g := by
  obtain ⟨g, hg⟩ : ∃ g, g = min (e - f)
    (Format.binary64.targetExponent (totalExponent m e - totalExponent n f)) := ⟨_, rfl⟩
  obtain ⟨k, hk⟩ : ∃ k : Nat, e - f - g = k := ⟨(e - f - g).toNat, by omega⟩
  have hshift : (e - f - g).toNat = k := by omega
  have htarget : Format.binary64.targetExponent (totalExponent m e - totalExponent n f) =
      max (m.log2 + e - (n.log2 + f) - 53) (-1074) := by
    simp only [Format.targetExponent, totalExponent, Format.mantissaBits, Format.minExponent]
    omega
  have hcore : divCore .binary64 m e n f = (m * 2 ^ k / n, g, accuracyOfFraction (m * 2 ^ k % n) n) := by
    rw [divCore, ← hg, hshift, Nat.shiftLeft_eq]
  refine ⟨_, _, _, hcore, ?_, ?_⟩
  · by_cases hmin : g ≤ -1074
    · exact .inr hmin
    · left
      rw [Nat.le_div_iff_mul_le hn]
      have hlog : 52 + (n.log2 + 1) ≤ m.log2 + k := by omega
      calc 2 ^ 52 * n ≤ 2 ^ 52 * 2 ^ (n.log2 + 1) := Nat.mul_le_mul_left _ Nat.lt_log2_self.le
        _ = 2 ^ (52 + (n.log2 + 1)) := (Nat.pow_add ..).symm
        _ ≤ 2 ^ (m.log2 + k) := Nat.pow_le_pow_right (by decide) hlog
        _ = 2 ^ m.log2 * 2 ^ k := Nat.pow_add ..
        _ ≤ m * 2 ^ k := Nat.mul_le_mul_right _ (Nat.log2_self_le hm.ne')
  · have hnpos : (0 : Rat) < n := by exact_mod_cast hn
    have hpos : (0 : Rat) < 2 ^ g := by positivity
    have hexact : (m : Rat) * 2 ^ e / (n * 2 ^ f) = ((m * 2 ^ k : Nat) : Rat) / n * 2 ^ g := by
      have he : e = g + k + f := by omega
      rw [he, zpow_add₀ (by norm_num), zpow_add₀ (by norm_num), zpow_natCast]
      have hf : (2 : Rat) ^ f ≠ 0 := by positivity
      push_cast
      rw [← mul_assoc, mul_div_mul_right _ _ hf]
      ring
    rw [hexact]
    refine ⟨mul_le_mul_of_nonneg_right Nat.cast_div_le hpos.le, mul_le_mul_of_nonneg_right ?_ hpos.le⟩
    rw [div_le_iff₀ hnpos]
    have hlt : m * 2 ^ k < (m * 2 ^ k / n + 1) * n := by
      rw [Nat.mul_comm _ n]
      exact Nat.lt_mul_div_succ _ hn
    exact_mod_cast hlt.le

theorem signed_div_signed (s t : Sign) (x y : Rat) : signed s x / signed t y = signed (s / t) (x / y) := by
  cases s <;> cases t
  · exact neg_div_neg_eq x y
  · exact neg_div y x
  · exact div_neg x
  · rfl

include hN in
theorem div_near {u v : UnpackedFloat} {x y : Rat} (hx : value? u = some x) (hy : value? v = some y) (hne : y ≠ 0)
    (hr : |x / y| ≤ 2 ^ N) : Near (UnpackedFloat.div .binary64 u v) (x / y) (2 ^ (N - 52)) := by
  have hδ : (0 : Rat) ≤ 2 ^ (N - 52) := by positivity
  cases v with
  | infinity t => cases hy
  | notANumber => cases hy
  | zero t => exact absurd (Option.some.inj hy).symm hne
  | finite t n f hn =>
    obtain rfl := Option.some.inj hy
    cases u with
    | infinity s => cases hx
    | notANumber => cases hx
    | zero s =>
      obtain rfl := Option.some.inj hx
      rw [zero_div]
      exact near_zero _ hδ
    | finite s m e hm =>
      obtain rfl := Option.some.inj hx
      obtain ⟨q, g, acc, hcore, henough, hlow, hhigh⟩ := divCore_spec hm hn e f
      have hdiv : UnpackedFloat.div .binary64 (.finite s m e hm) (.finite t n f hn) =
          roundWithAccuracy .binary64 (s / t) q g acc := by
        rw [UnpackedFloat.div, hcore]
      rw [apply_eq_signed, apply_eq_signed, signed_mul s m, signed_mul t n, signed_div_signed] at hr ⊢
      rw [abs_signed] at hr
      rw [hdiv]
      exact roundWithAccuracy_near (s / t) henough acc hlow hhigh hN ((le_abs_self _).trans hr)

end FlowDiagram.Binary64
