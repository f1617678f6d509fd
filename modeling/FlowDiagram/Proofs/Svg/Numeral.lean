import FlowDiagram.Proofs.Decimal.Value
import FlowDiagram.Svg.Coordinate

namespace FlowDiagram.Svg

open Decimal

/-- The integer is a single zero or has no zero in front. Behind the point are one, two or three digits, the last of
them not a zero; or there is no point. -/
structure Numeral where
  negative : Bool
  whole : List Char
  decimals : List Char
  isDigit_whole : ∀ c ∈ whole, c.isDigit = true
  whole_ne_nil : whole ≠ []
  leading : whole = ['0'] ∨ whole.head? ≠ some '0'
  isDigit_decimals : ∀ c ∈ decimals, c.isDigit = true
  length_decimals : decimals.length ≤ 3
  trailing : decimals.getLast? ≠ some '0'

def pointed (ds : List Char) : List Char := if ds = [] then [] else '.' :: ds

namespace Numeral

def chars (n : Numeral) : List Char :=
  (if n.negative then ['-'] else []) ++ (n.whole ++ pointed n.decimals)

def text (n : Numeral) : String := String.ofList n.chars

def value (n : Numeral) : Rat :=
  withSign n.negative
    (Nat.ofDigitChars 10 n.whole 0 + Nat.ofDigitChars 10 n.decimals 0 / 10 ^ n.decimals.length)

theorem takeWhile_pointed (ds : List Char) : (pointed ds).takeWhile Char.isDigit = [] := by
  rw [pointed]
  split
  · rfl
  · exact List.takeWhile_cons_of_neg (by decide)

theorem takeWhile_unsigned (n : Numeral) : (n.whole ++ pointed n.decimals).takeWhile Char.isDigit = n.whole := by
  rw [List.takeWhile_append_of_pos n.isDigit_whole, takeWhile_pointed, List.append_nil]

theorem negative_iff (n : Numeral) : n.negative = true ↔ n.chars.head? = some '-' := by
  obtain ⟨c, cs, hwhole⟩ := List.exists_cons_of_ne_nil n.whole_ne_nil
  have hdigit : c.isDigit = true := n.isDigit_whole c (by simp [hwhole])
  cases hsign : n.negative with
  | true => simp [chars, hsign]
  | false =>
    have hne : c ≠ '-' := by
      rintro rfl
      exact absurd hdigit (by decide)
    simpa [chars, hsign, hwhole] using hne

theorem pointed_injective {ds es : List Char} (h : pointed ds = pointed es) : ds = es := by
  simp only [pointed] at h
  split_ifs at h with hds hes
  · rw [hds, hes]
  · exact List.tail_eq_of_cons_eq h

theorem text_injective {m n : Numeral} (h : m.text = n.text) : m = n := by
  have hchars : m.chars = n.chars := String.ofList_injective h
  have hnegative : m.negative = n.negative := by
    rw [Bool.eq_iff_iff, negative_iff, negative_iff, hchars]
  have hunsigned : m.whole ++ pointed m.decimals = n.whole ++ pointed n.decimals := by
    rw [chars, chars, hnegative] at hchars
    exact List.append_cancel_left hchars
  have hwhole : m.whole = n.whole := by
    rw [← takeWhile_unsigned m, ← takeWhile_unsigned n, hunsigned]
  have hdecimals : m.decimals = n.decimals := by
    rw [hwhole] at hunsigned
    exact pointed_injective (List.append_cancel_left hunsigned)
  cases m
  cases n
  simp_all

end Numeral

theorem head?_toDigits {n : Nat} (h : 0 < n) : (Nat.toDigits 10 n).head? ≠ some '0' := by
  induction n using Nat.strong_induction_on with
  | _ n ih =>
    rw [Nat.toDigits_eq_if (by decide)]
    split
    · simpa using h.ne'
    · rw [List.head?_append_of_ne_nil _ Nat.toDigits_ne_nil]
      exact ih (n / 10) (by omega) (by omega)

theorem leading_toDigits (n : Nat) : Nat.toDigits 10 n = ['0'] ∨ (Nat.toDigits 10 n).head? ≠ some '0' := by
  obtain rfl | h := n.eq_zero_or_pos
  · exact .inl (Nat.toDigits_zero 10)
  · exact .inr (head?_toDigits h)

/-- The digits are decimals for a number of thousandths. -/
structure IsFraction (ds : List Char) (n : Nat) : Prop where
  isDigit : ∀ c ∈ ds, c.isDigit = true
  length_le : ds.length ≤ 3
  trailing : ds.getLast? ≠ some '0'
  value : 1000 * Nat.ofDigitChars 10 ds 0 = n * 10 ^ ds.length

theorem ofDigitChars_digitChars {ks : List Nat} (hks : ∀ k ∈ ks, k < 10) (init : Nat) :
    Nat.ofDigitChars 10 (ks.map Nat.digitChar) init = ks.foldl (fun a k => 10 * a + k) init := by
  induction ks generalizing init with
  | nil => rfl
  | cons k ks ih =>
    obtain ⟨hk, hks⟩ := List.forall_mem_cons.mp hks
    rw [List.map_cons, Nat.ofDigitChars_cons_digitChar_of_lt_ten hk, ih hks, List.foldl_cons]

theorem isFraction_digitChars {ks : List Nat} {n : Nat} (hks : ∀ k ∈ ks, k < 10) (hlength : ks.length ≤ 3)
    (htrailing : ks.getLast? ≠ some 0) (hvalue : 1000 * ks.foldl (fun a k => 10 * a + k) 0 = n * 10 ^ ks.length) :
    IsFraction (ks.map Nat.digitChar) n where
  isDigit := by simpa using hks
  length_le := by simpa using hlength
  trailing := by simpa using htrailing
  value := by rw [ofDigitChars_digitChars hks, List.length_map, hvalue]

theorem exists_decimals {n : Nat} (h : n < 1000) : ∃ ds, decimals n = pointed ds ∧ IsFraction ds n := by
  have hfirst : n / 100 < 10 := by omega
  have hsecond : n / 10 % 10 < 10 := by omega
  have hthird : n % 10 < 10 := by omega
  rw [decimals]
  split_ifs with hnone hone htwo
  · refine ⟨[].map Nat.digitChar, rfl, isFraction_digitChars ?_ ?_ ?_ ?_⟩ <;> simp [hnone]
  · rw [Nat.toDigits_of_lt_base hfirst]
    refine ⟨[n / 100].map Nat.digitChar, rfl, isFraction_digitChars ?_ ?_ ?_ ?_⟩ <;> simp <;> omega
  · refine ⟨[n / 100, n / 10 % 10].map Nat.digitChar, rfl, isFraction_digitChars ?_ ?_ ?_ ?_⟩ <;> simp <;> omega
  · refine ⟨[n / 100, n / 10 % 10, n % 10].map Nat.digitChar, rfl, isFraction_digitChars ?_ ?_ ?_ ?_⟩ <;>
      simp <;> omega

theorem exists_numeral (negative : Bool) (t : Nat) : ∃ n : Numeral,
    n.chars = signed negative (Nat.toDigits 10 (t / 1000) ++ decimals (t % 1000)) ∧
      n.value = withSign negative (t / 1000) := by
  obtain ⟨ds, hds, hfraction⟩ := exists_decimals (Nat.mod_lt t (by decide : 0 < 1000))
  have hten : ∀ c ∈ Nat.toDigits 10 (t / 1000), c.isDigit = true :=
    fun _ hc => Nat.isDigit_of_mem_toDigits (by decide) (by decide) hc
  refine ⟨⟨negative, Nat.toDigits 10 (t / 1000), ds, hten, Nat.toDigits_ne_nil, leading_toDigits _,
    hfraction.isDigit, hfraction.length_le, hfraction.trailing⟩, ?_, ?_⟩
  · rw [hds, signed, Numeral.chars]
    split <;> rfl
  · have hdecimals : ((Nat.ofDigitChars 10 ds 0 : Nat) : Rat) / 10 ^ ds.length = (t % 1000 : Nat) / 1000 := by
      rw [div_eq_div_iff (by positivity) (by norm_num), mul_comm]
      exact_mod_cast hfraction.value
    have hsplit : (t : Rat) = 1000 * (t / 1000 : Nat) + (t % 1000 : Nat) := by
      exact_mod_cast (Nat.div_add_mod t 1000).symm
    rw [Numeral.value]
    dsimp only
    rw [hdecimals, Nat.ofDigitChars_ten_toDigits, hsplit]
    congr 1
    ring

theorem exists_numeral_natCast (negative : Bool) (k : Nat) : ∃ n : Numeral,
    n.chars = signed negative (Nat.toDigits 10 k) ∧ n.value = withSign negative k := by
  obtain ⟨n, hchars, hvalue⟩ := exists_numeral negative (k * 1000)
  refine ⟨n, ?_, ?_⟩
  · rw [hchars, Nat.mul_div_cancel k (by decide), Nat.mul_mod_left, decimals, if_pos rfl, List.append_nil]
  · rw [hvalue]
    push_cast
    rw [mul_div_cancel_right₀ _ (by norm_num)]

end FlowDiagram.Svg
