namespace FlowDiagram.Decimal

/-- The value m * 2^q. -/
structure Binary where
  m : Nat
  q : Int
  deriving DecidableEq

namespace Binary

/-- The value is num / den. -/
def num (v : Binary) : Nat := v.m * Nat.pow 2 v.q.toNat

def den (v : Binary) : Nat := Nat.pow 2 (-v.q).toNat

theorem den_pos (v : Binary) : 0 < v.den := Nat.pow_pos (by decide)

def le (v w : Binary) : Bool := v.num * w.den ≤ w.num * v.den

end Binary

/-- The integer nearest to num / den; a half goes to the even neighbour. -/
def nearest (num den : Nat) : Nat :=
  let q := num / den
  let r := num % den
  if 2 * r < den then q
  else if den < 2 * r then q + 1
  else if q % 2 = 0 then q else q + 1

theorem nearest_near (num den : Nat) (h : 0 < den) :
    2 * (nearest num den * den) ≤ 2 * num + den ∧ 2 * num ≤ 2 * (nearest num den * den) + den := by
  have e : den * (num / den) + num % den = num := Nat.div_add_mod num den
  have l : num % den < den := Nat.mod_lt _ h
  have s : (num / den + 1) * den = den * (num / den) + den := by rw [Nat.add_mul, Nat.mul_comm]; simp
  have c : num / den * den = den * (num / den) := Nat.mul_comm ..
  simp only [nearest]
  split
  · omega
  · split
    · omega
    · split <;> omega

inductive Number where
  | finite (negative : Bool) (magnitude : Binary)
  | infinite (negative : Bool)
  | undefined
  deriving DecidableEq

/-- One bit of sign, eleven of exponent, fifty-two of fraction. -/
def Number.ofBits (bits : UInt64) : Number :=
  let n := bits.toNat
  let negative : Bool := n / Nat.pow 2 63 = 1
  let exponent : Nat := n / Nat.pow 2 52 % Nat.pow 2 11
  let fraction : Nat := n % Nat.pow 2 52
  if exponent = 2047 then if fraction = 0 then .infinite negative else .undefined
  else if exponent = 0 then .finite negative ⟨fraction, -1074⟩
  else .finite negative ⟨Nat.pow 2 52 + fraction, (exponent : Int) - 1075⟩

def Number.ofFloat (x : Float) : Number := .ofBits x.toBits

example : Number.ofFloat (-1.5) = .finite true ⟨3 * 2 ^ 51, -52⟩ := by decide +kernel

end FlowDiagram.Decimal
