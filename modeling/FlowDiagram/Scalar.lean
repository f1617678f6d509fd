import FlowDiagram.Decimal.Binary
import FlowDiagram.Fault

namespace FlowDiagram

/-- Coordinates. The layout is written once, for any type with these operations: a program runs it on 64-bit
floating-point numbers, and on exact rationals the same formulas can be reasoned about. No laws are asked
for, since floating-point numbers have next to none. -/
class Scalar (α : Type) extends Add α, Sub α, Mul α, Div α, NatCast α where
  lt : α → α → Bool
  /-- Equality of values: something that is not a number differs from itself. -/
  eq : α → α → Bool
  ceil : α → Except Fault Int
  /-- Twice the result is the integer; none beyond the range of the type. -/
  half? : Int → Option α

namespace Scalar

variable {α : Type} [Scalar α]

/-- An integer as a coordinate. Doubling the integer first keeps one conversion for both. -/
def ofInt (n : Int) : Except Fault α :=
  match half? (2 * n) with
  | some x => .ok x
  | none => .error .integerTooLarge

def ofHalf (n : Int) : Except Fault α :=
  match half? n with
  | some x => .ok x
  | none => .error .quotientTooLarge

def le (a b : α) : Bool := lt a b || eq a b

def max (a b : α) : α := if lt a b then b else a

def least (a : α) (xs : List α) : α := xs.foldl (fun m x => if lt x m then x else m) a

def sum (xs : List α) : α := xs.foldl (· + ·) ((0 : Nat) : α)

def abs (a : α) : α := if lt a ((0 : Nat) : α) then ((0 : Nat) : α) - a else a

def half (n : Nat) : α := (n : α) / ((2 : Nat) : α)

end Scalar

/-- The least integer that is not below m * 2^q, or minus that value. -/
def Decimal.Binary.ceil (negative : Bool) (v : Decimal.Binary) : Int :=
  if negative then -((v.num / v.den : Nat) : Int) else ((v.num + (v.den - 1)) / v.den : Nat)

instance : Scalar Float where
  natCast := Float.ofNat
  lt a b := a < b
  eq a b := a == b
  ceil x :=
    match Decimal.Number.ofFloat x with
    | .finite negative v => .ok (v.ceil negative)
    | .infinite _ => .error .infinite
    | .undefined => .error .notANumber
  half? n :=
    let x := Float.ofScientific (5 * n.natAbs) true 1
    match Decimal.Number.ofFloat x with
    | .finite _ _ => some (if n < 0 then 0 - x else x)
    | _ => none

instance : Scalar Rat where
  lt a b := a < b
  eq a b := a == b
  ceil x := .ok x.ceil
  half? n := some ((n : Rat) / 2)

end FlowDiagram
