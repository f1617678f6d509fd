import FlowDiagram.Decimal.Binary
import FlowDiagram.Fault

namespace FlowDiagram.Svg

open Decimal

/-- The relative tolerance, one billionth, as a floating-point number. -/
def tolerance : Binary := ⟨4835703278458517, -82⟩

/-- The product with the 53 leading bits kept, a half to the even neighbour. -/
def roundedProduct (v w : Binary) : Binary :=
  let product := v.m * w.m
  let extra := product.log2 + 1 - 53
  ⟨nearest product (Nat.pow 2 extra), v.q + w.q + extra⟩

def distance (v : Binary) (n : Nat) : Binary :=
  ⟨((v.num : Int) - (n * v.den : Nat)).natAbs, min v.q 0⟩

/-- The value is the integer, or no further from it than the tolerance times the larger of the two,
as floating-point numbers give it. -/
def isClose (v : Binary) (n : Nat) : Bool :=
  (distance v n).m = 0 || (distance v n).le (roundedProduct tolerance ⟨n, 0⟩) ||
    (distance v n).le (roundedProduct tolerance v)

def decimals (n : Nat) : List Char :=
  if n = 0 then []
  else if n % 100 = 0 then '.' :: Nat.toDigits 10 (n / 100)
  else if n % 10 = 0 then ['.', Nat.digitChar (n / 100), Nat.digitChar (n / 10 % 10)]
  else ['.', Nat.digitChar (n / 100), Nat.digitChar (n / 10 % 10), Nat.digitChar (n % 10)]

def signed (negative : Bool) (cs : List Char) : List Char := if negative then '-' :: cs else cs

/-- Writes a number, given a test for being close to an integer. Zero has a sign only if it was
rounded to. -/
def writeWith (close : Binary → Nat → Bool) (negative : Bool) (v : Binary) : List Char :=
  let n := nearest v.num v.den
  if close v n then signed (negative && n ≠ 0) (Nat.toDigits 10 n)
  else
    let t := nearest (1000 * v.num) v.den
    signed negative (Nat.toDigits 10 (t / 1000) ++ decimals (t % 1000))

def coordinate (x : Float) : Except Fault String :=
  match Number.ofFloat x with
  | .finite negative v => .ok (String.ofList (writeWith isClose negative v))
  | .infinite _ => .error .infinite
  | .undefined => .error .notANumber

end FlowDiagram.Svg
