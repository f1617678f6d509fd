import FlowDiagram.Decimal.Binary

namespace FlowDiagram.Decimal

/-- The value digits * 10^exponent. -/
structure Digits where
  digits : Nat
  exponent : Int
  deriving DecidableEq

def compareScaled (d : Nat) (e : Int) (v : Binary) : Ordering :=
  compare (d * Nat.pow 10 e.toNat * v.den) (v.num * Nat.pow 10 (-e).toNat)

namespace Binary

/-- The number below is half as far away as the number above: so it is at a power of two. -/
def narrowBelow (v : Binary) : Bool := v.m = Nat.pow 2 52 ∧ -1074 < v.q

/-- The halfway points to the two neighbours. -/
def lowerEnd (v : Binary) : Binary := ⟨if v.narrowBelow then 4 * v.m - 1 else 4 * v.m - 2, v.q - 2⟩

def upperEnd (v : Binary) : Binary := ⟨4 * v.m + 2, v.q - 2⟩

/-- The decimal lies between the two halfway points; these belong to the even number. -/
def readsBack (v : Binary) (d : Digits) : Bool :=
  let low := compareScaled d.digits d.exponent v.lowerEnd
  let high := compareScaled d.digits d.exponent v.upperEnd
  if v.m % 2 = 0 then low != .lt && high != .gt else low == .gt && high == .lt

/-- The least k with v < 10^k, for a positive v: the logarithm of v is known to within two. -/
def decimalPlace (v : Binary) : Int :=
  let guess := (((v.m.log2 : Int) + v.q) * 1233).fdiv 4096
  if compareScaled 1 guess v == .gt then guess
  else if compareScaled 1 (guess + 1) v == .gt then guess + 1
  else guess + 2

def gridNum (v : Binary) (e : Int) : Nat := v.num * Nat.pow 10 (-e).toNat

def gridDen (v : Binary) (e : Int) : Nat := v.den * Nat.pow 10 e.toNat

/-- The multiple of 10^e next to the value that reads back; of two the nearer, on a tie the even. -/
def onGrid? (v : Binary) (e : Int) : Option Digits :=
  let below : Digits := ⟨v.gridNum e / v.gridDen e, e⟩
  let above : Digits := ⟨below.digits + 1, e⟩
  match v.readsBack below, v.readsBack above with
  | true, true => some ⟨nearest (v.gridNum e) (v.gridDen e), e⟩
  | true, false => some below
  | false, true => some above
  | false, false => none

end Binary

def dropZeros : Nat → Digits → Digits
  | 0, d => d
  | n + 1, d =>
    if d.digits % 10 = 0 ∧ d.digits ≠ 0 then dropZeros n ⟨d.digits / 10, d.exponent + 1⟩ else d

/-- The value rounded to so many significant digits, a half to the even neighbour. -/
def Binary.significant (v : Binary) (count : Nat) : Digits :=
  if v.m = 0 then ⟨0, 0⟩
  else
    let e := v.decimalPlace - count
    dropZeros (count + 1) ⟨nearest (v.gridNum e) (v.gridDen e), e⟩

/-- The fewest digits that read back. Seventeen always do. -/
def Binary.shortest (v : Binary) : Digits :=
  if v.m = 0 then ⟨0, 0⟩
  else
    let place := v.decimalPlace
    match (List.range 17).findSome? fun n => v.onGrid? (place - (n + 1 : Nat)) with
    | some d => dropZeros 17 d
    | none => v.significant 17

end FlowDiagram.Decimal
