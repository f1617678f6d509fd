import FlowDiagram.Decimal.Shortest

namespace FlowDiagram.Decimal

/-- The decisions of a written form. Numbers whose leading digit stands for 10^-4 or more, and for less
than 10^positionalBelow, are written positionally; others get an exponent of two digits or more. -/
structure Form where
  positionalBelow : Int
  wholeTail : String

def zeros (n : Nat) : List Char := List.replicate n '0'

def exponentText (e : Int) : List Char :=
  let ds := Nat.toDigits 10 e.natAbs
  (if e < 0 then '-' else '+') :: (zeros (2 - ds.length) ++ ds)

def Form.layOut (form : Form) (d : Digits) : List Char :=
  let ds := Nat.toDigits 10 d.digits
  let point : Int := ds.length + d.exponent
  if -4 < point ∧ point ≤ form.positionalBelow then
    if 0 ≤ d.exponent then ds ++ zeros d.exponent.toNat ++ form.wholeTail.toList
    else if 0 < point then ds.take point.toNat ++ '.' :: ds.drop point.toNat
    else '0' :: '.' :: (zeros (-point).toNat ++ ds)
  else
    ds.take 1 ++ (if ds.length > 1 then '.' :: ds.drop 1 else []) ++ 'e' :: exponentText (point - 1)

/-- The sign of zero is written too. -/
def Form.render (form : Form) (choose : Binary → Digits) : Number → String
  | .undefined => "nan"
  | .infinite negative => if negative then "-inf" else "inf"
  | .finite negative v =>
    String.ofList ((if negative then ['-'] else []) ++ form.layOut (choose v))

/-- The fewest digits that read back; integers keep a point and a zero; positional below 10^16. -/
def text (x : Float) : String :=
  (Form.mk 16 ".0").render Binary.shortest (.ofFloat x)

/-- Six significant digits without trailing zeros; positional below 10^6. -/
def brief (x : Float) : String :=
  (Form.mk 6 "").render (·.significant 6) (.ofFloat x)

/-- The number nearest to the value rounded to so many decimal places, without a negative zero. -/
def roundTo (places : Nat) (x : Float) : Float :=
  match Number.ofFloat x with
  | .finite negative v =>
    let n := nearest (Nat.pow 10 places * v.num) v.den
    let r := Float.ofScientific n true places
    if negative && n ≠ 0 then 0 - r else r
  | _ => x

example : text 0.1 = "0.1" ∧ text (0.1 + 0.2) = "0.30000000000000004" ∧ text (-0.0) = "-0.0" ∧
    text 1e16 = "1e+16" ∧ text 1.5e-7 = "1.5e-07" ∧ text 175 = "175.0" ∧ text 5e-324 = "5e-324" := by
  decide +kernel

example : brief 1234567 = "1.23457e+06" ∧ brief 0.5 = "0.5" ∧ brief 190 = "190" := by decide +kernel

end FlowDiagram.Decimal
