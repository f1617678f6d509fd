import FlowDiagram.Decimal.Form
import FlowDiagram.Text.Quoted

namespace FlowDiagram

inductive Value (α : Type) where
  | null
  | bool (b : Bool)
  | int (n : Int)
  | real (x : α)
  | text (s : String)
  | list (vs : List (Value α))
  | tuple (vs : List (Value α))
  /-- Keys with their values, in the order of their arrival. -/
  | map (entries : List (String × Value α))
  deriving Inhabited

namespace Value

def joined (parts : List String) : String := ", ".intercalate parts

mutual

/-- The text of a value inside another: texts are quoted. -/
def inner : Value Float → String
  | null => "None"
  | bool b => if b then "True" else "False"
  | int n => toString n
  | real x => Decimal.text x
  | text s => Text.quoted s
  | list vs => "[" ++ joined (innerAll vs) ++ "]"
  | tuple [v] => "(" ++ inner v ++ ",)"
  | tuple vs => "(" ++ joined (innerAll vs) ++ ")"
  | map es => "\x7b" ++ joined (innerEntries es) ++ "\x7d"

def innerAll : List (Value Float) → List String
  | [] => []
  | v :: vs => inner v :: innerAll vs

def innerEntries : List (String × Value Float) → List String
  | [] => []
  | (k, v) :: es => (Text.quoted k ++ ": " ++ inner v) :: innerEntries es

end

/-- The text of a value that stands alone: a text is written as it is. -/
def outer : Value Float → String
  | text s => s
  | v => inner v

end Value

end FlowDiagram
