import FlowDiagram.Decimal.Form
import FlowDiagram.Layout.Diagram

namespace FlowDiagram.Raster

structure Font where
  name : String
  size : Int
  deriving DecidableEq

structure Box (α : Type) where
  left : α
  top : α
  right : α
  bottom : α

inductive Call (α : Type) where
  | newImage (width height : Int) (color : String)
  | fileExists (path : String)
  | loadFont (name : String) (size : Int)
  /-- Without a size the default font comes in its own. -/
  | loadDefault (size : Option Int)
  | line (a b : Point α) (color : String) (width : Int)
  | ellipse (box : Box α) (fill stroke : String) (width : Int)
  | roundedRectangle (box : Box α) (radius : Int) (fill stroke : String) (width : Int)
  | polygon (corners : List (Point α)) (fill stroke : String) (width : Int)
  /-- A filled triangle: the point of an arrow, and its two wings. -/
  | arrowhead (tip left right : Point α) (color : String)
  | text (place : Point α) (text color : String) (font : Font)
  | save (path : String)

/-- The wings of arrowheads are given to six decimal places; beyond, angles differ from machine to
machine. -/
def Call.settled : Call Float → Call Float
  | arrowhead tip left right color =>
    let settle (p : Point Float) : Point Float := ⟨Decimal.roundTo 6 p.x, Decimal.roundTo 6 p.y⟩
    arrowhead (settle tip) (settle left) (settle right) color
  | call => call

end FlowDiagram.Raster
