import FlowDiagram.Layout.Run
import FlowDiagram.Palette
import FlowDiagram.Raster.Font

namespace FlowDiagram.Raster

structure Style where
  scale : Int := 2
  fontSize : Int := 14
  labelFontSize : Int := 12
  actorFontSize : Int := 10
  fontPath : Option String := none
  background : String := "#FFFFFF"
  lineColor : String := "#000000"
  textColor : String := "#000000"
  actorColor : String := "#555555"
  errorColor : String := "#D32F2F"

/-- The functions of angles that an arrowhead needs. -/
structure Angles (α : Type) where
  /-- The direction in which a line rises by dy over dx. -/
  direction : (dy dx : α) → α
  cos : α → α
  sin : α → α
  /-- By how much the wings turn away from the direction of the line: four fifths of a half turn. -/
  spread : α

def Angles.ofFloat : Angles Float := ⟨Float.atan2, Float.cos, Float.sin, 3.141592653589793 * 0.8⟩

/-- What does not change while a drawing is made. -/
structure Kit (α : Type) where
  style : Style
  fonts : FontSystem
  angles : Angles α

def Kit.make {α : Type} (style : Style) (fonts : FontSystem) (angles : Angles α) :
    Except Fault (Kit α) :=
  if style.scale < 1 then .error .scale else .ok ⟨style, fonts, angles⟩

/-- Drawing steps hand on the fonts found so far. -/
abbrev Draw (β : Type) : Type := StateT FontCache (Except Fault) β

variable {α : Type} [Scalar α]

namespace Kit

variable (kit : Kit α)

omit [Scalar α] in
def font (size : Int) : Draw (Font × List (Call α)) := fun cache =>
  .ok (cache.get kit.fonts ⟨kit.style.fontPath, kit.style.scale⟩ size)

def lineWidth : Int := max 1 kit.style.scale

def scaled (x : α) : Except Fault α := return x * (← Scalar.ofInt kit.style.scale)

def scaledPoint (p : Point α) : Except Fault (Point α) := return ⟨← kit.scaled p.x, ← kit.scaled p.y⟩

/-- A text whose box has its middle at a place that is scaled already. -/
def centeredText (center : Point α) (text : String) (font : Font) (color : String) :
    Except Fault (Call α) := do
  let box := kit.fonts.measure font text
  let x := center.x - (← Scalar.ofHalf (box.right - box.left)) - (← Scalar.ofInt box.left)
  let y := center.y - (← Scalar.ofHalf (box.bottom - box.top)) - (← Scalar.ofInt box.top)
  return .text ⟨x, y⟩ text color font

/-- The end of an arrow: eight units back from its tip, on both sides of the line. -/
def arrowhead (a tip : Point α) : Except Fault (Call α) := do
  let size ← Scalar.ofInt (8 * kit.style.scale)
  let angle := kit.angles.direction (tip.y - a.y) (tip.x - a.x)
  let wing (turned : α) : Point α :=
    ⟨tip.x + size * kit.angles.cos turned, tip.y + size * kit.angles.sin turned⟩
  return .arrowhead tip (wing (angle + kit.angles.spread)) (wing (angle - kit.angles.spread))
    kit.style.lineColor

omit [Scalar α] in
def lines : List (Point α) → List (Call α)
  | a :: b :: rest => .line a b kit.style.lineColor kit.lineWidth :: lines (b :: rest)
  | _ => []

omit [Scalar α] in
def lastTwo? : List (Point α) → Option (Point α × Point α)
  | [a, b] => some (a, b)
  | _ :: rest => lastTwo? rest
  | [] => none

def edgeLabel (e : RoutedEdge α) : Draw (List (Call α)) :=
  match e.anchor with
  | none => return []
  | some p =>
    if e.label = "" then return []
    else do
      let center ← kit.scaledPoint p
      let (font, calls) ← kit.font kit.style.labelFontSize
      return calls ++ [← kit.centeredText center e.label font kit.style.textColor]

def edge (e : RoutedEdge α) : Draw (List (Call α)) := do
  let path ← e.path.mapM fun p => (kit.scaledPoint p : Except Fault (Point α))
  match lastTwo? path with
  | none => return []
  | some (a, tip) => return kit.lines path ++ [← kit.arrowhead a tip] ++ (← kit.edgeLabel e)

def shape (n : PlacedNode α) (box : Box α) (center : Point α) : Call α :=
  match n.kind.shape with
  | .circle => .ellipse box n.kind.fill n.kind.stroke kit.lineWidth
  | .diamond =>
    .polygon [⟨center.x, box.top⟩, ⟨box.right, center.y⟩, ⟨center.x, box.bottom⟩,
      ⟨box.left, center.y⟩] n.kind.fill n.kind.stroke kit.lineWidth
  | .rectangle => .roundedRectangle box (5 * kit.style.scale) n.kind.fill n.kind.stroke kit.lineWidth

def actor (n : PlacedNode α) (box : Box α) : Draw (List (Call α)) :=
  match n.shownActor? with
  | none => return []
  | some name => do
    let (font, calls) ← kit.font kit.style.actorFontSize
    let size := kit.fonts.measure font name
    let inset : α ← Scalar.ofInt (5 * kit.style.scale)
    let x := box.right - inset - (← Scalar.ofInt (size.right - size.left))
    let y := box.bottom - inset - (← Scalar.ofInt (size.bottom - size.top))
    return calls ++ [.text ⟨x, y⟩ name kit.style.actorColor font]

def node (n : PlacedNode α) : Draw (List (Call α)) := do
  let box : Box α := ⟨← kit.scaled n.left, ← kit.scaled n.top, ← kit.scaled n.right,
    ← kit.scaled n.bottom⟩
  let center ← kit.scaledPoint ⟨n.x, n.y⟩
  let (font, calls) ← kit.font kit.style.fontSize
  let label ← kit.centeredText center n.label font kit.style.textColor
  return kit.shape n box center :: calls ++ [label] ++ (← kit.actor n box)

def diagram (d : Diagram α) : Draw (List (Call α)) := do
  let width ← Scalar.ceil (← kit.scaled d.width)
  let height ← Scalar.ceil (← kit.scaled d.height)
  let edges ← d.edges.mapM kit.edge
  let nodes ← d.nodes.mapM kit.node
  return .newImage width height kit.style.background :: edges.flatten ++ nodes.flatten

def message (text : String) : Draw (List (Call α)) := do
  let (font, calls) ← kit.font kit.style.fontSize
  let place : Point α :=
    ⟨← Scalar.ofInt (10 * kit.style.scale), ← Scalar.ofInt (20 * kit.style.scale)⟩
  return .newImage (300 * kit.style.scale) (60 * kit.style.scale) kit.style.background ::
    calls ++ [.text place text kit.style.errorColor font]

def picture : Picture α → Draw (List (Call α))
  | .diagram d => kit.diagram d
  | .message text => kit.message text

def render (path : String) (p : Picture α) : Except Fault (List (Call α)) :=
  return (← (kit.picture p).run' .empty) ++ [.save path]

end Kit

end FlowDiagram.Raster
