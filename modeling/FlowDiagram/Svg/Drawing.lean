import FlowDiagram.Layout.Run
import FlowDiagram.Palette
import FlowDiagram.Svg.Coordinate
import FlowDiagram.Svg.Element

namespace FlowDiagram.Svg

structure Style where
  fontFamily : String := "sans-serif"
  fontSize : Int := 14
  labelFontSize : Int := 12
  actorFontSize : Int := 10
  lineColor : String := "#000000"
  textColor : String := "#000000"
  actorColor : String := "#555555"
  errorColor : String := "#d32f2f"

/-- A part of an attribute value: a text, or a coordinate that is still to be written. -/
inductive Piece (α : Type) where
  | text (s : String)
  | number (x : α)

abbrev Value (α : Type) : Type := List (Piece α)

variable {α : Type} [Scalar α]

def plain (s : String) : Value α := [.text s]

def number (x : α) : Value α := [.number x]

def pair (between : String) (p : Point α) : Value α := [.number p.x, .text between, .number p.y]

def separated (between : String) : List (Value α) → Value α
  | [] => []
  | [v] => v
  | v :: vs => v ++ .text between :: separated between vs

def pathData : List (Point α) → Value α
  | [] => []
  | p :: ps => .text "M " :: pair " " p ++ ps.flatMap fun q => .text " L " :: pair " " q

def nameSpace : String := "http://www.w3.org/2000/svg"

def root (attrs : List (String × Value α)) (children : List (Element (Value α))) : Element (Value α) :=
  .node "svg" (("xmlns", plain nameSpace) :: attrs) "" children

def leaf (tag : String) (attrs : List (String × Value α)) : Element (Value α) := .node tag attrs "" []

def arrowMarker (style : Style) : Element (Value α) :=
  .node "defs" [] "" [.node "marker" [("id", plain "arrow"), ("viewBox", plain "0 0 10 10"),
    ("refX", plain "10"), ("refY", plain "5"), ("markerWidth", plain "8"),
    ("markerHeight", plain "8"), ("orient", plain "auto")] ""
    [leaf "path" [("d", plain "M 0 0 L 10 5 L 0 10 z"), ("fill", plain style.lineColor)]]]

def centered (p : Point α) (size : Int) (color text : String) : Element (Value α) :=
  .node "text" [("x", number p.x), ("y", number p.y), ("text-anchor", plain "middle"),
    ("dominant-baseline", plain "middle"), ("font-size", plain (toString size)),
    ("fill", plain color)] text []

def edgeLabel (style : Style) (e : RoutedEdge α) : List (Element (Value α)) :=
  match e.anchor with
  | none => []
  | some p => if e.label = "" then [] else [centered p style.labelFontSize style.textColor e.label]

def edge (style : Style) (e : RoutedEdge α) : List (Element (Value α)) :=
  if e.isRouted then
    leaf "path" [("d", pathData e.path), ("stroke", plain style.lineColor),
      ("stroke-width", plain "2"), ("fill", plain "none"), ("marker-end", plain "url(#arrow)")] ::
      edgeLabel style e
  else []

def paint (k : Kind) : List (String × Value α) :=
  [("fill", plain k.fill), ("stroke", plain k.stroke), ("stroke-width", plain "2")]

def shape (n : PlacedNode α) : Element (Value α) :=
  match n.kind.shape with
  | .circle =>
    leaf "circle" ([("cx", number n.x), ("cy", number n.y), ("r", number (Scalar.half n.kind.width))] ++
      paint n.kind)
  | .diamond =>
    leaf "polygon" (("points", separated " " ([⟨n.x, n.top⟩, ⟨n.right, n.y⟩, ⟨n.x, n.bottom⟩,
      ⟨n.left, n.y⟩].map (pair ","))) :: paint n.kind)
  | .rectangle =>
    leaf "rect" ([("x", number n.left), ("y", number n.top), ("width", number n.width),
      ("height", number n.height), ("rx", plain "5"), ("ry", plain "5")] ++ paint n.kind)

def actor (style : Style) (n : PlacedNode α) : List (Element (Value α)) :=
  match n.shownActor? with
  | none => []
  | some name =>
    [.node "text" [("x", number (n.right - ((5 : Nat) : α))),
      ("y", number (n.bottom - ((5 : Nat) : α))), ("text-anchor", plain "end"),
      ("font-size", plain (toString style.actorFontSize)), ("fill", plain style.actorColor),
      ("class", plain "bpmn-actor")] name []]

def node (style : Style) (n : PlacedNode α) : Element (Value α) :=
  .node "g" [("id", plain n.id), ("class", plain ("bpmn-" ++ n.kind.word))] ""
    (shape n :: centered ⟨n.x, n.y⟩ style.fontSize style.textColor n.label :: actor style n)

/-- Edges are drawn first, so that nodes cover the ends of the lines. -/
def diagram (style : Style) (d : Diagram α) : Element (Value α) :=
  root [("width", number d.width), ("height", number d.height),
      ("viewBox", [.text "0 0 ", .number d.width, .text " ", .number d.height]),
      ("font-family", plain style.fontFamily)]
    (arrowMarker style :: d.edges.flatMap (edge style) ++ d.nodes.map (node style))

def message (style : Style) (text : String) : Element (Value α) :=
  root [("width", plain "300"), ("height", plain "60"), ("font-family", plain style.fontFamily)]
    [.node "text" [("x", plain "10"), ("y", plain "35"), ("font-size", plain (toString style.fontSize)),
      ("fill", plain style.errorColor)] text []]

def picture (style : Style) : Picture α → Element (Value α)
  | .diagram d => diagram style d
  | .message text => message style text

omit [Scalar α] in
/-- Writes the coordinates of an attribute value, from left to right. -/
def writeValue (write : α → Except Fault String) : Value α → Except Fault String
  | [] => return ""
  | .text s :: ps => return s ++ (← writeValue write ps)
  | .number x :: ps => return (← write x) ++ (← writeValue write ps)

def tree (style : Style) (p : Picture Float) : Except Fault (Element String) :=
  (picture style p).mapAttrs (writeValue coordinate)

def render (style : Style) (p : Picture Float) : Except Fault String :=
  return String.ofList (← tree style p).write

end FlowDiagram.Svg
