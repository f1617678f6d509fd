import FlowDiagram.Raster.Drawing
import FlowDiagram.Svg.Drawing

namespace FlowDiagram

/-- The shape of a node, by its measures. -/
inductive Figure (α : Type) where
  | circle (center : Point α) (radius : α)
  | diamond (top right bottom left : Point α)
  | rectangle (corner : Point α) (width height : α)

/-- Something to draw: the line of an edge, with an arrow at its last point; the label of an edge, around its
center; a node, with its shape and the box around it, its label, and its actor if one is shown. -/
inductive Item (α : Type) where
  | line (path : List (Point α))
  | caption (center : Point α) (text : String)
  | node (id : String) (kind : Kind) (figure : Figure α) (box : Raster.Box α) (center : Point α)
      (label : String) (actor : Option String)

variable {α : Type} [Scalar α]

def PlacedNode.figure (n : PlacedNode α) : Figure α :=
  match n.kind.shape with
  | .circle => .circle ⟨n.x, n.y⟩ (Scalar.half n.kind.width)
  | .diamond => .diamond ⟨n.x, n.top⟩ ⟨n.right, n.y⟩ ⟨n.x, n.bottom⟩ ⟨n.left, n.y⟩
  | .rectangle => .rectangle ⟨n.left, n.top⟩ n.width n.height

def PlacedNode.box (n : PlacedNode α) : Raster.Box α := ⟨n.left, n.top, n.right, n.bottom⟩

def PlacedNode.item (n : PlacedNode α) : Item α :=
  .node n.id n.kind n.figure n.box ⟨n.x, n.y⟩ n.label n.shownActor?

def RoutedEdge.captions {α : Type} (e : RoutedEdge α) : List (Item α) :=
  match e.anchor with
  | none => []
  | some p => if e.label = "" then [] else [.caption p e.label]

def RoutedEdge.items {α : Type} (e : RoutedEdge α) : List (Item α) :=
  if e.isRouted then .line e.path :: e.captions else []

def Diagram.items (d : Diagram α) : List (Item α) :=
  d.edges.flatMap RoutedEdge.items ++ d.nodes.map PlacedNode.item

def Point.scale (k : α) (p : Point α) : Point α := ⟨p.x * k, p.y * k⟩

def Raster.Box.scale (k : α) (b : Raster.Box α) : Raster.Box α :=
  ⟨b.left * k, b.top * k, b.right * k, b.bottom * k⟩

def Figure.scale (k : α) : Figure α → Figure α
  | circle center radius => .circle (center.scale k) (radius * k)
  | diamond top right bottom left =>
    .diamond (top.scale k) (right.scale k) (bottom.scale k) (left.scale k)
  | rectangle corner width height => .rectangle (corner.scale k) (width * k) (height * k)

def Item.scale (k : α) : Item α → Item α
  | line path => .line (path.map (Point.scale k))
  | caption center text => .caption (center.scale k) text
  | node id kind figure box center label actor =>
    .node id kind (figure.scale k) (box.scale k) (center.scale k) label actor

namespace Svg

def figureImage (kind : Kind) : Figure α → Element (Value α)
  | .circle center radius =>
    leaf "circle" ([("cx", number center.x), ("cy", number center.y), ("r", number radius)] ++ paint kind)
  | .diamond top right bottom left =>
    leaf "polygon" (("points", separated " " ([top, right, bottom, left].map (pair ","))) :: paint kind)
  | .rectangle corner width height =>
    leaf "rect" ([("x", number corner.x), ("y", number corner.y), ("width", number width),
      ("height", number height), ("rx", plain "5"), ("ry", plain "5")] ++ paint kind)

/-- A text that ends five units left of and above the lower right corner of a box. -/
def cornered (style : Style) (box : Raster.Box α) (text : String) : Element (Value α) :=
  .node "text" [("x", number (box.right - ((5 : Nat) : α))), ("y", number (box.bottom - ((5 : Nat) : α))),
    ("text-anchor", plain "end"), ("font-size", plain (toString style.actorFontSize)),
    ("fill", plain style.actorColor), ("class", plain "bpmn-actor")] text []

/-- One element for each item: a line is one path through all its points, with the arrow as its end mark. -/
def image (style : Style) : Item α → Element (Value α)
  | .line path =>
    leaf "path" [("d", pathData path), ("stroke", plain style.lineColor), ("stroke-width", plain "2"),
      ("fill", plain "none"), ("marker-end", plain "url(#arrow)")]
  | .caption center text => centered center style.labelFontSize style.textColor text
  | .node id kind figure box center label actor =>
    .node "g" [("id", plain id), ("class", plain ("bpmn-" ++ kind.word))] ""
      (figureImage kind figure :: centered center style.fontSize style.textColor label ::
        (actor.map (cornered style box)).toList)

def canvas (style : Style) (d : Diagram α) : List (String × Value α) :=
  [("width", number d.width), ("height", number d.height),
    ("viewBox", [.text "0 0 ", .number d.width, .text " ", .number d.height]),
    ("font-family", plain style.fontFamily)]

end Svg

namespace Raster

/-- The call leaves something on the image, or makes or saves it; the others find fonts. -/
def Call.paints {α : Type} : Call α → Bool
  | fileExists _ => false
  | loadFont _ _ => false
  | loadDefault _ => false
  | _ => true

namespace Kit

variable (kit : Kit α)

def fontFor {α : Type} (kit : Kit α) (size : Int) : Font :=
  (lookUp (α := α) kit.fonts ⟨kit.style.fontPath, kit.style.scale⟩ size).1

def figureImage {α : Type} (kit : Kit α) (kind : Kind) (box : Box α) : Figure α → Call α
  | .circle _ _ => .ellipse box kind.fill kind.stroke kit.lineWidth
  | .diamond top right bottom left =>
    .polygon [top, right, bottom, left] kind.fill kind.stroke kit.lineWidth
  | .rectangle _ _ _ => .roundedRectangle box (5 * kit.style.scale) kind.fill kind.stroke kit.lineWidth

def cornered (box : Box α) (text : String) : Except Fault (Call α) := do
  let font := kit.fontFor kit.style.actorFontSize
  let size := kit.fonts.measure font text
  let inset : α ← Scalar.ofInt (5 * kit.style.scale)
  let x := box.right - inset - (← Scalar.ofInt (size.right - size.left))
  let y := box.bottom - inset - (← Scalar.ofInt (size.bottom - size.top))
  return .text ⟨x, y⟩ text kit.style.actorColor font

/-- The calls for an item that is scaled already: a line is one call for every two neighbours, and an
arrowhead at the end of the last two. -/
def image : Item α → Except Fault (List (Call α))
  | .line path =>
    match (path.zip path.tail).getLast? with
    | none => return []
    | some (a, tip) =>
      return (path.zip path.tail).map (fun (a, b) => .line a b kit.style.lineColor kit.lineWidth) ++
        [← kit.arrowhead a tip]
  | .caption center text =>
    return [← kit.centeredText center text (kit.fontFor kit.style.labelFontSize) kit.style.textColor]
  | .node _ kind figure box center label actor => do
    let text ← kit.centeredText center label (kit.fontFor kit.style.fontSize) kit.style.textColor
    let rest ← actor.toList.mapM (kit.cornered box)
    return kit.figureImage kind box figure :: text :: rest

def images (items : List (Item α)) : Except Fault (List (Call α)) :=
  return (← items.mapM kit.image).flatten

end Kit

end Raster

end FlowDiagram
