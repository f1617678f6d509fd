import FlowDiagram.Flow.Document
import FlowDiagram.Graph.Levels
import FlowDiagram.Layout.Canvas
import FlowDiagram.Layout.Positions
import FlowDiagram.Trace.Basic

namespace FlowDiagram

/-- What there is to draw: a diagram, or a message in its place. -/
inductive Picture (α : Type) where
  | diagram (d : Diagram α)
  | message (text : String)

def Picture.diagram? {α : Type} : Picture α → Option (Diagram α)
  | diagram d => some d
  | message _ => none

def Picture.text {α : Type} : Picture α → String
  | diagram _ => ""
  | message text => text

structure Result (α : Type) where
  picture : Picture α
  diagnostics : List Diagnostic

def noNodesMessage : String := "No nodes found in DSL"

inductive Record (α : Type) where
  | shifted (dy : α)
  | warning (d : Diagnostic)
  | noNodes
  | laidOut (nodes edges : Nat) (width height : α)

namespace Record

inductive Severity where
  | debug
  | warning
  deriving DecidableEq

def severity {α : Type} : Record α → Severity
  | warning _ | noNodes => .warning
  | _ => .debug

def message : Record Float → String
  | shifted dy => "Shifted diagram down by " ++ Decimal.brief dy ++ " to clear the top margin"
  | warning d => d.message
  | noNodes => noNodesMessage
  | laidOut nodes edges width height =>
    "Laid out " ++ toString nodes ++ " nodes and " ++ toString edges ++ " edges on a " ++
      Decimal.brief width ++ "x" ++ Decimal.brief height ++ " canvas"

end Record

/-- A layout before it is moved down and framed. -/
structure Plan (α : Type) where
  graph : Graph
  levels : Levels
  positions : Table String (Point α)
  nodes : List (PlacedNode α)
  edges : List (RoutedEdge α)

/-- How far a run got: the text declared no node, or a fault stopped the planning or the framing, or a
diagram was made, moved down by a distance. -/
inductive Run (α : Type) where
  | empty (doc : Document)
  | unplanned (doc : Document) (fault : Fault)
  | unframed (doc : Document) (plan : Plan α) (fault : Fault)
  | framed (doc : Document) (plan : Plan α) (shift : α) (diagram : Diagram α)

/-- The settings of runs. The two margins are kept as they were given. -/
structure Settings (α : Type) where
  spacing : Spacing α
  leftMargin : Quantity α
  canvasMargin : Quantity α

namespace Settings

variable {α : Type} [Scalar α]

def ofConfig (c : Config α) : Except Fault (Settings α) := do
  return ⟨← c.check, c.leftMargin, c.canvasMargin⟩

def plan (s : Settings α) (doc : Document) : Except Fault (Plan α) := do
  let graph := Graph.build (doc.nodes.map (·.id)) doc.edges
  let levels ← Levels.assign graph doc.nodes
  let kinds := Table.ofList (doc.nodes.map fun n => (n.id, n.kind))
  let positions ← s.spacing.positions levels.layers graph.parents kinds
  let nodes ← doc.nodes.mapM fun n => do
    let p ← positions.find n.id
    return { toNode := n, x := p.x, y := p.y, level := (← levels.level.find n.id : Nat) }
  return ⟨graph, levels, positions, nodes, Route.all s.spacing.leftMargin nodes doc.edges⟩

/-- Moves the layout down clear of the top margin, and makes the canvas. -/
def frame (s : Settings α) (p : Plan α) : Except Fault (α × Diagram α) := do
  let shift := Canvas.overflow (← s.leftMargin.value) p.nodes p.edges
  let still := Scalar.eq shift ((0 : Nat) : α)
  let nodes := if still then p.nodes else p.nodes.map (Canvas.moveNode shift)
  let edges := if still then p.edges else p.edges.map (Canvas.moveEdge shift)
  let (width, height) := Canvas.size (← s.canvasMargin.value) nodes edges
  return (shift, ⟨nodes, edges, width, height⟩)

def run (s : Settings α) (text : String) : Run α :=
  let doc := Document.read text
  if doc.nodes = [] then .empty doc
  else
    match s.plan doc with
    | .error fault => .unplanned doc fault
    | .ok plan =>
      match s.frame plan with
      | .error fault => .unframed doc plan fault
      | .ok (shift, diagram) => .framed doc plan shift diagram

end Settings

namespace Run

variable {α : Type}

def diagnostics (doc : Document) (p : Plan α) : List Diagnostic :=
  doc.diagnostics ++ Graph.diagnostics (doc.nodes.map (·.id)) doc.edges ++ p.levels.diagnostics

def result : Run α → Except Fault (Result α)
  | empty doc => .ok ⟨.message noNodesMessage, doc.diagnostics⟩
  | unplanned _ fault => .error fault
  | unframed _ _ fault => .error fault
  | framed doc plan _ diagram => .ok ⟨.diagram diagram, diagnostics doc plan⟩

section Stages

def texts (ss : List String) : Value α := .list (ss.map .text)

def pointValue (p : Point α) : Value α := .tuple [.real p.x, .real p.y]

def parseStage (doc : Document) : Stage α :=
  ⟨"parse", .ofList [("nodes", texts (doc.nodes.map (·.id))),
    ("edges", .list (doc.edges.map fun e => .tuple [.text e.source, .text e.target, .text e.label])),
    ("diagnostics", texts (doc.diagnostics.map Diagnostic.message))]⟩

def graphStage (g : Graph) : Stage α :=
  let mapOf (t : Table String (List String)) : Value α :=
    .map (t.entries.map fun (id, ids) => (id, texts ids))
  ⟨"graph", .ofList [("adjacency", mapOf g.children), ("parents", mapOf g.parents),
    ("dangling", .list (g.dangling.map fun e => .tuple [.text e.source, .text e.target]))]⟩

def levelsStage (l : Levels) : Stage α :=
  ⟨"levels", .ofList [("start", .text l.start), ("layers", .list (l.layers.map texts)),
    ("unreached", texts l.unreached)]⟩

def positionsStage (ps : Table String (Point α)) : Stage α :=
  ⟨"positions", .ofList [("positions", .map (ps.entries.map fun (id, p) => (id, pointValue p)))]⟩

/-- The name of an edge in a trace; parallel edges share it, and the last of them counts. -/
def edgeName (e : Edge) : String := e.source ++ "->" ++ e.target

def routesStage (es : List (RoutedEdge α)) : Stage α :=
  ⟨"routes", .ofList [
    ("paths", .map (Table.ofList (es.map fun e =>
      (edgeName e.toEdge, .tuple (e.path.map pointValue)))).entries),
    ("labels", .map (Table.ofList (es.filterMap fun e =>
      e.anchor.map fun p => (edgeName e.toEdge, pointValue p))).entries)]⟩

def canvasStage (shift : α) (d : Diagram α) : Stage α :=
  ⟨"canvas", .ofList [("shift", .real shift), ("width", .real d.width), ("height", .real d.height)]⟩

def planStages (doc : Document) (p : Plan α) : List (Stage α) :=
  [parseStage doc, graphStage p.graph, levelsStage p.levels, positionsStage p.positions,
    routesStage p.edges]

end Stages

/-- The trace of the run on a text. A run that a fault stopped leaves the stages before it, and no
warnings. -/
def trace (text : String) : Run α → Trace α
  | empty doc => ⟨text, [parseStage doc], doc.diagnostics.map Diagnostic.message⟩
  | unplanned doc _ => ⟨text, [parseStage doc], []⟩
  | unframed doc plan _ => ⟨text, planStages doc plan, []⟩
  | framed doc plan shift diagram =>
    ⟨text, planStages doc plan ++ [canvasStage shift diagram],
      (diagnostics doc plan).map Diagnostic.message⟩

def log [Scalar α] : Run α → Except Fault (List (Record α))
  | empty doc => .ok (doc.diagnostics.map .warning ++ [.noNodes])
  | unplanned _ fault => .error fault
  | unframed _ _ fault => .error fault
  | framed doc plan shift diagram =>
    .ok ((if Scalar.eq shift ((0 : Nat) : α) then [] else [.shifted shift]) ++
      (diagnostics doc plan).map .warning ++
      [.laidOut diagram.nodes.length diagram.edges.length diagram.width diagram.height])

end Run

end FlowDiagram
