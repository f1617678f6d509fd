import FlowDiagram.Layout.Route

namespace FlowDiagram

variable {α : Type} [Scalar α]

namespace Canvas

def edgeTops (e : RoutedEdge α) : List α :=
  e.path.map Point.y ++
    (e.anchor.map fun p => p.y - Scalar.half (Route.labelHeight e.label)).toList

def tops (nodes : List (PlacedNode α)) (edges : List (RoutedEdge α)) : List α :=
  nodes.map PlacedNode.top ++ edges.flatMap edgeTops

/-- How far a diagram has to move down to clear the margin. -/
def overflow (margin : α) (nodes : List (PlacedNode α)) (edges : List (RoutedEdge α)) : α :=
  match tops nodes edges with
  | [] => ((0 : Nat) : α)
  | y :: ys => Scalar.max ((0 : Nat) : α) (margin - Scalar.least y ys)

def movePoint (dy : α) (p : Point α) : Point α := ⟨p.x, p.y + dy⟩

def moveNode (dy : α) (n : PlacedNode α) : PlacedNode α := { n with y := n.y + dy }

def moveEdge (dy : α) (e : RoutedEdge α) : RoutedEdge α :=
  { e with path := e.path.map (movePoint dy), anchor := e.anchor.map (movePoint dy) }

def edgeCorners (e : RoutedEdge α) : List (Point α) :=
  e.path ++ (e.anchor.map fun p =>
    ⟨p.x + Scalar.half (Route.labelWidth e.label), p.y + Scalar.half (Route.labelHeight e.label)⟩).toList

def corners (nodes : List (PlacedNode α)) (edges : List (RoutedEdge α)) : List (Point α) :=
  nodes.map (fun n => ⟨n.right, n.bottom⟩) ++ edges.flatMap edgeCorners

def extent (margin : α) (xs : List α) : α := xs.foldl Scalar.max ((0 : Nat) : α) + margin

def size (margin : α) (nodes : List (PlacedNode α)) (edges : List (RoutedEdge α)) : α × α :=
  (extent margin ((corners nodes edges).map Point.x),
    extent margin ((corners nodes edges).map Point.y))

end Canvas

end FlowDiagram
