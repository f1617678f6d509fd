import FlowDiagram.Layout.Run

namespace FlowDiagram

variable {α : Type} [Scalar α]

def Point.same (p q : Point α) : Bool := Scalar.eq p.x q.x && Scalar.eq p.y q.y

def PlacedNode.same (m n : PlacedNode α) : Bool :=
  m.toNode = n.toNode && Scalar.eq m.x n.x && Scalar.eq m.y n.y && m.level = n.level

def sameAll {β : Type} (same : β → β → Bool) : List β → List β → Bool
  | [], [] => true
  | a :: as, b :: bs => same a b && sameAll same as bs
  | _, _ => false

def RoutedEdge.same (d e : RoutedEdge α) : Bool :=
  d.toEdge = e.toEdge && sameAll Point.same d.path e.path &&
    match d.anchor, e.anchor with
    | none, none => true
    | some p, some q => p.same q
    | _, _ => false

def Diagram.same (d e : Diagram α) : Bool :=
  sameAll PlacedNode.same d.nodes e.nodes && sameAll RoutedEdge.same d.edges e.edges &&
    Scalar.eq d.width e.width && Scalar.eq d.height e.height

def Picture.same : Picture α → Picture α → Bool
  | diagram d, diagram e => d.same e
  | message s, message t => s = t
  | _, _ => false

/-- Coordinates are compared as values: something that is not a number is the same as nothing, and the two
zeros are the same. -/
def Result.same (r s : Result α) : Bool :=
  r.picture.same s.picture &&
    r.diagnostics.map Diagnostic.message = s.diagnostics.map Diagnostic.message

end FlowDiagram
