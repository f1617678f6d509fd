import FlowDiagram.Flow.Basic
import FlowDiagram.Scalar

namespace FlowDiagram

structure Point (α : Type) where
  x : α
  y : α

structure PlacedNode (α : Type) extends Node where
  x : α
  y : α
  level : Int

namespace PlacedNode

variable {α : Type} [Scalar α] (n : PlacedNode α)

def width : α := (n.kind.width : α)

def height : α := (n.kind.height : α)

def left : α := n.x - Scalar.half n.kind.width

def right : α := n.x + Scalar.half n.kind.width

def top : α := n.y - Scalar.half n.kind.height

def bottom : α := n.y + Scalar.half n.kind.height

/-- The name to show as the actor: that of a task, if it is not empty. -/
def shownActor? {α : Type} (n : PlacedNode α) : Option String :=
  if n.kind = .task then n.actor.filter (· ≠ "") else none

/-- Edges leave a node at the middle of its lower side. -/
def exit : Point α := ⟨n.x, n.bottom⟩

/-- Edges enter a node at the middle of its upper side. -/
def entry : Point α := ⟨n.x, n.top⟩

end PlacedNode

/-- An edge with its path, and the center of its label if it has one. The path of an edge with an
undeclared end is empty. -/
structure RoutedEdge (α : Type) extends Edge where
  path : List (Point α) := []
  anchor : Option (Point α) := none

def RoutedEdge.isRouted {α : Type} (e : RoutedEdge α) : Bool := 2 ≤ e.path.length

/-- Nodes are in the order of their declarations and edges in the order of their lines. -/
structure Diagram (α : Type) where
  nodes : List (PlacedNode α)
  edges : List (RoutedEdge α)
  width : α
  height : α

def Diagram.node? {α : Type} (d : Diagram α) (id : String) : Option (PlacedNode α) :=
  d.nodes.find? fun n => n.id = id

end FlowDiagram
