import FlowDiagram.Layout.Diagram
import FlowDiagram.Table

namespace FlowDiagram

variable {α : Type} [Scalar α]

namespace Route

def labelGap : Nat := 8

/-- The size of a label's box: seven for each character and four on either side, fourteen high; an
empty label has none. -/
def labelWidth (label : String) : Nat := if label = "" then 0 else label.length * 7 + 2 * 4

def labelHeight (label : String) : Nat := if label = "" then 0 else 14

def clearance : Nat := 20

def aligned (a b c : Point α) : Bool :=
  (Scalar.eq a.x b.x && Scalar.eq b.x c.x) || (Scalar.eq a.y b.y && Scalar.eq b.y c.y)

/-- Drops the points inside straight runs; a and b are the last two points kept. -/
def straightenFrom (a b : Point α) : List (Point α) → List (Point α)
  | [] => [a, b]
  | c :: rest =>
    if aligned a b c then straightenFrom a c rest else a :: straightenFrom b c rest

def straighten : List (Point α) → List (Point α)
  | a :: b :: rest => straightenFrom a b rest
  | ps => ps

def samePlace (p q : Point α) : Bool := Scalar.eq p.x q.x && Scalar.eq p.y q.y

/-- Drops the points that repeat the last one kept, which is p at first. -/
def dropRepeats (p : Point α) : List (Point α) → List (Point α)
  | [] => []
  | q :: rest => if samePlace p q then dropRepeats p rest else q :: dropRepeats q rest

/-- The path without repeated points and without points inside straight runs. -/
def simplify : List (Point α) → List (Point α)
  | [] => []
  | p :: rest => straighten (p :: dropRepeats p rest)

/-- A step of a path along an axis, to a new x or a new y. -/
inductive Leg (α : Type) where
  | toX (x : α)
  | toY (y : α)

/-- The corners that the legs lead to; a leg of no length leads to none. -/
def corners (p : Point α) : List (Leg α) → List (Point α)
  | [] => []
  | .toX x :: legs =>
    if Scalar.eq p.x x then corners ⟨x, p.y⟩ legs else ⟨x, p.y⟩ :: corners ⟨x, p.y⟩ legs
  | .toY y :: legs =>
    if Scalar.eq p.y y then corners ⟨p.x, y⟩ legs else ⟨p.x, y⟩ :: corners ⟨p.x, y⟩ legs

/-- The course of an edge: its legs, and the two ends of the horizontal run that a label stands on. -/
structure Course (α : Type) where
  legs : List (Leg α)
  runStart : Point α
  runEnd : α

/-- Down to the line halfway between the boxes, across, and down. -/
def forward (source target : PlacedNode α) : Course α :=
  let middle := (source.bottom + target.top) / ((2 : Nat) : α)
  { legs := [.toY middle, .toX target.x, .toY target.top]
    runStart := ⟨source.x, middle⟩
    runEnd := target.x }

/-- Down, out to a channel on the right of both boxes, up, back, and down. -/
def around (source target : PlacedNode α) : Course α :=
  let below := source.bottom + (clearance : α)
  let above := target.top - (clearance : α)
  let channel := Scalar.max source.right target.right + (clearance : α)
  { legs := [.toY below, .toX channel, .toY above, .toX target.x, .toY target.top]
    runStart := ⟨channel, above⟩
    runEnd := target.x }

def isForward (source target : PlacedNode α) : Bool := Scalar.lt source.bottom target.top

def course (source target : PlacedNode α) : Course α :=
  if isForward source target then forward source target else around source target

def path (source target : PlacedNode α) : List (Point α) :=
  straighten (source.exit :: corners source.exit (course source target).legs)

/-- The center of a label: in the middle of its run, or right of the run's start when the run is too
short to hold it clear of the line that enters it; never over the left margin. -/
def anchor (leftMargin : α) (label : String) (c : Course α) : Point α :=
  let x₁ := c.runStart.x
  let x₂ := c.runEnd
  let reach := Scalar.half (labelWidth label)
  let center :=
    if Scalar.le ((labelWidth label + 2 * labelGap : Nat) : α) (Scalar.abs (x₂ - x₁)) then
      (x₁ + x₂) / ((2 : Nat) : α)
    else x₁ + (labelGap : α) + reach
  ⟨Scalar.max center (leftMargin + reach),
    c.runStart.y - (labelGap : α) - Scalar.half (labelHeight label)⟩

/-- A path runs along the axes, leaves its source downward and enters its target from above. The label
stands above the horizontal run. -/
def between (leftMargin : α) (e : Edge) (source target : PlacedNode α) : RoutedEdge α where
  toEdge := e
  path := path source target
  anchor := if e.label = "" then none else some (anchor leftMargin e.label (course source target))

/-- Routes an edge among the nodes; without both ends there is no path. -/
def edge (leftMargin : α) (nodes : Table String (PlacedNode α)) (e : Edge) : RoutedEdge α :=
  match nodes.get? e.source, nodes.get? e.target with
  | some source, some target => between leftMargin e source target
  | _, _ => { toEdge := e }

/-- Routes the edges, in order. Of nodes with one id the last counts. -/
def all (leftMargin : α) (nodes : List (PlacedNode α)) (edges : List Edge) : List (RoutedEdge α) :=
  edges.map (edge leftMargin (.ofList (nodes.map fun n => (n.id, n))))

end Route

end FlowDiagram
