import FlowDiagram.Layout.Config
import FlowDiagram.Layout.Diagram
import FlowDiagram.Sorting
import FlowDiagram.Table

namespace FlowDiagram

variable {α : Type} [Scalar α]

def mean (x : α) (xs : List α) : α := Scalar.sum (x :: xs) / (((x :: xs).length : Nat) : α)

namespace Spacing

def parentXs (parents : Table String (List String)) (placed : Table String (Point α)) (id : String) :
    List α :=
  ((parents.get? id).getD []).filterMap fun p => (placed.get? p).map Point.x

def desired? (parents : Table String (List String)) (placed : Table String (Point α)) (id : String) :
    Option α :=
  match parentXs parents placed id with
  | [] => none
  | x :: xs => some (mean x xs)

/-- The nodes in a row with the least distance, centered on the base. -/
def row (s : Spacing α) (ids : List String) : List (String × α) :=
  let offset := ((ids.length - 1 : Nat) : α) * s.minSpacing / ((2 : Nat) : α)
  ids.zipIdx.map fun (id, i) => (id, s.baseX + (i : α) * s.minSpacing - offset)

/-- Where the nodes of a level would stand if there were room. -/
def initial (s : Spacing α) (parents : Table String (List String)) (placed : Table String (Point α))
    (layer : List String) : Table String α :=
  (Table.ofList (layer.filterMap fun id => (desired? parents placed id).map fun x => (id, x))).putAll
    (s.row (layer.filter fun id => (desired? parents placed id).isNone))

def moveRight (step : α) (ids : List String) (xs : Table String α) : Except Fault (Table String α) :=
  ids.foldlM (fun xs id => return xs.put id ((← xs.find id) + step)) xs

/-- Pushes nodes apart, from left to right: where two neighbours are too close, the right one and all
beyond it move by what is missing, and the right one is set down at exactly the least distance. -/
def pushApart (s : Spacing α) : List String → Table String α → Except Fault (Table String α)
  | a :: b :: rest, xs => do
    let gap := (← xs.find b) - (← xs.find a)
    if Scalar.lt gap s.minSpacing then
      let xs ← moveRight (s.minSpacing - gap) (b :: rest) xs
      pushApart s (b :: rest) (xs.put b ((← xs.find a) + s.minSpacing))
    else pushApart s (b :: rest) xs
  | _, xs => .ok xs

/-- The nodes of a level from left to right; nodes at one place keep their order. -/
def ordered (layer : List String) (xs : Table String α) : Except Fault (List String) := do
  let keyed ← layer.mapM fun id => return ((← xs.find id), id)
  return (Sorting.sort (fun a b => Scalar.lt a.1 b.1) keyed).map (·.2)

def placeLayer (s : Spacing α) (parents : Table String (List String))
    (placed : Table String (Point α)) (layer : List String × Nat) :
    Except Fault (Table String (Point α)) := do
  let desired := s.initial parents placed layer.1
  let xs ← s.pushApart (← ordered layer.1 desired) desired
  let y := s.baseY + (layer.2 : α) * s.levelSpacing
  return placed.putAll (xs.entries.map fun (id, x) => (id, ⟨x, y⟩))

/-- How far the leftmost box reaches over the left margin. -/
def deficit (s : Spacing α) (kinds : Table String Kind) (placed : Table String (Point α)) :
    Except Fault α := do
  let lefts ← placed.entries.mapM fun (id, p) =>
    return p.x - Scalar.half (← kinds.find id).width
  match lefts with
  | [] => return ((0 : Nat) : α)
  | x :: xs => return Scalar.max ((0 : Nat) : α) (s.leftMargin - Scalar.least x xs)

/-- Level by level, a node is first put at the mean of its parents on earlier levels, nodes without such parents in a
row around the base; then the nodes of the level are pushed apart. In the end all are moved right together until no
box crosses the left margin. -/
def positions (s : Spacing α) (layers : List (List String)) (parents : Table String (List String))
    (kinds : Table String Kind) : Except Fault (Table String (Point α)) := do
  let placed ← layers.zipIdx.foldlM (s.placeLayer parents) .empty
  let shift ← s.deficit kinds placed
  return ⟨placed.entries.map fun (id, p) => (id, ⟨p.x + shift, p.y⟩)⟩

end Spacing

end FlowDiagram
