import FlowDiagram.Graph.Basic
import FlowDiagram.Sorting

namespace FlowDiagram

/-- The first start event, or the first node if there is none. -/
def startNode : List Node → Except Fault Node
  | [] => .error .outOfRange
  | n :: ns => .ok (((n :: ns).find? fun m => m.kind = .startEvent).getD n)

/-- The level of each node, and the nodes of each level in the order in which they were found. -/
structure Ranking where
  level : Table String Nat
  layers : List (List String)

namespace Ranking

/-- Puts a node on the level below its parent, which has to have one. -/
def descend (r : Ranking) (arc : String × String) : Except Fault Ranking := do
  let level := (← r.level.find arc.1) + 1
  let layers ←
    if level = r.layers.length then .ok (r.layers ++ [[arc.2]])
    else if level < r.layers.length then .ok (r.layers.modify level (· ++ [arc.2]))
    else .error .outOfRange
  return ⟨r.level.put arc.2 level, layers⟩

def trail (r : Ranking) (ids : List String) : Ranking :=
  if ids = [] then r
  else ⟨r.level.putAll (ids.map fun id => (id, r.layers.length)), r.layers ++ [ids]⟩

end Ranking

/-- The start node has level 0, and every other node is one level below the node from which a traversal
finds it. Nodes that are never found share one more level at the end. -/
structure Levels extends Ranking where
  start : String
  /-- The ids that no path from the start leads to, in the order of their code points. -/
  unreached : List String
  diagnostics : List Diagnostic

namespace Levels

def sortIds (ids : List String) : List String := Sorting.sort (fun a b => decide (a < b)) ids

def assign (g : Graph) (nodes : List Node) : Except Fault Levels := do
  let start ← startNode nodes
  let arcs ← g.traverse start.id
  let reached ← arcs.foldlM Ranking.descend ⟨.ofList [(start.id, 0)], [[start.id]]⟩
  let unreached := sortIds ((nodes.map (·.id)).filter (· ∉ reached.level.keys))
  return {
    toRanking := reached.trail unreached
    start := start.id
    unreached
    diagnostics :=
      (if start.kind = .startEvent then [] else [.noStart start.id]) ++
        unreached.map fun id => .unreachable id start.id reached.layers.length }

end Levels

end FlowDiagram
