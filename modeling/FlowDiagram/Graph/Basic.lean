import FlowDiagram.Flow.Diagnostic
import FlowDiagram.Table

namespace FlowDiagram

/-- The ends of the edge that are not among the ids, each once. -/
def Edge.missing (e : Edge) (ids : List String) : List String :=
  distinct ([e.source, e.target].filter (· ∉ ids))

/-- The declared ids, and the arcs between them in the order of the first edge of each pair, which is the
order in which a traversal visits children. -/
structure Graph where
  nodes : List String
  arcs : List (String × String)
  /-- The edges with an undeclared end, repeats included. -/
  dangling : List Edge

namespace Graph

/-- The graph on the given ids; repeated ids count once, and so do repeated edges. -/
def build (ids : List String) (edges : List Edge) : Graph where
  nodes := distinct ids
  arcs := distinct ((edges.filter fun e => e.missing ids = []).map fun e => (e.source, e.target))
  dangling := edges.filter fun e => e.missing ids ≠ []

def diagnostics (ids : List String) (edges : List Edge) : List Diagnostic :=
  (if edges = [] then [.noEdges] else []) ++
    (edges.filter fun e => e.missing ids ≠ []).map fun e =>
      .unknownEnd e.source e.target (e.missing ids)

def successors (g : Graph) (id : String) : List String :=
  (g.arcs.filter fun a => a.1 = id).map (·.2)

def predecessors (g : Graph) (id : String) : List String :=
  (g.arcs.filter fun a => a.2 = id).map (·.1)

def children (g : Graph) : Table String (List String) :=
  ⟨g.nodes.map fun id => (id, g.successors id)⟩

def parents (g : Graph) : Table String (List String) :=
  ⟨g.nodes.map fun id => (id, g.predecessors id)⟩

def arcsBySource (g : Graph) : List (String × String) :=
  g.nodes.flatMap fun id => (g.successors id).map fun child => (id, child)

/-- Goes on with a traversal: the queue holds the nodes whose children are still to be looked at, and
seen holds all nodes that were ever in it. The steps are bounded, for each takes one from the queue. -/
def walk (g : Graph) : Nat → List String → List String → List (String × String)
  | 0, _, _ => []
  | _, [], _ => []
  | n + 1, id :: queue, seen =>
    let fresh := (g.successors id).filter (· ∉ seen)
    fresh.map (fun child => (id, child)) ++ g.walk n (queue ++ fresh) (seen ++ fresh)

/-- The arcs of a breadth-first traversal, from each node to the nodes first found from it. No node
enters the queue twice, so their number bounds the steps. -/
def traverse (g : Graph) (start : String) : Except Fault (List (String × String)) :=
  if start ∈ g.nodes then .ok (g.walk g.nodes.length [start] [start])
  else .error (.notInGraph start)

end Graph

end FlowDiagram
