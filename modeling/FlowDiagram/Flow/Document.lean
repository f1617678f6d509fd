import FlowDiagram.Flow.Diagnostic
import FlowDiagram.Flow.Statement
import FlowDiagram.Table

namespace FlowDiagram

structure Document where
  nodes : List Node
  edges : List Edge
  diagnostics : List Diagnostic
  deriving DecidableEq

/-- What has been read so far: each declared id with its node and the line that declared it last. -/
structure Reading where
  declared : Table String (Nat × Node) := .empty
  edges : List Edge := []
  diagnostics : List Diagnostic := []
  started : Bool := false

namespace Reading

def warn (r : Reading) (ds : List Diagnostic) : Reading :=
  { r with diagnostics := r.diagnostics ++ ds }

/-- Takes in one line with its number. A bare word is the header if nothing stands before it. -/
def take (r : Reading) (line : Nat) : Statement → Reading
  | .blank => r
  | .node n dropped =>
    let r := r.warn (dropped.map fun a => .droppedActor line a n.kind n.id).toList
    let r := r.warn ((r.declared.get? n.id).map fun e => .redeclared line n.id e.1).toList
    { r with declared := r.declared.put n.id (line, n), started := true }
  | .edge e doubled =>
    let r := r.warn (if doubled then [.twoLabels line e.label] else [])
    { r with edges := r.edges ++ [e], started := true }
  | .word text =>
    let r := r.warn (if r.started then [.unrecognized line text] else [])
    { r with started := true }
  | .unknown text => { r.warn [.unrecognized line text] with started := true }

def document (r : Reading) : Document :=
  ⟨r.declared.entries.map (·.2.2), r.edges, r.diagnostics⟩

end Reading

def Document.statements (text : List Char) : List (Statement × Nat) :=
  ((Text.lines text).map Statement.ofLine).zipIdx 1

/-- Reading always succeeds: a line that is no statement is skipped with a warning. The last declaration of
an id counts, in the place of the first. -/
def Document.read (text : String) : Document :=
  ((statements text.toList).foldl (fun (r : Reading) s => r.take s.2 s.1) {}).document

end FlowDiagram
