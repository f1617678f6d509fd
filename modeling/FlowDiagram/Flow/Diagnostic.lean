import FlowDiagram.Flow.Basic

namespace FlowDiagram

inductive Diagnostic where
  /-- A node that is no task was given an actor. -/
  | droppedActor (line : Nat) (actor : String) (kind : Kind) (id : String)
  | redeclared (line : Nat) (id : String) (earlier : Nat)
  | twoLabels (line : Nat) (kept : String)
  | unrecognized (line : Nat) (text : String)
  | noEdges
  | unknownEnd (source target : String) (missing : List String)
  | noStart (first : String)
  | unreachable (id start : String) (level : Nat)
  deriving DecidableEq, Repr

def Diagnostic.message : Diagnostic → String
  | droppedActor line actor kind id =>
    "Line " ++ toString line ++ ": Actor " ++ Text.named actor ++ " ignored on " ++ kind.word ++ " " ++
      Text.named id ++ " (only tasks have actors)"
  | redeclared line id earlier =>
    "Line " ++ toString line ++ ": Duplicate node id " ++ Text.named id ++
      " replaces the declaration on line " ++ toString earlier
  | twoLabels line kept =>
    "Line " ++ toString line ++ ": Edge has two labels, keeping " ++ Text.named kept
  | unrecognized line text =>
    "Line " ++ toString line ++ ": Unrecognized statement skipped: " ++ text
  | noEdges => "No edges found; rendering nodes only."
  | unknownEnd source target missing =>
    "Edge " ++ source ++ " --> " ++ target ++ " references unknown node " ++
      ", ".intercalate (missing.map Text.named) ++ "; excluded from layout"
  | noStart first => "No startEvent found; starting layout from first node " ++ Text.named first
  | unreachable id start level =>
    "Node " ++ Text.named id ++ " is not reachable from " ++ Text.named start ++
      "; placed on trailing level " ++ toString level

end FlowDiagram
