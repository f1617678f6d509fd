import FlowDiagram.Flow.Diagnostic

namespace FlowDiagram

/-- The parts stand in the text, one behind the other. -/
inductive Text.Names : List String → String → Prop
  | nil (text : String) : Names [] text
  | cons {parts : List String} {text : String} (part : String) (h : Names parts text) :
    Names (part :: parts) (part ++ text)
  | behind {parts : List String} {text : String} (before : String) (h : Names parts text) :
    Names parts (before ++ text)

namespace Text.Names

theorem last (part : String) : Names [part] part := by
  simpa using Names.cons part (.nil "")

theorem intercalate {parts : List String} {text : String} (h : Names parts text) (names : List String) :
    Names (names ++ parts) (", ".intercalate (names.map named) ++ text) := by
  have hnamed (name : String) {parts : List String} {text : String} (h : Names parts text) :
      Names (name :: parts) (named name ++ text) := by
    simp only [named, String.append_assoc]
    exact .behind _ (.cons name (.behind _ h))
  induction names with
  | nil => exact h.behind _
  | cons name names ih =>
    cases names with
    | nil =>
      rw [List.map_singleton, String.intercalate_singleton]
      exact hnamed name h
    | cons next names =>
      rw [List.map_cons, List.map_cons, String.intercalate_cons_cons, String.append_assoc, String.append_assoc]
      exact hnamed name (ih.behind ", ")

end Text.Names

namespace Diagnostic

/-- What a message is about, and what it says of it. -/
def parts : Diagnostic → List String
  | droppedActor line actor kind id => ["Line ", toString line, ": Actor ", actor, " ignored on ", kind.word, id]
  | redeclared line id earlier =>
    ["Line ", toString line, ": Duplicate node id ", id, " replaces the declaration on line ", toString earlier]
  | twoLabels line kept => ["Line ", toString line, ": Edge has two labels, keeping ", kept]
  | unrecognized line text => ["Line ", toString line, ": Unrecognized statement skipped: ", text]
  | noEdges => ["No edges found; rendering nodes only."]
  | unknownEnd source target missing => ["Edge ", source, target, " references unknown node "] ++ missing
  | noStart first => ["No startEvent found; starting layout from first node ", first]
  | unreachable id start level =>
    ["Node ", id, " is not reachable from ", start, "; placed on trailing level ", toString level]

theorem names_message (d : Diagnostic) : Text.Names d.parts d.message := by
  unfold message
  cases d <;> simp only [parts, Text.named, String.append_assoc]
  case droppedActor line actor kind id =>
    exact .cons _ (.cons _ (.cons _ (.behind _ (.cons _ (.behind _ (.cons _ (.cons _ (.behind _ (.behind _
      (.cons _ (.nil _)))))))))))
  case redeclared line id earlier =>
    exact .cons _ (.cons _ (.cons _ (.behind _ (.cons _ (.behind _ (.cons _ (.last _)))))))
  case twoLabels line kept => exact .cons _ (.cons _ (.cons _ (.behind _ (.cons _ (.nil _)))))
  case unrecognized line text => exact .cons _ (.cons _ (.cons _ (.last _)))
  case noEdges => exact .last _
  case unknownEnd source target missing =>
    have hmissing := (Text.Names.nil "; excluded from layout").intercalate missing
    rw [List.append_nil] at hmissing
    exact .cons _ (.cons _ (.behind _ (.cons _ (.cons _ hmissing))))
  case noStart first => exact .cons _ (.behind _ (.cons _ (.nil _)))
  case unreachable id start level =>
    exact .cons _ (.behind _ (.cons _ (.behind _ (.cons _ (.behind _ (.cons _ (.behind _ (.cons _ (.last _)))))))))

end Diagnostic

end FlowDiagram
