import FlowDiagram.Table
import FlowDiagram.Trace.Value

namespace FlowDiagram

structure Stage (α : Type) where
  name : String
  data : Table String (Value α)

/-- What a run has come to after each of its stages. -/
structure Trace (α : Type) where
  input : String
  stages : List (Stage α) := []
  diagnostics : List String := []

def joinLines (ls : List String) : String := "\n".intercalate ls

/-- A heading and a line for each entry, long values cut after a hundred characters. -/
def Stage.text (s : Stage Float) : String :=
  joinLines (("=== Stage: " ++ s.name ++ " ===") ::
    s.data.entries.map fun (k, v) => "  " ++ k ++ ": " ++ Text.abridge 100 v.outer)

namespace Trace

def stage? {α : Type} (t : Trace α) (name : String) : Option (Stage α) :=
  t.stages.find? fun s => s.name = name

def rule (c : Char) (n : Nat) : String := String.ofList (List.replicate n c)

def inputLine (input : String) : String :=
  "Input: " ++ Text.quoted (Text.clip 100 input) ++ (if input.length > 100 then "..." else "")

def summaryLines {α : Type} (t : Trace α) : List String :=
  [rule '=' 60, "RENDER TRACE SUMMARY", rule '=' 60, "", inputLine t.input, "",
      "Pipeline stages: " ++ toString t.stages.length] ++
    t.stages.map (fun s => "  - " ++ s.name) ++
    ["", "Diagnostics: " ++ toString t.diagnostics.length] ++ t.diagnostics.map ("  " ++ ·)

def summary {α : Type} (t : Trace α) : String := joinLines t.summaryLines

def dump (t : Trace Float) : String :=
  joinLines ([t.summary, "", rule '=' 60, "DETAILED TRACE", rule '=' 60, "", "PIPELINE STAGES:",
    rule '-' 40] ++ t.stages.flatMap fun s => [s.text, ""])

end Trace

end FlowDiagram
