import FlowDiagram.Session.Basic

namespace FlowDiagram.Gallery

inductive Exhibit where
  | linear
  | order
  | review
  | diagnostics
  deriving DecidableEq

namespace Exhibit

def all : List Exhibit := [linear, order, review, diagnostics]

def title : Exhibit → String
  | linear => "Example 1: Simple Linear Flow"
  | order => "Example 2: Order Handling"
  | review => "Example 3: Review Loop"
  | diagnostics => "Example 4: Diagnostics"

def indented (ls : List String) : String :=
  "\n" ++ String.join (ls.map fun l => (if l = "" then "" else "    " ++ l) ++ "\n") ++ "    "

def text : Exhibit → String
  | linear => indented ["startEvent s \"Start\"", "task t \"Do the work\" [actor: Alice]",
      "endEvent e \"End\"", "s --> t", "t --> e"]
  | order => indented ["bpmnFlow", "startEvent start \"Start\"",
      "task T1 \"Validate Order\" actor=\"Alice\"", "gateway G1 \"Payment OK?\"",
      "task T2 \"Ship Order\" actor=\"Bob\"", "endEvent end \"End\"", "", "start --> T1",
      "T1 --> G1", "G1 -->|yes| T2", "G1 -->|no| end", "T2 --> end"]
  | review => indented ["startEvent s \"Submitted\"", "task draft \"Draft\" [actor: Author]",
      "task review \"Review\" [actor: Editor]", "gateway ok \"Approved?\"",
      "task publish \"Publish\"", "endEvent e \"Done\"", "", "s --> draft", "draft --> review",
      "review --> ok", "ok -->|yes| publish", "ok -->|no| draft", "publish --> e"]
  | diagnostics => indented ["startEvent s \"Start\"", "task a \"Check stock\"",
      "tsak b \"Typo in kind\"", "s --> a", "a --> b"]

def fileName? : Exhibit → Option String
  | linear => some "example_linear"
  | order => some "example_order"
  | review => some "example_review"
  | diagnostics => none

end Exhibit

/-- What has come of showing exhibits. -/
structure Showing where
  session : Session
  printed : String := ""
  files : List (String × String) := []
  calls : List (Raster.Call Float) := []

namespace Showing

def print (s : Showing) (line : String) : Showing := { s with printed := s.printed ++ line ++ "\n" }

def save (fonts : Raster.FontSystem) (text name : String) (s : Showing) : Except Fault Showing := do
  let (session, saved) := s.session.step (.saveSvg text (name ++ ".svg") {})
  let (session, drawn) := session.step (.savePng text (name ++ ".png") {} fonts)
  let s := { s with session }
  let s :=
    match ← saved with
    | .svg path content => { s with files := s.files ++ [(path, content)] }
    | _ => s
  let s :=
    match ← drawn with
    | .png _ calls => { s with calls := s.calls ++ calls }
    | _ => s
  return s.print ("  Saved: " ++ name ++ ".svg, " ++ name ++ ".png\n")

def explain (text : String) (s : Showing) : Except Fault Showing := do
  let (session, result) := s.session.generate text true
  let s := (← result).diagnostics.foldl (fun (s : Showing) d => s.print ("  warning: " ++ d.message))
    { s with session }
  let s := match session.trace with
    | some t => s.print t.summary
    | none => s
  return s.print ""

def exhibit (fonts : Raster.FontSystem) (s : Showing) (e : Exhibit) : Except Fault Showing :=
  let s := s.print e.title
  match e.fileName? with
  | some name => s.save fonts e.text name
  | none => s.explain e.text

def filesByName (s : Showing) : List (String × String) :=
  Sorting.sort (fun a b => decide (a.1 < b.1)) s.files

end Showing

/-- A session with the usual settings. -/
def opening : Except Fault Showing := return { session := ⟨← Settings.ofConfig {}, none, [], {}⟩ }

def single (fonts : Raster.FontSystem) (e : Exhibit) : Except Fault Showing := do
  (← opening).exhibit fonts e

def whole (fonts : Raster.FontSystem) : Except Fault Showing := do
  let rule := Trace.rule '=' 50
  let s := (((← opening).print rule).print "FLOW DIAGRAM EXAMPLES").print (rule ++ "\n")
  let s ← Exhibit.all.foldlM (Showing.exhibit fonts) s
  return ((s.print rule).print "All examples generated successfully!").print rule

end FlowDiagram.Gallery
