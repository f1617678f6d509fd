import FlowDiagram.Layout.Same
import FlowDiagram.Raster.Drawing
import FlowDiagram.Session.Directory
import FlowDiagram.Svg.Drawing

namespace FlowDiagram

/-- Diagrams made one after the other with the same settings, the trace of the last run, if that was asked
for, and the files that were written. -/
structure Session where
  settings : Settings Float
  trace : Option (Trace Float) := none
  /-- The results of all generating steps that had one, in order. -/
  results : List (Result Float) := []
  directory : Directory := {}

namespace Session

inductive Command where
  | generate (text : String) (debug : Bool)
  | trace
  | stage (name : String)
  | dumpTo (path : String)
  | node (id : String)
  | same (a b : Nat)
  | setCanvasMargin (margin : Quantity Float)
  | setLeftMargin (margin : Quantity Float)
  | saveSvg (text path : String) (style : Svg.Style)
  | savePng (text path : String) (style : Raster.Style) (fonts : Raster.FontSystem)

inductive Answer where
  | result (r : Result Float)
  | trace (t : Option (Trace Float))
  | stage (s : Option (Stage Float))
  | content (text : Option String)
  | node (n : Option (PlacedNode Float))
  | same (b : Bool)
  | done
  | svg (path content : String)
  | png (path : String) (calls : List (Raster.Call Float))

/-- Runs on a text. The trace is kept or dropped, whatever comes of the run. -/
def generate (s : Session) (text : String) (debug : Bool) : Session × Except Fault (Result Float) :=
  let run := s.settings.run text
  let s := { s with trace := if debug then some (run.trace text) else none }
  match run.result with
  | .ok r => ({ s with results := s.results ++ [r] }, .ok r)
  | .error fault => (s, .error fault)

/-- Runs on a text for a file; neither its trace nor its result is kept. -/
def draft (s : Session) (text : String) : Session × Except Fault (Result Float) :=
  ({ s with trace := none }, (s.settings.run text).result)

/-- A result is the same as itself, even where it has coordinates that are not numbers. -/
def sameResults (s : Session) (a b : Nat) : Except Fault Bool :=
  match s.results[a]?, s.results[b]? with
  | some r, some t => .ok (a = b || r.same t)
  | _, _ => .error .outOfRange

/-- Writes the trace, if there is one, and reads it back. -/
def dumpTo (s : Session) (path : String) : Session × Except Fault (Option String) :=
  match s.trace with
  | none => (s, .ok none)
  | some t =>
    match s.directory.write path with
    | .ok d => ({ s with directory := d }, .ok (some t.dump))
    | .error fault => (s, .error fault)

def saveSvg (s : Session) (text path : String) (style : Svg.Style) :
    Session × Except Fault Answer :=
  let (s, result) := s.draft text
  let path := Directory.normalize path
  match result.bind (fun r => Svg.render style r.picture) with
  | .error fault => (s, .error fault)
  | .ok svg =>
    match s.directory.write path with
    | .ok d => ({ s with directory := d }, .ok (.svg path svg))
    | .error fault => (s, .error fault)

/-- The calls for a pixel drawing of a picture, with the arrowheads settled. -/
def pixels (style : Raster.Style) (fonts : Raster.FontSystem) (path : String) (p : Picture Float) :
    Except Fault (List (Raster.Call Float)) := do
  let kit ← Raster.Kit.make style fonts .ofFloat
  return (← kit.render path p).map Raster.Call.settled

def savePng (s : Session) (text path : String) (style : Raster.Style) (fonts : Raster.FontSystem) :
    Session × Except Fault Answer :=
  let (s, result) := s.draft text
  (s, do return .png path (← pixels style fonts path (← result).picture))

def step (s : Session) : Command → Session × Except Fault Answer
  | .generate text debug =>
    let (s, result) := s.generate text debug
    (s, result.map .result)
  | .trace => (s, .ok (.trace s.trace))
  | .stage name => (s, .ok (.stage (s.trace.bind (·.stage? name))))
  | .dumpTo path =>
    let (s, content) := s.dumpTo path
    (s, content.map .content)
  | .node id =>
    (s, .ok (.node (s.results.getLast?.bind fun r => r.picture.diagram?.bind (·.node? id))))
  | .same a b => (s, (s.sameResults a b).map .same)
  | .setCanvasMargin margin => ({ s with settings.canvasMargin := margin }, .ok .done)
  | .setLeftMargin margin => ({ s with settings.leftMargin := margin }, .ok .done)
  | .saveSvg text path style => s.saveSvg text path style
  | .savePng text path style fonts => s.savePng text path style fonts

def answers (s : Session) : List Command → List (Except Fault Answer)
  | [] => []
  | c :: cs => (s.step c).2 :: (s.step c).1.answers cs

end Session

end FlowDiagram
