import FlowDiagram.Raster.Call
import FlowDiagram.Table

namespace FlowDiagram.Raster

/-- What the system has: the files that exist, the names that can be loaded, and whether the default
font comes in every size. -/
structure FontSystem where
  fileExists : String → Bool
  loads : String → Bool
  scalableDefault : Bool := true
  /-- The box around a text that is put at the origin, in whole pixels. -/
  measure : Font → String → Box Int

/-- A font of one's own, if its file is named; otherwise none. -/
structure FontChoice where
  path : Option String := none
  scale : Int := 2

def fontNames : List String :=
  ["/usr/share/fonts/truetype/dejavu/DejaVuSans.ttf",
    "/usr/share/fonts/truetype/liberation/LiberationSans-Regular.ttf",
    "/usr/share/fonts/truetype/freefont/FreeSans.ttf",
    "/System/Library/Fonts/Helvetica.ttc",
    "C:/Windows/Fonts/arial.ttf",
    "DejaVuSans.ttf",
    "Arial"]

variable {α : Type}

/-- The font under the first name that loads, and the attempts up to there. -/
def firstLoaded (sys : FontSystem) (size : Int) : List String → Option Font × List (Call α)
  | [] => (none, [])
  | name :: names =>
    if sys.loads name then (some ⟨name, size⟩, [.loadFont name size])
    else
      let rest := firstLoaded sys size names
      (rest.1, .loadFont name size :: rest.2)

/-- The default font, which older systems have in one size only. -/
def defaultFont (sys : FontSystem) (size : Int) : Font × List (Call α) :=
  if sys.scalableDefault then (⟨"default", size⟩, [.loadDefault (some size)])
  else (⟨"default", 10⟩, [.loadDefault (some size), .loadDefault none])

/-- The names to try: one's own goes first, if its file exists. -/
def namesToTry (sys : FontSystem) (choice : FontChoice) : List String × List (Call α) :=
  match choice.path.filter (· ≠ "") with
  | none => (fontNames, [])
  | some path =>
    (if sys.fileExists path then path :: fontNames else fontNames, [.fileExists path])

def lookUp (sys : FontSystem) (choice : FontChoice) (size : Int) : Font × List (Call α) :=
  let names : List String × List (Call α) := namesToTry sys choice
  let found : Option Font × List (Call α) := firstLoaded sys (size * choice.scale) names.1
  match found.1 with
  | some font => (font, names.2 ++ found.2)
  | none =>
    let other : Font × List (Call α) := defaultFont sys (size * choice.scale)
    (other.1, names.2 ++ found.2 ++ other.2)

/-- The fonts found so far, by nominal size. -/
abbrev FontCache : Type := Table Int Font

/-- The font for a nominal size, looked up when it is asked for the first time. -/
def FontCache.get (sys : FontSystem) (choice : FontChoice) (cache : FontCache) (size : Int) :
    (Font × List (Call α)) × FontCache :=
  match Table.get? cache size with
  | some font => ((font, []), cache)
  | none =>
    let found : Font × List (Call α) := lookUp sys choice size
    (found, Table.put cache size found.1)

def FontCache.getAll (sys : FontSystem) (choice : FontChoice) :
    FontCache → List Int → List (Font × List (Call α))
  | _, [] => []
  | cache, size :: sizes =>
    let step : (Font × List (Call α)) × FontCache := cache.get sys choice size
    step.1 :: getAll sys choice step.2 sizes

end FlowDiagram.Raster
