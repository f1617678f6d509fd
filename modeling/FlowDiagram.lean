import FlowDiagram.Main
import FlowDiagram.Trace.Recorder
import FlowDiagram.Proofs.Graph.Path
import FlowDiagram.Proofs.Sorting
import FlowDiagram.Proofs.Graph.Ranking
import FlowDiagram.Proofs.Graph.Round
import FlowDiagram.Proofs.Graph.Traversal
import FlowDiagram.Proofs.Graph.Levels
import FlowDiagram.Proofs.Graph.Discovery
import FlowDiagram.Proofs.Graph.Duality
import FlowDiagram.Proofs.Layout.Exact
import FlowDiagram.Proofs.Layout.Row
import FlowDiagram.Proofs.Layout.Positions
import FlowDiagram.Proofs.Flow.Document
import FlowDiagram.Proofs.Text.Line
import FlowDiagram.Proofs.Layout.Route
import FlowDiagram.Proofs.Layout.Translation
import FlowDiagram.Proofs.Layout.Extent
import FlowDiagram.Proofs.Layout.Canvas
import FlowDiagram.Proofs.Layout.Plan
import FlowDiagram.Proofs.Layout.Diagram
import FlowDiagram.Proofs.Layout.Line
import FlowDiagram.Proofs.Layout.Turns
import FlowDiagram.Proofs.Layout.Label
import FlowDiagram.Proofs.Layout.Clearance
import FlowDiagram.Proofs.Layout.Detour
import FlowDiagram.Proofs.Layout.Normal
import FlowDiagram.Proofs.Layout.Origin
import FlowDiagram.Proofs.Flow.Form
import FlowDiagram.Proofs.Flow.Grammar
import FlowDiagram.Proofs.Flow.Declaration
import FlowDiagram.Proofs.Flow.Written
import FlowDiagram.Proofs.Graph.Alike
import FlowDiagram.Proofs.Layout.Insertion
import FlowDiagram.Proofs.Graph.Reordering
import FlowDiagram.Proofs.Layout.Reordering
import FlowDiagram.Proofs.Graph.Growth
import FlowDiagram.Proofs.Graph.Library
import FlowDiagram.Proofs.Layout.Waypoints
import FlowDiagram.Proofs.Layout.Report
import FlowDiagram.Proofs.Layout.Containment
import FlowDiagram.Proofs.Svg.Drawing
import FlowDiagram.Proofs.Drawing
import FlowDiagram.Proofs.Agreement
import FlowDiagram.Proofs.Svg.Rendering
import FlowDiagram.Proofs.Svg.Attributes
import FlowDiagram.Proofs.Svg.Identifiers
import FlowDiagram.Proofs.Svg.Legality
import FlowDiagram.Proofs.Svg.Coordinate
import FlowDiagram.Proofs.Raster.Bounds
import FlowDiagram.Proofs.Raster.Lookup
import FlowDiagram.Proofs.Trace.Routes
import FlowDiagram.Proofs.Trace.Sharing
import FlowDiagram.Proofs.Layout.ClosedForm
import FlowDiagram.Proofs.Layout.Parents
import FlowDiagram.Proofs.Layout.Spread
import FlowDiagram.Proofs.Session.History
