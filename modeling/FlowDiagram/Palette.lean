import FlowDiagram.Flow.Basic

namespace FlowDiagram

def Kind.fill : Kind → String
  | startEvent => "#e3f2fd"
  | task => "#fff3e0"
  | gateway => "#e8f5e9"
  | endEvent => "#ffebee"

def Kind.stroke : Kind → String
  | startEvent => "#1976d2"
  | task => "#f57c00"
  | gateway => "#43a047"
  | endEvent => "#c62828"

end FlowDiagram
