import FlowDiagram.Proofs.Svg.Numbers

namespace FlowDiagram

end FlowDiagram
