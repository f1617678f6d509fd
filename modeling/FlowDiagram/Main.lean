import FlowDiagram.Gallery

/-- Fonts do not matter here, since no pixels are made. -/
def main : IO UInt32 := do
  match FlowDiagram.Gallery.whole ⟨fun _ => false, fun _ => true, true, fun _ _ => ⟨0, 0, 0, 0⟩⟩ with
  | .ok showing =>
    for (name, content) in showing.files do
      IO.FS.writeFile name content
    IO.print showing.printed
    return 0
  | .error fault =>
    IO.eprintln fault.message
    return 1
