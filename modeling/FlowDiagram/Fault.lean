import FlowDiagram.Text.Quoted

namespace FlowDiagram

inductive Fault where
  /-- The least distance of two nodes in a row is smaller than the widest shape. -/
  | minSpacing
  /-- The distance of two rows is not larger than the tallest shape. -/
  | levelSpacing
  | baseY
  | leftMargin
  | scale
  | unknownKind (name : String)
  /-- Something that is not a number has no nearest integer. -/
  | notANumber
  | infinite
  /-- An integer lies beyond the range of the coordinates. -/
  | integerTooLarge
  /-- Half of an integer lies beyond the range of the coordinates. -/
  | quotientTooLarge
  | outOfRange
  | notInGraph (id : String)
  | missingKey (id : String)
  | noSuchFile (path : String)
  | isDirectory (path : String)
  | notDirectory (path : String)
  deriving DecidableEq, Repr

def Fault.message : Fault → String
  | minSpacing => "min_spacing must be at least 100 (widest shape)"
  | levelSpacing => "level_spacing must be greater than 80 (tallest shape)"
  | baseY => "base_y must be at least 40.0 so level 0 fits"
  | leftMargin => "left_margin must not be negative"
  | scale => "scale must be a positive integer"
  | unknownKind name => Text.quoted name ++ " is not a valid NodeKind"
  | notANumber => "cannot convert float NaN to integer"
  | infinite => "cannot convert float infinity to integer"
  | integerTooLarge => "int too large to convert to float"
  | quotientTooLarge => "integer division result too large for a float"
  | outOfRange => "list index out of range"
  | notInGraph id => "The node " ++ id ++ " is not in the digraph."
  | missingKey id => Text.quoted id
  | noSuchFile path => "[Errno 2] No such file or directory: " ++ Text.quoted path
  | isDirectory path => "[Errno 21] Is a directory: " ++ Text.quoted path
  | notDirectory path => "[Errno 20] Not a directory: " ++ Text.quoted path

end FlowDiagram
