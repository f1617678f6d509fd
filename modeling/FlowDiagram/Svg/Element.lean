namespace FlowDiagram.Svg

/-- An element with its attributes, in order, its text and its children behind the text. -/
inductive Element (ν : Type) where
  | node (tag : String) (attrs : List (String × ν)) (text : String) (children : List (Element ν))

namespace Element

mutual

/-- Turns every attribute value into another, in the order of the written text. -/
def mapAttrs {ν μ ε : Type} (f : ν → Except ε μ) : Element ν → Except ε (Element μ)
  | node tag attrs text children => do
    let attrs ← attrs.mapM fun a => return (a.1, ← f a.2)
    return node tag attrs text (← mapAllAttrs f children)

def mapAllAttrs {ν μ ε : Type} (f : ν → Except ε μ) : List (Element ν) → Except ε (List (Element μ))
  | [] => return []
  | e :: es => return (← mapAttrs f e) :: (← mapAllAttrs f es)

end

def escapeText (c : Char) : List Char :=
  if c = '&' then "&amp;".toList
  else if c = '<' then "&lt;".toList
  else if c = '>' then "&gt;".toList
  else [c]

/-- In attribute values quotes and the characters that readers turn into spaces are escaped too. -/
def escapeAttr (c : Char) : List Char :=
  if c = '"' then "&quot;".toList
  else if c = '\r' then "&#13;".toList
  else if c = '\n' then "&#10;".toList
  else if c = '\t' then "&#09;".toList
  else escapeText c

def writeAttr (a : String × String) : List Char :=
  ' ' :: a.1.toList ++ '=' :: '"' :: a.2.toList.flatMap escapeAttr ++ ['"']

mutual

/-- An element without text and children closes itself. -/
def write : Element String → List Char
  | node tag attrs text children =>
    '<' :: tag.toList ++ attrs.flatMap writeAttr ++
      if text = "" ∧ children.length = 0 then [' ', '/', '>']
      else '>' :: text.toList.flatMap escapeText ++ writeAll children ++
        '<' :: '/' :: tag.toList ++ ['>']

def writeAll : List (Element String) → List Char
  | [] => []
  | e :: es => write e ++ writeAll es

end

end Element

end FlowDiagram.Svg
