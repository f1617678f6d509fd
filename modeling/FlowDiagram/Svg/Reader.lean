import FlowDiagram.Svg.Element

namespace FlowDiagram.Svg

/-- The characters that are escaped in texts, by what stands between the ampersand and the semicolon. -/
def textEscapes : List (List Char × Char) :=
  [("amp".toList, '&'), ("lt".toList, '<'), ("gt".toList, '>')]

def attrEscapes : List (List Char × Char) :=
  [("quot".toList, '"'), ("#13".toList, '\r'), ("#10".toList, '\n'), ("#09".toList, '\t')] ++ textEscapes

/-- Undoes the escapes; inside one, what has been read of its name comes first. -/
def unescapeFrom (escapes : List (List Char × Char)) : Option (List Char) → List Char → Option (List Char)
  | none, [] => some []
  | some _, [] => none
  | none, c :: cs =>
    if c = '&' then unescapeFrom escapes (some []) cs
    else (unescapeFrom escapes none cs).map (c :: ·)
  | some name, c :: cs =>
    if c = ';' then
      match escapes.lookup name with
      | some d => (unescapeFrom escapes none cs).map (d :: ·)
      | none => none
    else unescapeFrom escapes (some (name ++ [c])) cs

def unescape (escapes : List (List Char × Char)) (cs : List Char) : Option String :=
  (unescapeFrom escapes none cs).map String.ofList

/-- What stands between angle brackets: the beginning of an element, its end, or all of it. -/
inductive Tag where
  | opening (name : String) (attrs : List (String × String))
  | closing (name : String)
  | closed (name : String) (attrs : List (String × String))
  deriving DecidableEq

def attrName? : List Char → Option String
  | ' ' :: cs => if cs.getLast? = some '=' then some (String.ofList cs.dropLast) else none
  | _ => none

/-- The attributes of a tag that was split at its quotes, and whether the tag closes its element. -/
def readAttrs : List (List Char) → Option (List (String × String) × Bool)
  | [] => none
  | [rest] => if rest = [] then some ([], false) else if rest = [' ', '/'] then some ([], true) else none
  | key :: value :: rest => do
    let name ← attrName? key
    let value ← unescape attrEscapes value
    let (attrs, closed) ← readAttrs rest
    return ((name, value) :: attrs, closed)

def readTag : List Char → Option Tag
  | '/' :: name => some (.closing (String.ofList name))
  | cs => do
    let name := String.ofList (cs.takeWhile (· ≠ ' '))
    let (attrs, closed) ← readAttrs ((cs.dropWhile (· ≠ ' ')).splitOn '"')
    return if closed then .closed name attrs else .opening name attrs

def readPart (cs : List Char) : Option (Tag × String) :=
  match cs.splitOn '>' with
  | [tag, text] => do return (← readTag tag, ← unescape textEscapes text)
  | _ => none

namespace Element

def add (child : Element String) : Element String → Element String
  | node tag attrs text children => node tag attrs text (children ++ [child])

/-- Takes a tag in; the elements that are still open come with the innermost one first. Only an element that
begins has a text. -/
def nest : List (Element String) → Tag × String → Option (List (Element String))
  | es, (.opening name attrs, text) => some (node name attrs text [] :: es)
  | e :: es, (.closed name attrs, text) =>
    if text = "" then some (add (node name attrs "" []) e :: es) else none
  | node tag attrs inner children :: e :: es, (.closing name, text) =>
    if name = tag ∧ text = "" then some (add (node tag attrs inner children) e :: es) else none
  | _, _ => none

/-- The element that a text is, read inside a document that is open from the beginning to the end. -/
def read (cs : List Char) : Option (Element String) :=
  match cs.splitOn '<' with
  | [] :: parts => do
    let tags ← parts.mapM readPart
    match ← tags.foldlM nest [node "" [] "" []] with
    | [node _ _ _ [e]] => some e
    | _ => none
  | _ => none

mutual

def skeleton {ν : Type} : Element ν → Element Empty
  | node tag _ _ children => node tag [] "" (skeletons children)

def skeletons {ν : Type} : List (Element ν) → List (Element Empty)
  | [] => []
  | e :: es => skeleton e :: skeletons es

end

end Element

end FlowDiagram.Svg
