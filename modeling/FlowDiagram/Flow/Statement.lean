import FlowDiagram.Flow.Basic
import FlowDiagram.Text.Blank

namespace FlowDiagram

def isWordChar (c : Char) : Bool := c.isAlphanum || c = '_'

/-- One line of a flow text: blank or a comment, a node, an edge, a bare word, or none of these. A node is a
keyword, an identifier and a label in double quotes, and may name an actor, as in
task t "Review" [actor: Alice] or task t "Review" actor="Alice". An edge joins two identifiers by --> or ->,
and may have a label between bars behind the arrow or at the end. Blanks may stand between any two of these
parts; only behind the keyword they must. -/
inductive Statement where
  | blank
  /-- A node, and the actor it was given without being a task. -/
  | node (node : Node) (dropped : Option String)
  /-- An edge; doubled when it had a label in both places. -/
  | edge (edge : Edge) (doubled : Bool)
  | word (text : String)
  | unknown (text : String)
  deriving DecidableEq, Repr

namespace Statement

open Text

def after? : List Char → List Char → Option (List Char)
  | [], cs => some cs
  | l :: ls, c :: cs => if l = c then after? ls cs else none
  | _ :: _, [] => none

theorem after?_eq_some {lead cs rest : List Char} :
    after? lead cs = some rest ↔ cs = lead ++ rest := by
  induction lead generalizing cs with
  | nil => simp [after?, eq_comm]
  | cons l ls ih =>
    cases cs with
    | nil => simp [after?]
    | cons c cs =>
      by_cases h : l = c
      · simp [after?, h, ih]
      · simp [after?, h, Ne.symm h]

def word? (cs : List Char) : Option (List Char × List Char) :=
  if cs.takeWhile isWordChar = [] then none
  else some (cs.takeWhile isWordChar, cs.dropWhile isWordChar)

def upTo? (close : Char) (cs : List Char) : Option (List Char × List Char) :=
  match cs.dropWhile (· ≠ close) with
  | [] => none
  | _ :: rest => some (cs.takeWhile (· ≠ close), rest)

def atEnd (cs : List Char) : Bool := dropBlanks cs = []

def keyword? (cs : List Char) : Option (Kind × List Char) :=
  Kind.all.findSome? fun k =>
    match after? k.word.toList cs with
    | some (c :: rest) => if isBlank c then some (k, dropBlanks rest) else none
    | _ => none

/-- The name in square brackets, behind the word actor and a colon. -/
def bracketedActor? (cs : List Char) : Option (List Char) := do
  let cs ← after? ['['] cs
  let cs ← after? "actor".toList (dropBlanks cs)
  let cs ← after? [':'] (dropBlanks cs)
  let (name, rest) ← upTo? ']' cs
  if atEnd rest then some name else none

/-- The name in double quotes, behind the word actor and an equals sign. -/
def quotedActor? (cs : List Char) : Option (List Char) := do
  let cs ← after? "actor".toList cs
  let cs ← after? ['='] (dropBlanks cs)
  let cs ← after? ['"'] (dropBlanks cs)
  let (name, rest) ← upTo? '"' cs
  if atEnd rest then some name else none

def actor? (cs : List Char) : Option (Option (List Char)) :=
  if atEnd cs then some none
  else ((bracketedActor? (dropBlanks cs)).or (quotedActor? (dropBlanks cs))).map some

/-- A name is trimmed; a blank one is none. -/
def name? (cs : List Char) : Option String :=
  if trim cs = [] then none else some (String.ofList (trim cs))

def node? (cs : List Char) : Option Node := do
  let (kind, cs) ← keyword? cs
  let (id, cs) ← word? cs
  let cs ← after? ['"'] (dropBlanks cs)
  let (label, cs) ← upTo? '"' cs
  let actor ← actor? cs
  some ⟨String.ofList id, kind, String.ofList label, actor.bind name?⟩

def ofNode (n : Node) : Statement :=
  if n.kind = .task then .node n none else .node { n with actor := none } n.actor

def arrow? (cs : List Char) : Option (List Char) :=
  (after? ['-', '-', '>'] cs).or (after? ['-', '>'] cs)

def bars? (cs : List Char) : Option (List Char × List Char) := do upTo? '|' (← after? ['|'] cs)

def arrowLabel? (cs : List Char) : Option (Option (List Char) × List Char) :=
  if cs.head? = some '|' then (bars? cs).map fun (label, rest) => (some label, dropBlanks rest)
  else some (none, cs)

def endLabel? (cs : List Char) : Option (Option (List Char)) :=
  if atEnd cs then some none
  else do
    let (label, rest) ← bars? (dropBlanks cs)
    if atEnd rest then some (some label) else none

/-- The label behind the arrow goes before the one at the end. -/
def edge? (cs : List Char) : Option (Edge × Bool) := do
  let (source, cs) ← word? cs
  let cs ← arrow? (dropBlanks cs)
  let (first, cs) ← arrowLabel? (dropBlanks cs)
  let (target, cs) ← word? cs
  let last ← endLabel? cs
  some (⟨String.ofList source, String.ofList target,
      String.ofList (trim ((first.or last).getD []))⟩, first.isSome && last.isSome)

/-- A comment begins with a number sign or two percent signs. -/
def isComment (cs : List Char) : Bool :=
  (after? ['#'] cs).isSome || (after? ['%', '%'] cs).isSome

/-- Reads a line that is trimmed and not blank. -/
def ofContent (cs : List Char) : Statement :=
  match node? cs with
  | some n => ofNode n
  | none =>
    match edge? cs with
    | some (e, doubled) => .edge e doubled
    | none => if cs.all isWordChar then .word (String.ofList cs) else .unknown (String.ofList cs)

def ofLine (line : List Char) : Statement :=
  if trim line = [] ∨ isComment (trim line) then .blank else ofContent (trim line)

end Statement

end FlowDiagram
