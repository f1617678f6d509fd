import FlowDiagram.Fault

namespace FlowDiagram

inductive Kind where
  | startEvent
  | task
  | gateway
  | endEvent
  deriving DecidableEq, Repr

inductive Shape where
  | circle
  | rectangle
  | diamond
  deriving DecidableEq, Repr

namespace Kind

def all : List Kind := [startEvent, task, gateway, endEvent]

def word : Kind → String
  | startEvent => "startEvent"
  | task => "task"
  | gateway => "gateway"
  | endEvent => "endEvent"

def ofWord (name : String) : Except Fault Kind :=
  match all.find? fun k => k.word = name with
  | some k => .ok k
  | none => .error (.unknownKind name)

theorem ofWord_word (k : Kind) : ofWord k.word = .ok k := by cases k <;> rfl

def shape : Kind → Shape
  | task => .rectangle
  | gateway => .diamond
  | _ => .circle

def width : Kind → Nat
  | task => 100
  | gateway => 80
  | _ => 60

def height : Kind → Nat
  | task => 50
  | gateway => 80
  | _ => 60

def widest : Nat := 100

def tallest : Nat := 80

theorem width_le (k : Kind) : k.width ≤ widest := by cases k <;> decide

theorem height_le (k : Kind) : k.height ≤ tallest := by cases k <;> decide

end Kind

/-- A declared node. Only tasks have an actor, who performs them. -/
structure Node where
  id : String
  kind : Kind
  label : String
  actor : Option String := none
  deriving DecidableEq, Repr

/-- A directed edge; an empty label is none. -/
structure Edge where
  source : String
  target : String
  label : String := ""
  deriving DecidableEq, Repr

end FlowDiagram
