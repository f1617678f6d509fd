import FlowDiagram.Trace.Basic

namespace FlowDiagram

/-- What a map holds under a key: a value, or a list that may stand under other keys and in other maps too. -/
inductive Slot (α : Type) where
  | value (v : Value α)
  | shared (address : Nat)

/-- The lists and maps of a caller, and the stages it has recorded. A stage has a map of its own, but the lists in
it are the caller's. -/
structure Recorder (α : Type) where
  input : String
  diagnostics : List String := []
  /-- The contents of the lists, by address. -/
  lists : List (List (Value α)) := []
  maps : List (Table String (Slot α)) := []
  stages : List (String × Table String (Slot α)) := []

namespace Recorder

/-- What is put under a key: a new value, or what a map holds under a key already. -/
inductive Source (α : Type) where
  | new (v : Value α)
  | held (map : Nat) (key : String)

inductive Step (α : Type) where
  | make
  | set (map : Nat) (key : String) (source : Source α)
  | append (map : Nat) (key : String) (v : Value α)
  | add (name : String) (map : Nat)

variable {α : Type}

def slot? (r : Recorder α) (map : Nat) (key : String) : Option (Slot α) := r.maps[map]?.bind (·.get? key)

/-- A new list gets an address of its own. -/
def allot (r : Recorder α) : Value α → Slot α × Recorder α
  | .list vs => (.shared r.lists.length, { r with lists := r.lists ++ [vs] })
  | v => (.value v, r)

def put (r : Recorder α) (map : Nat) (key : String) (s : Slot α) : Recorder α :=
  { r with maps := r.maps.modify map (·.put key s) }

def make (r : Recorder α) : Recorder α := { r with maps := r.maps ++ [.empty] }

def set (r : Recorder α) (map : Nat) (key : String) : Source α → Except Fault (Recorder α)
  | .new v => return (r.allot v).2.put map key (r.allot v).1
  | .held map' key' =>
    match r.slot? map' key' with
    | none => .error (.missingKey key')
    | some s => return r.put map key s

/-- Adds a value at the end of the list under a key. -/
def append (r : Recorder α) (map : Nat) (key : String) (v : Value α) : Except Fault (Recorder α) :=
  match r.slot? map key with
  | none => .error (.missingKey key)
  | some (.value _) => return r
  | some (.shared a) => return { r with lists := r.lists.modify a (· ++ [v]) }

def add (r : Recorder α) (name : String) (map : Nat) : Recorder α :=
  match r.maps[map]? with
  | none => r
  | some held => { r with stages := r.stages ++ [(name, held)] }

def perform (r : Recorder α) : Step α → Except Fault (Recorder α)
  | .make => return r.make
  | .set map key source => r.set map key source
  | .append map key v => r.append map key v
  | .add name map => return r.add name map

/-- A step that fails changes nothing. -/
def step (r : Recorder α) (s : Step α) : Recorder α := (r.perform s).toOption.getD r

def after (r : Recorder α) (steps : List (Step α)) : Recorder α := steps.foldl step r

def read (r : Recorder α) : Slot α → Value α
  | .value v => v
  | .shared a => .list (r.lists[a]?.getD [])

def view (r : Recorder α) (s : String × Table String (Slot α)) : Stage α :=
  ⟨s.1, ⟨s.2.entries.map fun e => (e.1, r.read e.2)⟩⟩

def trace (r : Recorder α) : Trace α := ⟨r.input, r.stages.map r.view, r.diagnostics⟩

end Recorder

end FlowDiagram
