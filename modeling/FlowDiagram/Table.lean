import FlowDiagram.Fault

namespace FlowDiagram

/-- The list without repeats: of equal entries the first is kept. -/
def distinct {κ : Type} [DecidableEq κ] : List κ → List κ
  | [] => []
  | k :: ks => k :: (distinct ks).filter (· ≠ k)

theorem mem_distinct {κ : Type} [DecidableEq κ] {k : κ} {ks : List κ} :
    k ∈ distinct ks ↔ k ∈ ks := by
  induction ks with
  | nil => simp [distinct]
  | cons a ks ih => by_cases h : k = a <;> simp [distinct, h, ih]

theorem nodup_distinct {κ : Type} [DecidableEq κ] (ks : List κ) : (distinct ks).Nodup := by
  induction ks with
  | nil => simp [distinct]
  | cons a ks ih =>
    simp only [distinct, List.nodup_cons, List.mem_filter]
    exact ⟨by simp, ih.filter _⟩

structure Table (κ ν : Type) where
  entries : List (κ × ν)

namespace Table

variable {κ ν : Type} [DecidableEq κ]

def empty : Table κ ν := ⟨[]⟩

def keys (t : Table κ ν) : List κ := t.entries.map (·.1)

def lookup (k : κ) : List (κ × ν) → Option ν
  | [] => none
  | e :: es => if e.1 = k then some e.2 else lookup k es

def get? (t : Table κ ν) (k : κ) : Option ν := lookup k t.entries

/-- A key that is present keeps its place and takes the new value; a new key goes to the end. -/
def store (k : κ) (v : ν) : List (κ × ν) → List (κ × ν)
  | [] => [(k, v)]
  | e :: es => if e.1 = k then (k, v) :: es else e :: store k v es

def put (t : Table κ ν) (k : κ) (v : ν) : Table κ ν := ⟨store k v t.entries⟩

def putAll (t : Table κ ν) (es : List (κ × ν)) : Table κ ν := es.foldl (fun t e => t.put e.1 e.2) t

def ofList (es : List (κ × ν)) : Table κ ν := empty.putAll es

theorem lookup_store (k k' : κ) (v : ν) (es : List (κ × ν)) :
    lookup k' (store k v es) = if k = k' then some v else lookup k' es := by
  induction es with
  | nil => simp [store, lookup]
  | cons e es ih =>
    by_cases h : e.1 = k
    · by_cases h' : k = k' <;> simp [store, lookup, h, h']
    · by_cases h' : k = k'
      · subst h'; simp [store, lookup, h, ih]
      · by_cases h'' : e.1 = k'
        · subst h''; simp [store, lookup, h, Ne.symm h]
        · simp [store, lookup, h, h', h'', ih]

theorem get?_put (t : Table κ ν) (k k' : κ) (v : ν) :
    (t.put k v).get? k' = if k = k' then some v else t.get? k' := lookup_store k k' v t.entries

theorem get?_isSome (t : Table κ ν) (k : κ) : (t.get? k).isSome = true ↔ k ∈ t.keys := by
  obtain ⟨es⟩ := t
  simp only [get?, keys]
  induction es with
  | nil => simp [lookup]
  | cons e es ih =>
    by_cases h : e.1 = k
    · simp [lookup, h]
    · simp [lookup, h, ih, Ne.symm h]

theorem keys_put (t : Table κ ν) (k : κ) (v : ν) :
    (t.put k v).keys = if k ∈ t.keys then t.keys else t.keys ++ [k] := by
  obtain ⟨es⟩ := t
  simp only [put, keys]
  induction es with
  | nil => simp [store]
  | cons e es ih =>
    by_cases h : e.1 = k
    · simp [store, h]
    · by_cases h' : k ∈ es.map (·.1)
      · simp only [h', if_true] at ih
        simp [store, h, ih, List.mem_cons_of_mem _ h']
      · simp only [h', if_false] at ih
        simp [store, h, ih, h', Ne.symm h]

end Table

def Table.find {ν : Type} (t : Table String ν) (id : String) : Except Fault ν :=
  match t.get? id with
  | some v => .ok v
  | none => .error (.missingKey id)

end FlowDiagram
