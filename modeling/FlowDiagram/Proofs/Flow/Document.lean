import FlowDiagram.Proofs.Table
import FlowDiagram.Flow.Document

namespace FlowDiagram

namespace Statement

def asNode? : Statement → Option Node
  | node n _ => some n
  | _ => none

def asEdge? : Statement → Option Edge
  | edge e _ => some e
  | _ => none

theorem asNode?_eq_some {s : Statement} {n : Node} :
    s.asNode? = some n ↔ ∃ dropped, s = .node n dropped := by
  cases s <;> simp [asNode?]

theorem asEdge?_eq_some {s : Statement} {e : Edge} :
    s.asEdge? = some e ↔ ∃ doubled, s = .edge e doubled := by
  cases s <;> simp [asEdge?]

/-- A line of which nothing is left out. -/
inductive Plain : Statement → Prop
  | blank : Plain .blank
  | node (n : Node) : Plain (.node n none)
  | edge (e : Edge) : Plain (.edge e false)

end Statement

namespace Reading

/-- The declared nodes are filed under their own ids, each once. -/
structure Filed (r : Reading) : Prop where
  nodup : r.declared.keys.Nodup
  own : ∀ e ∈ r.declared.entries, e.2.2.id = e.1

theorem Filed.take {r : Reading} (h : r.Filed) (line : Nat) (s : Statement) :
    (r.take line s).Filed := by
  cases s with
  | blank => exact h
  | node n dropped =>
    refine ⟨Table.nodup_keys_put h.nodup n.id (line, n), ?_⟩
    intro e he
    obtain rfl | he := Table.mem_entries_put he
    · rfl
    · exact h.own e he
  | edge e doubled => exact ⟨h.nodup, h.own⟩
  | word text => exact ⟨h.nodup, h.own⟩
  | unknown text => exact ⟨h.nodup, h.own⟩

theorem Filed.foldl_take {r : Reading} (h : r.Filed) (ss : List (Statement × Nat)) :
    (ss.foldl (fun (r : Reading) s => r.take s.2 s.1) r).Filed := by
  induction ss generalizing r with
  | nil => exact h
  | cons s ss ih => exact ih (h.take s.2 s.1)

theorem Filed.ids {r : Reading} (h : r.Filed) :
    r.document.nodes.map (·.id) = r.declared.keys := by
  rw [document, List.map_map]
  exact List.map_congr_left fun e he => h.own e he

theorem edges_foldl_take (r : Reading) (ss : List (Statement × Nat)) :
    (ss.foldl (fun (r : Reading) s => r.take s.2 s.1) r).edges =
      r.edges ++ ss.filterMap fun s => s.1.asEdge? := by
  induction ss generalizing r with
  | nil => simp
  | cons s ss ih =>
    obtain ⟨s, line⟩ := s
    rw [List.foldl_cons, ih]
    cases s <;> simp [take, warn, Statement.asEdge?]

theorem declared_foldl_take (r : Reading) (ss : List (Statement × Nat)) :
    (ss.foldl (fun (r : Reading) s => r.take s.2 s.1) r).declared =
      r.declared.putAll (ss.filterMap fun s => s.1.asNode?.map fun n => (n.id, s.2, n)) := by
  induction ss generalizing r with
  | nil => rfl
  | cons s ss ih =>
    obtain ⟨s, line⟩ := s
    rw [List.foldl_cons, ih]
    cases s <;> rfl

theorem nodes_foldl_take {ss : List (Statement × Nat)}
    (hn : ((ss.filterMap fun s => s.1.asNode?).map (·.id)).Nodup) :
    (ss.foldl (fun (r : Reading) s => r.take s.2 s.1) {}).document.nodes =
      ss.filterMap fun s => s.1.asNode? := by
  have hkeys : (ss.filterMap fun s => s.1.asNode?.map fun n => (n.id, s.2, n)).map (·.1) =
      (ss.filterMap fun s => s.1.asNode?).map (·.id) := by
    simp [List.map_filterMap, Function.comp_def]
  have hentries := Table.entries_ofList (hkeys ▸ hn)
  calc
    _ = (Table.ofList (ss.filterMap fun s => s.1.asNode?.map fun n => (n.id, s.2, n))).entries.map (·.2.2) := by
      rw [document, declared_foldl_take]
      rfl
    _ = _ := by
      rw [hentries]
      simp [List.map_filterMap, Function.comp_def]

theorem mem_of_mem_nodes {ss : List (Statement × Nat)} {n : Node}
    (h : n ∈ (ss.foldl (fun (r : Reading) s => r.take s.2 s.1) {}).document.nodes) :
    n ∈ ss.filterMap fun s => s.1.asNode? := by
  rw [document, declared_foldl_take] at h
  obtain ⟨e, he, rfl⟩ := List.mem_map.mp h
  obtain he | he := Table.mem_entries_putAll he
  · cases he
  · obtain ⟨s, hs, hsome⟩ := List.mem_filterMap.mp he
    obtain ⟨m, hm, rfl⟩ := Option.map_eq_some_iff.mp hsome
    exact List.mem_filterMap.mpr ⟨s, hs, hm⟩

theorem diagnostics_foldl_take {r : Reading} {ss : List (Statement × Nat)}
    (hplain : ∀ s ∈ ss, s.1.Plain) (hn : ((ss.filterMap fun s => s.1.asNode?).map (·.id)).Nodup)
    (hnew : ∀ n ∈ ss.filterMap fun s => s.1.asNode?, n.id ∉ r.declared.keys) :
    (ss.foldl (fun (r : Reading) s => r.take s.2 s.1) r).diagnostics = r.diagnostics := by
  induction ss generalizing r with
  | nil => rfl
  | cons s ss ih =>
    obtain ⟨s, line⟩ := s
    obtain ⟨hs, hss⟩ := List.forall_mem_cons.mp hplain
    rw [List.foldl_cons]
    cases hs with
    | blank => exact ih hss hn hnew
    | edge e =>
      have hrest := ih (r := r.take line (.edge e false)) hss hn hnew
      exact hrest.trans (by simp [take, warn])
    | node n =>
      have hcons : ((Statement.node n none, line) :: ss).filterMap (fun s => s.1.asNode?) =
          n :: ss.filterMap fun s => s.1.asNode? := rfl
      rw [hcons] at hn hnew
      obtain ⟨hid, hn⟩ := List.nodup_cons.mp hn
      obtain ⟨hfirst, hrest⟩ := List.forall_mem_cons.mp hnew
      have hget := (Table.get?_eq_none_iff r.declared n.id).mpr hfirst
      have hkeys : (r.take line (.node n none)).declared.keys = r.declared.keys ++ [n.id] := by
        rw [take]
        exact (Table.keys_put ..).trans (if_neg hfirst)
      have hnew' : ∀ m ∈ ss.filterMap (fun s => s.1.asNode?),
          m.id ∉ (r.take line (.node n none)).declared.keys := by
        intro m hm hmem
        rw [hkeys, List.mem_append, List.mem_singleton] at hmem
        obtain hmem | hmem := hmem
        · exact hrest m hm hmem
        · exact hid (List.mem_map.mpr ⟨m, hm, hmem⟩)
      have hdone := ih hss hn hnew'
      exact hdone.trans (by simp [take, warn, hget])

end Reading

namespace Document

/-- The nodes that lines of the text declare, as often as they do. -/
def nodeLines (text : List Char) : List Node :=
  (Text.lines text).filterMap fun line => (Statement.ofLine line).asNode?

def edgeLines (text : List Char) : List Edge :=
  (Text.lines text).filterMap fun line => (Statement.ofLine line).asEdge?

theorem filterMap_statements {α : Type} (f : Statement → Option α) (text : List Char) :
    ((statements text).filterMap fun s => f s.1) =
      (Text.lines text).filterMap fun line => f (Statement.ofLine line) := by
  have hfst : (statements text).map (·.1) = (Text.lines text).map Statement.ofLine :=
    List.zipIdx_map_fst 1 _
  calc
    ((statements text).filterMap fun s => f s.1) = ((statements text).map (·.1)).filterMap f := by
      rw [List.filterMap_map]
      rfl
    _ = _ := by
      rw [hfst, List.filterMap_map]
      rfl

theorem edges_read (text : String) : (read text).edges = edgeLines text.toList := by
  have hedges := Reading.edges_foldl_take {} (statements text.toList)
  rw [filterMap_statements] at hedges
  exact hedges

theorem nodes_read {text : String} (hn : ((nodeLines text.toList).map (·.id)).Nodup) :
    (read text).nodes = nodeLines text.toList := by
  have hnodes : ((statements text.toList).filterMap fun s => s.1.asNode?) = nodeLines text.toList :=
    filterMap_statements Statement.asNode? text.toList
  rw [← hnodes] at hn ⊢
  exact Reading.nodes_foldl_take hn

theorem mem_nodeLines {text : String} {n : Node} (h : n ∈ (read text).nodes) :
    n ∈ nodeLines text.toList := by
  have hmem := Reading.mem_of_mem_nodes h
  rw [filterMap_statements] at hmem
  exact hmem

theorem diagnostics_read {text : String} (hn : ((nodeLines text.toList).map (·.id)).Nodup)
    (hplain : ∀ line ∈ Text.lines text.toList, (Statement.ofLine line).Plain) :
    (read text).diagnostics = [] := by
  have hnodes : ((statements text.toList).filterMap fun s => s.1.asNode?) = nodeLines text.toList :=
    filterMap_statements Statement.asNode? text.toList
  apply Reading.diagnostics_foldl_take
  · intro s hs
    have hmem : s.1 ∈ (statements text.toList).map (·.1) := List.mem_map_of_mem hs
    rw [statements, List.zipIdx_map_fst] at hmem
    obtain ⟨line, hline, heq⟩ := List.mem_map.mp hmem
    rw [← heq]
    exact hplain line hline
  · rw [hnodes]
    exact hn
  · simp [Table.keys, Table.empty]

end Document

theorem Document.nodup_ids (text : String) : ((read text).nodes.map (·.id)).Nodup := by
  have h : (Reading.Filed {}) := ⟨List.nodup_nil, by simp [Table.empty]⟩
  have hr := h.foldl_take (statements text.toList)
  rw [read, hr.ids]
  exact hr.nodup

end FlowDiagram
