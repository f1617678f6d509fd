import FlowDiagram.Proofs.Graph.Alike

namespace FlowDiagram

/-- The same nodes and edges in another order, with the same start, and with the edges of each source in
the same order. -/
structure Reordering (nodes nodes' : List Node) (edges edges' : List Edge) : Prop where
  node_perm : nodes'.Perm nodes
  same_start : startNode nodes' = startNode nodes
  edge_perm : edges'.Perm edges
  by_source : ∀ id, edges'.filter (·.source = id) = edges.filter (·.source = id)

theorem distinct_perm {κ : Type} [DecidableEq κ] {ks ks' : List κ} (h : ks.Perm ks') :
    (distinct ks).Perm (distinct ks') := by
  apply (List.perm_ext_iff_of_nodup (nodup_distinct ks) (nodup_distinct ks')).mpr
  intro k
  rw [mem_distinct, mem_distinct]
  exact h.mem_iff

namespace Graph

theorem successors_build (ids : List String) (edges : List Edge) (u : String) :
    (build ids edges).successors u = (distinct (pairs ids (edges.filter (·.source = u)))).map (·.2) := by
  have hpairs : (pairs ids edges).filter (fun a => a.1 = u) = pairs ids (edges.filter (·.source = u)) := by
    rw [pairs, pairs, List.filter_map, List.filter_filter, List.filter_filter]
    congr 1
    apply List.filter_congr
    intro e _
    exact Bool.and_comm _ _
  rw [successors, arcs_build, filter_distinct, hpairs]

end Graph

namespace Reordering

variable {nodes nodes' : List Node} {edges edges' : List Edge}

theorem ids (h : Reordering nodes nodes' edges edges') : (nodes'.map (·.id)).Perm (nodes.map (·.id)) :=
  h.node_perm.map _

theorem pairs_eq (h : Reordering nodes nodes' edges edges') :
    Graph.pairs (nodes'.map (·.id)) = Graph.pairs (nodes.map (·.id)) := by
  funext es
  have hmissing (e : Edge) : e.missing (nodes'.map (·.id)) = e.missing (nodes.map (·.id)) := by
    simp only [Edge.missing, h.ids.mem_iff]
  simp only [Graph.pairs, hmissing]

theorem successors (h : Reordering nodes nodes' edges edges') (u : String) :
    (Graph.build (nodes'.map (·.id)) edges').successors u =
      (Graph.build (nodes.map (·.id)) edges).successors u := by
  rw [Graph.successors_build, Graph.successors_build, h.by_source, h.pairs_eq]

theorem predecessors (h : Reordering nodes nodes' edges edges') (v : String) :
    ((Graph.build (nodes'.map (·.id)) edges').predecessors v).Perm
      ((Graph.build (nodes.map (·.id)) edges).predecessors v) := by
  have harcs : (Graph.build (nodes'.map (·.id)) edges').arcs.Perm
      (Graph.build (nodes.map (·.id)) edges).arcs := by
    rw [Graph.arcs_build, Graph.arcs_build, h.pairs_eq]
    exact distinct_perm ((h.edge_perm.filter _).map _)
  exact (harcs.filter _).map _

theorem alike (h : Reordering nodes nodes' edges edges') (start : String) :
    (Graph.build (nodes.map (·.id)) edges).Alike (Graph.build (nodes'.map (·.id)) edges') start where
  size := (distinct_perm h.ids).length_eq
  mem_nodes := by rw [Graph.mem_nodes_build, Graph.mem_nodes_build, h.ids.mem_iff]
  children u k _ seen _ := by rw [h.successors]

theorem assign (h : Reordering nodes nodes' edges edges') (hn : (nodes.map (·.id)).Nodup) :
    Levels.assign (.build (nodes'.map (·.id)) edges') nodes' =
      Levels.assign (.build (nodes.map (·.id)) edges) nodes :=
  Levels.assign_congr (Graph.proper_build _ _) h.same_start h.node_perm hn fun start _ => h.alike start.id

end Reordering

end FlowDiagram
