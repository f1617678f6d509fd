import FlowDiagram.Layout.Run
import FlowDiagram.Proofs.Flow.Document
import FlowDiagram.Proofs.Graph.Levels
import FlowDiagram.Proofs.Layout.Placement

namespace FlowDiagram

def Document.kinds (doc : Document) : Table String Kind :=
  .ofList (doc.nodes.map fun n => (n.id, n.kind))

/-- What a plan is made of: the levels of the graph, the places of the layers, and the routes. -/
structure Settings.Planned {α : Type} [Scalar α] (s : Settings α) (doc : Document) (p : Plan α) : Prop where
  graph : p.graph = .build (doc.nodes.map (·.id)) doc.edges
  levels : Levels.assign p.graph doc.nodes = .ok p.levels
  positions : s.spacing.positions p.levels.layers p.graph.parents doc.kinds = .ok p.positions
  declared : p.nodes.map (·.toNode) = doc.nodes
  place : ∀ n ∈ p.nodes, p.positions.get? n.id = some ⟨n.x, n.y⟩
  level : ∀ n ∈ p.nodes, ∃ k : Nat, p.levels.level.get? n.id = some k ∧ n.level = k
  edges : p.edges = Route.all s.spacing.leftMargin p.nodes doc.edges

theorem Document.kinds_node {doc : Document} (hn : (doc.nodes.map (·.id)).Nodup) {n : Node}
    (h : n ∈ doc.nodes) : doc.kinds.get? n.id = some n.kind := by
  have hkeys : ((doc.nodes.map fun n => (n.id, n.kind)).map (·.1)).Nodup := by
    rw [List.map_map]
    exact hn
  exact (Table.get?_ofList hkeys n.id n.kind).mpr (List.mem_map.mpr ⟨n, h, rfl⟩)

theorem Document.kinds_layers {doc : Document} (hn : (doc.nodes.map (·.id)).Nodup)
    {layers : List (List String)} (h : layers.flatten.Perm (doc.nodes.map (·.id))) :
    ∀ id ∈ layers.flatten, ∃ kind, doc.kinds.get? id = some kind := by
  intro id hid
  obtain ⟨n, hm, rfl⟩ := List.mem_map.mp (h.mem_iff.mp hid)
  exact ⟨n.kind, kinds_node hn hm⟩

namespace Settings

variable {α : Type} [Scalar α] {s : Settings α} {doc : Document} {p : Plan α}

theorem plan_spec (s : Settings α) (hne : doc.nodes ≠ [])
    (hn : (doc.nodes.map (·.id)).Nodup) : ∃ p, s.plan doc = .ok p ∧ s.Planned doc p := by
  obtain ⟨start, -, -, l, reached, hl, -, hsound⟩ := Levels.assign_sound doc.edges hne hn
  have hlayers := hsound.perm hn
  obtain ⟨t, ht, hkeys⟩ := s.spacing.positions_keys hsound.layered.nodup
    (Graph.build (doc.nodes.map (·.id)) doc.edges).parents (Document.kinds_layers hn hlayers)
  have hfound : ∀ n ∈ doc.nodes, ∃ q k, t.get? n.id = some q ∧ l.level.get? n.id = some k := by
    intro n hm
    have hid := hlayers.mem_iff.mpr (List.mem_map_of_mem (f := (·.id)) hm)
    obtain ⟨q, hq⟩ := Table.exists_of_mem_keys (hkeys.mem_iff.mpr hid)
    obtain ⟨k, hk⟩ := Table.exists_of_mem_keys (hsound.layered.keys ▸ hid)
    exact ⟨q, k, hq, hk⟩
  -- The planned node in terms of look-ups that cannot fail.
  let placed (n : Node) : PlacedNode α :=
    { toNode := n
      x := ((t.get? n.id).map Point.x).getD ((0 : Nat) : α)
      y := ((t.get? n.id).map Point.y).getD ((0 : Nat) : α)
      level := ((l.level.get? n.id).getD 0 : Nat) }
  have hplaced : ∀ n ∈ doc.nodes, (do
      let q ← t.find n.id
      return { toNode := n, x := q.x, y := q.y, level := (← l.level.find n.id : Nat) }) =
      Except.ok (placed n) := by
    intro n hm
    obtain ⟨q, k, hq, hk⟩ := hfound n hm
    rw [Table.find_eq_ok hq, Table.find_eq_ok hk]
    simp only [placed, hq, hk]
    rfl
  refine ⟨⟨_, l, t, doc.nodes.map placed, Route.all s.spacing.leftMargin _ doc.edges⟩, ?_,
    ⟨rfl, hl, ht, ?_, ?_, ?_, rfl⟩⟩
  · rw [plan]
    change (Levels.assign _ doc.nodes).bind _ = _
    rw [hl]
    change (s.spacing.positions _ _ doc.kinds).bind _ = _
    rw [ht]
    change Except.bind (List.mapM _ doc.nodes) _ = _
    rw [mapM_eq_ok hplaced]
    rfl
  · rw [List.map_map]
    exact List.map_id _
  · intro n hn
    obtain ⟨m, hm, rfl⟩ := List.mem_map.mp hn
    obtain ⟨q, k, hq, hk⟩ := hfound m hm
    simp only [placed, hq]
    rfl
  · intro n hn
    obtain ⟨m, hm, rfl⟩ := List.mem_map.mp hn
    obtain ⟨q, k, hq, hk⟩ := hfound m hm
    refine ⟨k, hk, ?_⟩
    simp only [placed, hk]
    rfl

omit [Scalar α] in
theorem ids_of_declared {nodes : List (PlacedNode α)} (h : nodes.map (·.toNode) = doc.nodes) :
    nodes.map (·.id) = doc.nodes.map (·.id) := by
  rw [← h, List.map_map]
  rfl

namespace Planned

theorem toNode_mem (h : s.Planned doc p) {n : PlacedNode α} (hn : n ∈ p.nodes) :
    n.toNode ∈ doc.nodes := by
  rw [← h.declared]
  exact List.mem_map_of_mem hn

theorem id_mem (h : s.Planned doc p) {n : PlacedNode α} (hn : n ∈ p.nodes) :
    n.id ∈ doc.nodes.map (·.id) := List.mem_map_of_mem (h.toNode_mem hn)

theorem sound (h : s.Planned doc p) (hne : doc.nodes ≠ []) (hn : (doc.nodes.map (·.id)).Nodup) :
    ∃ reached, Levels.Sound p.graph (doc.nodes.map (·.id)) reached p.levels := by
  obtain ⟨start, -, -, l, reached, hl, -, hsound⟩ := Levels.assign_sound doc.edges hne hn
  rw [← h.graph] at hl hsound
  rw [h.levels] at hl
  obtain rfl := Except.ok.inj hl
  exact ⟨reached, hsound⟩

end Planned

end Settings

end FlowDiagram
