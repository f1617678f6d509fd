import FlowDiagram.Proofs.Graph.Levels

namespace FlowDiagram

namespace Graph

/-- What a layer leads to, in the order of its ids and of their children: each id where it stands first,
without those that were there before. -/
def discoveries (g : Graph) (layer before : List String) : List String :=
  distinct ((layer.flatMap fun id => (g.children.get? id).getD []).filter (· ∉ before))

theorem Proper.discoveries_eq {g : Graph} (h : g.Proper) {layer : List String}
    (hl : ∀ id ∈ layer, id ∈ g.nodes) (before : List String) :
    g.discoveries layer before = g.next layer before := by
  have hchildren : (layer.flatMap fun id => (g.children.get? id).getD []) = layer.flatMap g.successors := by
    apply List.flatMap_congr
    intro id hid
    rw [get?_children, if_pos (hl id hid)]
  rw [discoveries, hchildren, h.next_eq]

end Graph

theorem Ranking.layers_trail_eq (r : Ranking) (ids : List String) :
    (r.trail ids).layers = r.layers ++ if ids = [] then [] else [ids] := by
  by_cases h : ids = []
  · rw [trail, if_pos h, if_pos h, List.append_nil]
  · rw [layers_trail r h, if_neg h]

namespace Levels

namespace Sound

variable {g : Graph} {ids : List String} {reached : Ranking} {l : Levels}

theorem head_reached (h : Sound g ids reached l) : reached.layers.head? = some [l.start] := by
  have hpos : 0 < reached.layers.length := h.exhausted.all l.start 0 distance_self
  obtain ⟨rest, hfirst⟩ := h.first
  rw [List.head?_eq_getElem?, ← h.layers_reached hpos, hfirst]
  rfl

theorem mem_unreached_iff (h : Sound g ids reached l) (id : String) :
    id ∈ l.unreached ↔ id ∈ ids ∧ ¬ ∃ k, Path g.Joins l.start k id := by
  rw [h.mem_unreached, h.mem_flatten_iff]

theorem below_eq (h : Sound g ids reached l) (hg : g.Proper) (hids : ∀ id ∈ ids, id ∈ g.nodes) {k : Nat}
    {layer : List String} (hk : reached.layers[k]? = some layer) :
    (reached.layers[k + 1]?).getD [] = g.discoveries layer (reached.layers.take (k + 1)).flatten := by
  have hnodes : ∀ id ∈ layer, id ∈ g.nodes := fun id hid =>
    hids id (h.declared id (List.mem_flatten_of_mem (List.mem_of_getElem? hk) hid))
  rw [hg.discoveries_eq hnodes]
  exact h.exhausted.below_eq hk

end Sound

/-- The layers share out the ids, and the place of its layer is the level of an id. The start node is the
first layer; each further one holds what the layer above leads to, in the order of its ids and of their
children, as far as no layer holds it yet. The ids that no path leads to are the last layer, in the order
of their code points. -/
theorem assign_discovery (nodes : List Node) (edges : List Edge) (hne : nodes ≠ [])
    (hn : (nodes.map (·.id)).Nodup) :
    ∃ start l, startNode nodes = .ok start ∧
      assign (.build (nodes.map (·.id)) edges) nodes = .ok l ∧
      (l.layers.flatten.Perm (nodes.map (·.id)) ∧ ∀ layer ∈ l.layers, layer ≠ []) ∧
      (∀ id k, l.level.get? id = some k ↔ ∃ layer, l.layers[k]? = some layer ∧ id ∈ layer) ∧
      (l.unreached.Pairwise (· < ·) ∧ ∀ id, id ∈ l.unreached ↔
        id ∈ nodes.map (·.id) ∧ ¬ ∃ k, Path (Linked (nodes.map (·.id)) edges) start.id k id) ∧
      ∃ reached, l.layers = reached ++ (if l.unreached = [] then [] else [l.unreached]) ∧
        reached.head? = some [start.id] ∧
        ∀ k layer, reached[k]? = some layer → (reached[k + 1]?).getD [] =
          (Graph.build (nodes.map (·.id)) edges).discoveries layer (reached.take (k + 1)).flatten := by
  obtain ⟨start, -, hstart, l, reached, hl, hls, h⟩ := assign_sound edges hne hn
  have hg := Graph.proper_build (nodes.map (·.id)) edges
  have hids : ∀ id ∈ nodes.map (·.id), id ∈ (Graph.build (nodes.map (·.id)) edges).nodes :=
    fun id hid => (Graph.mem_nodes_build ..).mpr hid
  have hlayers : l.layers = reached.layers ++ if l.unreached = [] then [] else [l.unreached] := by
    rw [← Ranking.layers_trail_eq, ← h.ranking]
  refine ⟨start, l, hstart, hl, ⟨h.perm hn, h.filled⟩, h.layered.get?_eq_some_iff, ⟨h.sorted, ?_⟩,
    reached.layers, hlayers, hls ▸ h.head_reached, fun k layer hk => h.below_eq hg hids hk⟩
  rw [← Graph.joins_build, ← hls]
  exact h.mem_unreached_iff

/-- Two siblings with a child in common, which stands where the first of them leads to it, after an arc
that was read later. -/
theorem assign_discovery_siblings :
    let nodes : List Node := [⟨"y", .task, "", none⟩, ⟨"a", .task, "", none⟩, ⟨"s", .startEvent, "", none⟩,
      ⟨"b", .gateway, "", none⟩, ⟨"c", .task, "", none⟩, ⟨"d", .task, "", none⟩, ⟨"x", .endEvent, "", none⟩]
    let edges : List Edge := [⟨"s", "b", ""⟩, ⟨"s", "a", ""⟩, ⟨"a", "c", ""⟩, ⟨"b", "d", ""⟩, ⟨"b", "c", ""⟩,
      ⟨"d", "s", ""⟩, ⟨"c", "d", ""⟩, ⟨"y", "a", ""⟩, ⟨"a", "z", ""⟩]
    nodes ≠ [] ∧ (nodes.map (·.id)).Nodup ∧ ∃ l,
      assign (.build (nodes.map (·.id)) edges) nodes = .ok l ∧
      l.layers = [["s"], ["b", "a"], ["d", "c"], ["x", "y"]] ∧ l.level.get? "c" = some 2 ∧
      (Graph.build (nodes.map (·.id)) edges).discoveries ["b", "a"] ["s", "b", "a"] = ["d", "c"] ∧
      ¬ ∃ k, Path (Linked (nodes.map (·.id)) edges) "s" k "y" := by
  intro nodes edges
  have hne : nodes ≠ [] := by decide
  have hn : (nodes.map (·.id)).Nodup := by decide
  refine ⟨hne, hn, ?_⟩
  have hcomputed : (assign (.build (nodes.map (·.id)) edges) nodes).toOption.map
      (fun l => (l.layers, l.unreached)) =
        some ([["s"], ["b", "a"], ["d", "c"], ["x", "y"]], ["x", "y"]) := by
    decide
  obtain ⟨start, l, hs, hl, -, hlevel, ⟨-, hunreached⟩, reached, hlayers, -, hbelow⟩ :=
    assign_discovery nodes edges hne hn
  obtain rfl : ⟨"s", .startEvent, "", none⟩ = start := Except.ok.inj hs
  rw [hl] at hcomputed
  obtain ⟨hall, hlast⟩ := Prod.mk.inj (Option.some.inj hcomputed)
  rw [hall, hlast] at hlayers
  change [["s"], ["b", "a"], ["d", "c"]] ++ [["x", "y"]] = reached ++ [["x", "y"]] at hlayers
  have hreached : [["s"], ["b", "a"], ["d", "c"]] = reached := List.append_cancel_right hlayers
  refine ⟨l, hl, hall, (hlevel "c" 2).mpr ⟨["d", "c"], by rw [hall]; rfl, by decide⟩, ?_, ?_⟩
  · subst hreached
    exact (hbelow 1 ["b", "a"] rfl).symm
  · exact ((hunreached "y").mp (by rw [hlast]; decide)).2

end Levels

end FlowDiagram
