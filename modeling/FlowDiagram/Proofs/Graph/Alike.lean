import FlowDiagram.Proofs.Graph.Levels

namespace FlowDiagram

namespace Graph

/-- A traversal that looks at a node has seen all that is as near to the start as this node, or nearer;
what is then new behind the node is the same in both graphs. -/
structure Alike (g g' : Graph) (start : String) : Prop where
  size : g'.nodes.length = g.nodes.length
  mem_nodes : start ∈ g'.nodes ↔ start ∈ g.nodes
  children : ∀ u k, Distance g.Joins start u k → ∀ seen : List String,
    (∀ v j, j ≤ k → Distance g.Joins start v j → v ∈ seen) →
      (g'.successors u).filter (· ∉ seen) = (g.successors u).filter (· ∉ seen)

theorem found_congr {g g' : Graph} {layer seen : List String}
    (h : ∀ u ∈ layer, ∀ more, (g'.successors u).filter (· ∉ seen ++ more) =
      (g.successors u).filter (· ∉ seen ++ more)) : g'.found layer seen = g.found layer seen := by
  induction layer generalizing seen with
  | nil => rfl
  | cons u layer ih =>
    have hu := h u (List.mem_cons_self ..) []
    rw [List.append_nil] at hu
    rw [found, found, hu, ih]
    intro v hv more
    rw [List.append_assoc]
    exact h v (List.mem_cons_of_mem _ hv) _

section Alike

variable {g g' : Graph} {start : String} {r : Ranking}

theorem Explored.found_alike (h : Explored g start r) (ha : Alike g g' start)
    {before : List (List String)} {layer : List String} (hl : r.layers = before ++ [layer]) :
    g'.found layer r.layers.flatten = g.found layer r.layers.flatten := by
  have hlast : r.layers[before.length]? = some layer := by simp [hl]
  have hlen : r.layers.length = before.length + 1 := by simp [hl]
  apply found_congr
  intro u hu more
  apply ha.children u before.length ((h.distance _ _ hlast u).mp hu)
  intro v j hj hd
  have hv : v ∈ r.layers.flatten := h.mem_flatten_iff.mpr ⟨j, by omega, hd⟩
  exact List.mem_append_left _ hv

theorem Explored.walk_alike (hg : g.Proper) (hs : start ∈ g.nodes) (ha : Alike g g' start) (n : Nat)
    (h : Explored g start r) {before : List (List String)} {layer : List String}
    (hl : r.layers = before ++ [layer]) (hn : g.nodes.length ≤ r.layers.flatten.length + n) :
    g'.walk (layer.length + n) layer r.layers.flatten =
      g.walk (layer.length + n) layer r.layers.flatten := by
  induction n using Nat.strongRecOn generalizing r before layer with
  | ind n ih =>
    have hw := g.walk_layer n layer [] r.layers.flatten
    have hw' := g'.walk_layer n layer [] r.layers.flatten
    have hfound := h.found_alike ha hl
    have hnext : g'.next layer r.layers.flatten = g.next layer r.layers.flatten := by
      rw [next, next, hfound]
    rw [List.append_nil, List.nil_append] at hw hw'
    rw [hw, hw', hfound, hnext]
    -- The round was the same in both graphs; what is left to walk is shorter.
    congr 1
    have hle := h.length_next_le hg hs layer
    by_cases he : g.next layer r.layers.flatten = []
    · rw [he, walk_nil, walk_nil]
    · have hpos := List.length_pos_iff.mpr he
      obtain ⟨m, rfl⟩ := Nat.exists_eq_add_of_le
        (show (g.next layer r.layers.flatten).length ≤ n by omega)
      have hrest := ih m (by omega) (h.trail_next hg hl) (r.layers_trail he)
      rw [Ranking.flatten_layers_trail] at hrest
      exact hrest (by rw [List.length_append]; omega)

theorem Alike.traverse (ha : Alike g g' start) (hg : g.Proper) : g'.traverse start = g.traverse start := by
  by_cases hs : start ∈ g.nodes
  · have hpos : 0 < g.nodes.length := List.length_pos_of_mem hs
    have hfuel : g.nodes.length ≤ [start].length + (g.nodes.length - 1) := by
      rw [List.length_singleton]
      omega
    have hwalk := (explored_start g start).walk_alike hg hs ha (g.nodes.length - 1)
      (List.nil_append [[start]]).symm hfuel
    rw [List.length_singleton, show 1 + (g.nodes.length - 1) = g.nodes.length by omega] at hwalk
    rw [Graph.traverse, Graph.traverse, if_pos hs, if_pos (ha.mem_nodes.mpr hs), ha.size]
    exact congrArg Except.ok hwalk
  · have hs' : start ∉ g'.nodes := fun h => hs (ha.mem_nodes.mp h)
    rw [Graph.traverse, Graph.traverse, if_neg hs, if_neg hs']

end Alike

end Graph

namespace Levels

theorem sortIds_congr {ids ids' : List String} (h : ids.Perm ids') (hn : ids.Nodup) :
    sortIds ids = sortIds ids' := by
  have hperm : (sortIds ids).Perm (sortIds ids') :=
    ((sortIds_perm ids).trans h).trans (sortIds_perm ids').symm
  apply hperm.eq_of_pairwise _ (sortIds_sorted hn) (sortIds_sorted (h.nodup_iff.mp hn))
  intro a b _ _ hab hba
  exact absurd hba (String.lt_asymm hab)

/-- Alike graphs rank the nodes alike, and the order of the nodes does not count beyond the start. -/
theorem assign_congr {g g' : Graph} (hg : g.Proper) {nodes nodes' : List Node}
    (hstart : startNode nodes' = startNode nodes) (hp : nodes'.Perm nodes) (hn : (nodes.map (·.id)).Nodup)
    (ha : ∀ start, startNode nodes = .ok start → g.Alike g' start.id) :
    assign g' nodes' = assign g nodes := by
  rw [assign, assign, hstart]
  cases hs : startNode nodes with
  | error => rfl
  | ok start =>
    have hsort (keys : List String) : sortIds ((nodes'.map (·.id)).filter (· ∉ keys)) =
        sortIds ((nodes.map (·.id)).filter (· ∉ keys)) :=
      have hids := (hp.map (·.id)).filter (· ∉ keys)
      sortIds_congr hids (hids.nodup_iff.mpr (hn.filter _))
    simp only [bind, Except.bind, (ha start hs).traverse hg, hsort]

end Levels

end FlowDiagram
