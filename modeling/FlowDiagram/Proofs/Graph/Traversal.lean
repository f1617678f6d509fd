import FlowDiagram.Proofs.Graph.Ranking
import FlowDiagram.Proofs.Graph.Round
import Mathlib.Data.List.Perm.Subperm

namespace FlowDiagram.Graph

theorem mem_nodes_of_path {g : Graph} (hg : g.Proper) {start v : String} (hs : start ∈ g.nodes)
    {n : Nat} (h : Path g.Joins start n v) : v ∈ g.nodes := by
  induction h with
  | nil => exact hs
  | snoc _ hr _ => exact hg.target _ _ hr

/-- Each layer holds the nodes at its distance from the start, and there are some. They stand in the order
in which they are found from the layer above. -/
structure Explored (g : Graph) (start : String) (r : Ranking) : Prop where
  layered : r.Layered
  filled : ∀ layer ∈ r.layers, layer ≠ []
  distance : ∀ k layer, r.layers[k]? = some layer →
    ∀ id, id ∈ layer ↔ Distance g.Joins start id k
  found : ∀ k layer below, r.layers[k]? = some layer → r.layers[k + 1]? = some below →
    below = g.next layer (r.layers.take (k + 1)).flatten

/-- No node is further away than the last layer. -/
structure Exhausted (g : Graph) (start : String) (r : Ranking) : Prop extends
    Explored g start r where
  all : ∀ id k, Distance g.Joins start id k → k < r.layers.length

theorem explored_start (g : Graph) (start : String) :
    Explored g start ⟨.ofList [(start, 0)], [[start]]⟩ where
  layered := ⟨by rw [Table.entries_ofList (by simp)]; rfl, by simp⟩
  filled := by simp
  distance k layer hl id := by
    cases k with
    | zero =>
      obtain rfl : [start] = layer := by simpa using hl
      rw [distance_zero, List.mem_singleton]
    | succ k => simp at hl
  found k layer below _ hbelow := by simp at hbelow

namespace Explored

variable {g : Graph} {start : String} {r : Ranking}

theorem level_iff (h : Explored g start r) {id : String} {k : Nat} :
    r.level.get? id = some k ↔ k < r.layers.length ∧ Distance g.Joins start id k := by
  rw [h.layered.get?_eq_some_iff]
  constructor
  · intro hlayer
    obtain ⟨layer, hl, hid⟩ := hlayer
    exact ⟨(List.getElem?_eq_some_iff.mp hl).1, (h.distance k layer hl id).mp hid⟩
  · intro hdist
    obtain ⟨hk, hd⟩ := hdist
    have hl := List.getElem?_eq_getElem hk
    exact ⟨r.layers[k], hl, (h.distance k _ hl id).mpr hd⟩

theorem mem_flatten_iff (h : Explored g start r) {id : String} :
    id ∈ r.layers.flatten ↔ ∃ k, k < r.layers.length ∧ Distance g.Joins start id k := by
  rw [← h.layered.keys, ← Table.get?_isSome, Option.isSome_iff_exists]
  simp only [h.level_iff]

theorem mem_next_iff (h : Explored g start r) {before : List (List String)} {layer : List String}
    (hl : r.layers = before ++ [layer]) (v : String) :
    v ∈ g.next layer r.layers.flatten ↔ Distance g.Joins start v r.layers.length := by
  have hlen : r.layers.length = before.length + 1 := by simp [hl]
  have hlast : r.layers[before.length]? = some layer := by simp [hl]
  rw [mem_next, h.mem_flatten_iff]
  constructor
  · intro hnext
    obtain ⟨hv, u, hu, hr⟩ := hnext
    have hd := (h.distance _ _ hlast u).mp hu
    obtain ⟨d, hdn, hdv⟩ := (hd.1.snoc hr).distance
    have hge : ¬ d < r.layers.length := by
      intro hk
      exact hv ⟨d, hk, hdv⟩
    obtain rfl : d = r.layers.length := by omega
    exact hdv
  · intro hd
    refine ⟨?_, ?_⟩
    · intro hfound
      obtain ⟨k, hk, hdk⟩ := hfound
      have hkd := hdk.unique hd
      omega
    · rw [hlen] at hd
      obtain ⟨u, hu, hr⟩ := hd.pred
      exact ⟨u, (h.distance _ _ hlast u).mpr hu, hr⟩

theorem trail_next (h : Explored g start r) (hg : g.Proper) {before : List (List String)}
    {layer : List String} (hl : r.layers = before ++ [layer]) :
    Explored g start (r.trail (g.next layer r.layers.flatten)) := by
  by_cases hn : g.next layer r.layers.flatten = []
  · rw [hn]
    exact h
  have hlayers := r.layers_trail hn
  refine ⟨h.layered.trail (hg.nodup_next _ _) fun id hid => ((mem_next ..).mp hid).1, ?_, ?_, ?_⟩
  · intro l hm
    rw [hlayers, List.mem_append, List.mem_singleton] at hm
    rcases hm with hm | rfl
    · exact h.filled l hm
    · exact hn
  · intro k l hk id
    rw [hlayers] at hk
    rcases Nat.lt_trichotomy k r.layers.length with hlt | rfl | hgt
    · rw [List.getElem?_append_left hlt] at hk
      exact h.distance k l hk id
    · obtain rfl : g.next layer r.layers.flatten = l := by simpa using hk
      exact h.mem_next_iff hl id
    · rw [List.getElem?_eq_none (by rw [List.length_append, List.length_singleton]; omega)] at hk
      cases hk
  · intro k above below hk hbelow
    rw [hlayers] at hk hbelow ⊢
    rcases Nat.lt_trichotomy (k + 1) r.layers.length with hlt | hlast | hgt
    · rw [List.getElem?_append_left (Nat.lt_of_succ_lt hlt)] at hk
      rw [List.getElem?_append_left hlt] at hbelow
      rw [List.take_append_of_le_length (Nat.le_of_lt hlt)]
      exact h.found k above below hk hbelow
    · obtain rfl : g.next layer r.layers.flatten = below := by simpa [hlast] using hbelow
      have hbefore : before.length = k := by
        rw [hl, List.length_append, List.length_singleton] at hlast
        omega
      have habove : r.layers[k]? = some layer := by simp [hl, ← hbefore]
      rw [List.getElem?_append_left (by omega), habove] at hk
      rw [hlast, List.take_left, Option.some.inj hk]
    · rw [List.getElem?_eq_none (by rw [List.length_append, List.length_singleton]; omega)] at hbelow
      cases hbelow

theorem foldlM_found (h : Explored g start r) {before : List (List String)} {layer : List String}
    (hl : r.layers = before ++ [layer]) :
    (g.found layer r.layers.flatten).foldlM Ranking.descend r =
      .ok (r.trail (g.next layer r.layers.flatten)) := by
  have hlast : r.layers[before.length]? = some layer := by simp [hl]
  refine Ranking.foldlM_descend (k := before.length) (by simp [hl]) ?_ ?_
  · intro a ha
    exact (h.layered.get?_eq_some_iff _ _).mpr ⟨layer, hlast, source_mem_of_found ha⟩
  · intro a ha b hb hab
    refine ((mem_next ..).mp (List.mem_map_of_mem hb : b.2 ∈ g.next layer r.layers.flatten)).1 ?_
    rw [← hab, hl]
    simp [source_mem_of_found ha]

theorem exhausted (h : Explored g start r) {before : List (List String)} {layer : List String}
    (hl : r.layers = before ++ [layer]) (hn : g.next layer r.layers.flatten = []) :
    Exhausted g start r where
  toExplored := h
  all id k hd := by
    by_contra hk
    obtain ⟨v, hv⟩ := hd.nearer r.layers.length (by omega)
    rw [← h.mem_next_iff hl, hn] at hv
    cases hv

theorem length_next_le (h : Explored g start r) (hg : g.Proper) (hs : start ∈ g.nodes)
    (layer : List String) :
    r.layers.flatten.length + (g.next layer r.layers.flatten).length ≤ g.nodes.length := by
  rw [← List.length_append]
  refine (List.subperm_of_subset (h.layered.nodup.append (hg.nodup_next _ _) ?_) ?_).length_le
  · exact fun v hv hv' => ((mem_next ..).mp hv').1 hv
  · intro v hv
    rcases List.mem_append.mp hv with hv | hv
    · obtain ⟨k, -, hd⟩ := h.mem_flatten_iff.mp hv
      exact mem_nodes_of_path hg hs hd.1
    · obtain ⟨u, -, hr⟩ := ((mem_next ..).mp hv).2
      exact hg.target u v hr

end Explored

theorem Exhausted.next_eq_nil {g : Graph} {start : String} {r : Ranking} (h : Exhausted g start r)
    {before : List (List String)} {layer : List String} (hl : r.layers = before ++ [layer]) :
    g.next layer r.layers.flatten = [] := by
  apply List.eq_nil_iff_forall_not_mem.mpr
  intro v hv
  have hfar := h.all v _ ((h.mem_next_iff hl v).mp hv)
  exact Nat.lt_irrefl _ hfar

theorem Exhausted.below_eq {g : Graph} {start : String} {r : Ranking} (h : Exhausted g start r) {k : Nat}
    {layer : List String} (hk : r.layers[k]? = some layer) :
    (r.layers[k + 1]?).getD [] = g.next layer (r.layers.take (k + 1)).flatten := by
  cases hbelow : r.layers[k + 1]? with
  | some below => exact h.found k layer below hk hbelow
  | none =>
    obtain ⟨hlt, rfl⟩ := List.getElem?_eq_some_iff.mp hk
    have hlast : r.layers.take (k + 1) = r.layers :=
      List.take_of_length_le (List.getElem?_eq_none_iff.mp hbelow)
    have hlayers : r.layers = r.layers.take k ++ [r.layers[k]] := by
      rw [List.take_append_getElem, hlast]
    rw [hlast, h.next_eq_nil hlayers]
    rfl

theorem walk_nil (g : Graph) (n : Nat) (seen : List String) : g.walk n [] seen = [] := by
  cases n <;> rfl

/-- The traversal goes on to the end: the nodes not seen yet bound its steps. -/
theorem Explored.foldlM_walk {g : Graph} {start : String} (hg : g.Proper) (hs : start ∈ g.nodes)
    (n : Nat) {r : Ranking} (h : Explored g start r) {before : List (List String)}
    {layer : List String} (hl : r.layers = before ++ [layer])
    (hn : g.nodes.length ≤ r.layers.flatten.length + n) :
    ∃ r', (g.walk (layer.length + n) layer r.layers.flatten).foldlM Ranking.descend r = .ok r' ∧
      Exhausted g start r' := by
  -- A round takes as many steps as its layer is long, and what it finds was not seen before.
  induction n using Nat.strongRecOn generalizing r before layer with
  | ind n ih =>
    have hw := g.walk_layer n layer [] r.layers.flatten
    rw [List.append_nil, List.nil_append] at hw
    rw [hw, List.foldlM_append, h.foldlM_found hl]
    have hle := h.length_next_le hg hs layer
    by_cases he : g.next layer r.layers.flatten = []
    · rw [he, walk_nil]
      exact ⟨r, rfl, h.exhausted hl he⟩
    · have hpos := List.length_pos_iff.mpr he
      obtain ⟨m, rfl⟩ := Nat.exists_eq_add_of_le
        (show (g.next layer r.layers.flatten).length ≤ n by omega)
      have ht := ih m (by omega) (h.trail_next hg hl) (r.layers_trail he)
      rw [Ranking.flatten_layers_trail] at ht
      exact ht (by rw [List.length_append]; omega)

theorem traverse_exhausted {g : Graph} (hg : g.Proper) {start : String} (hs : start ∈ g.nodes) :
    ∃ arcs r, g.traverse start = .ok arcs ∧
      arcs.foldlM Ranking.descend ⟨.ofList [(start, 0)], [[start]]⟩ = .ok r ∧
      Exhausted g start r := by
  have hpos : 0 < g.nodes.length := List.length_pos_of_mem hs
  have hfuel : g.nodes.length ≤ [start].length + (g.nodes.length - 1) := by
    rw [List.length_singleton]
    omega
  obtain ⟨r, hr, he⟩ := (explored_start g start).foldlM_walk hg hs (g.nodes.length - 1)
    (List.nil_append [[start]]).symm hfuel
  refine ⟨_, r, by rw [traverse, if_pos hs], ?_, he⟩
  rw [List.length_singleton, show 1 + (g.nodes.length - 1) = g.nodes.length by omega] at hr
  exact hr

end FlowDiagram.Graph
