import FlowDiagram.Proofs.Graph.Traversal
import FlowDiagram.Proofs.Sorting

namespace FlowDiagram

theorem startNode_eq_ok {nodes : List Node} (h : nodes ≠ []) :
    ∃ start ∈ nodes, startNode nodes = .ok start := by
  cases nodes with
  | nil => exact absurd rfl h
  | cons n ns =>
    refine ⟨_, ?_, rfl⟩
    cases hf : (n :: ns).find? fun m => m.kind = .startEvent with
    | none => simp
    | some m => exact List.mem_of_find?_eq_some hf

namespace Levels

theorem ranks_ids : Sorting.Ranks fun a b : String => decide (a < b) where
  asymm a b h := by simpa using String.lt_asymm (of_decide_eq_true h)
  trans a b c hab hbc := by
    simp only [decide_eq_false_iff_not, String.not_lt] at hab hbc ⊢
    exact String.le_trans hab hbc

theorem sortIds_perm (ids : List String) : (sortIds ids).Perm ids := Sorting.sort_perm ids

theorem sortIds_sorted {ids : List String} (h : ids.Nodup) : (sortIds ids).Pairwise (· < ·) := by
  have hs := Sorting.sort_sorted ranks_ids ids
  have hn : (sortIds ids).Nodup := (sortIds_perm ids).nodup_iff.mpr h
  apply (hs.and hn).imp
  intro a b hab
  have hle : a ≤ b := String.not_lt.mp (of_decide_eq_false hab.1)
  by_contra hlt
  exact hab.2 (String.le_antisymm hle (String.not_lt.mp hlt))

theorem assign_eq_ok {g : Graph} {nodes : List Node} {l : Levels} (h : assign g nodes = .ok l) :
    ∃ start arcs reached, startNode nodes = .ok start ∧ g.traverse start.id = .ok arcs ∧
      arcs.foldlM Ranking.descend ⟨.ofList [(start.id, 0)], [[start.id]]⟩ = .ok reached ∧
      l.start = start.id ∧ l.toRanking = reached.trail l.unreached ∧
      l.diagnostics = (if start.kind = .startEvent then [] else [.noStart start.id]) ++
        l.unreached.map fun id => .unreachable id start.id reached.layers.length := by
  obtain ⟨start, hstart, h⟩ := bind_eq_ok h
  obtain ⟨arcs, harcs, h⟩ := bind_eq_ok h
  obtain ⟨reached, hreached, h⟩ := bind_eq_ok h
  obtain rfl := Except.ok.inj h
  exact ⟨start, arcs, reached, hstart, harcs, hreached, rfl, rfl, rfl⟩

/-- The reached nodes are ranked by their distance, and the other ids follow on one more level. -/
structure Sound (g : Graph) (ids : List String) (reached : Ranking) (l : Levels) : Prop where
  exhausted : g.Exhausted l.start reached
  ranking : l.toRanking = reached.trail l.unreached
  declared : ∀ id ∈ reached.layers.flatten, id ∈ ids
  mem_unreached : ∀ id, id ∈ l.unreached ↔ id ∈ ids ∧ id ∉ reached.layers.flatten
  sorted : l.unreached.Pairwise (· < ·)

theorem assign_sound {nodes : List Node} (edges : List Edge) (hne : nodes ≠ [])
    (hn : (nodes.map (·.id)).Nodup) :
    ∃ start ∈ nodes, startNode nodes = .ok start ∧ ∃ l reached,
      assign (.build (nodes.map (·.id)) edges) nodes = .ok l ∧ l.start = start.id ∧
      Sound (.build (nodes.map (·.id)) edges) (nodes.map (·.id)) reached l := by
  obtain ⟨start, hmem, hstart⟩ := startNode_eq_ok hne
  have hg := Graph.proper_build (nodes.map (·.id)) edges
  have hs : start.id ∈ (Graph.build (nodes.map (·.id)) edges).nodes :=
    (Graph.mem_nodes_build ..).mpr (List.mem_map_of_mem hmem)
  obtain ⟨arcs, r, ht, hr, hex⟩ := Graph.traverse_exhausted hg hs
  obtain ⟨l, hl, hrank, hst, hun⟩ :
      ∃ l, assign (.build (nodes.map (·.id)) edges) nodes = .ok l ∧
        l.toRanking = r.trail l.unreached ∧ l.start = start.id ∧
        l.unreached = sortIds ((nodes.map (·.id)).filter (· ∉ r.level.keys)) := by
    rw [assign, hstart]
    simp only [bind, Except.bind, ht, hr]
    exact ⟨_, rfl, rfl, rfl, rfl⟩
  refine ⟨start, hmem, hstart, l, r, hl, hst, hst ▸ hex, hrank, ?_, ?_, ?_⟩
  · intro id hid
    obtain ⟨k, -, hd⟩ := hex.mem_flatten_iff.mp hid
    exact (Graph.mem_nodes_build ..).mp (Graph.mem_nodes_of_path hg hs hd.1)
  · intro id
    rw [hun, (sortIds_perm _).mem_iff, List.mem_filter, hex.layered.keys]
    simp
  · rw [hun]
    exact sortIds_sorted (hn.filter _)

namespace Sound

variable {g : Graph} {ids : List String} {reached : Ranking} {l : Levels}

theorem nodup_unreached (h : Sound g ids reached l) : l.unreached.Nodup :=
  h.sorted.imp fun hab => String.ne_of_lt hab

theorem layered (h : Sound g ids reached l) : l.toRanking.Layered := by
  rw [h.ranking]
  exact h.exhausted.layered.trail h.nodup_unreached fun id hid => ((h.mem_unreached id).mp hid).2

theorem perm (h : Sound g ids reached l) (hn : ids.Nodup) : l.layers.flatten.Perm ids := by
  apply (List.perm_ext_iff_of_nodup h.layered.nodup hn).mpr
  intro id
  rw [h.ranking, Ranking.flatten_layers_trail, List.mem_append, h.mem_unreached]
  have := h.declared id
  tauto

theorem filled (h : Sound g ids reached l) : ∀ layer ∈ l.layers, layer ≠ [] := by
  rw [h.ranking, Ranking.trail]
  split
  · exact h.exhausted.filled
  · next hne =>
    intro layer hlayer
    obtain hlayer | hlayer := List.mem_append.mp hlayer
    · exact h.exhausted.filled layer hlayer
    · rw [List.mem_singleton.mp hlayer]
      exact hne

theorem mem_flatten_iff (h : Sound g ids reached l) (id : String) :
    id ∈ reached.layers.flatten ↔ ∃ k, Path g.Joins l.start k id := by
  rw [h.exhausted.mem_flatten_iff]
  constructor
  · intro hdist
    obtain ⟨k, -, hd⟩ := hdist
    exact ⟨k, hd.1⟩
  · intro hpath
    obtain ⟨k, hp⟩ := hpath
    obtain ⟨d, -, hd⟩ := hp.distance
    exact ⟨d, h.exhausted.all id d hd, hd⟩

theorem layers_reached (h : Sound g ids reached l) {k : Nat} (hk : k < reached.layers.length) :
    l.layers[k]? = reached.layers[k]? := by
  rw [h.ranking, Ranking.trail]
  split
  · rfl
  · exact List.getElem?_append_left hk

theorem first (h : Sound g ids reached l) : ∃ rest, l.layers = [l.start] :: rest := by
  have hpos : 0 < reached.layers.length := h.exhausted.all l.start 0 distance_self
  have hzero := h.layers_reached hpos
  obtain ⟨layer, hlayer⟩ : ∃ layer, reached.layers[0]? = some layer := ⟨_, List.getElem?_eq_getElem hpos⟩
  rw [hlayer] at hzero
  have hnodup := (List.nodup_flatten.mp h.exhausted.layered.nodup).1 layer (List.mem_of_getElem? hlayer)
  have hmem (id : String) : id ∈ layer ↔ id ∈ [l.start] := by
    rw [h.exhausted.distance 0 layer hlayer, distance_zero, List.mem_singleton]
  obtain rfl := List.perm_singleton.mp ((List.perm_ext_iff_of_nodup hnodup (List.nodup_singleton _)).mpr hmem)
  cases hl : l.layers with
  | nil =>
    rw [hl] at hzero
    cases hzero
  | cons first rest =>
    rw [hl] at hzero
    exact ⟨rest, congrArg (· :: rest) (Option.some.inj hzero)⟩

theorem level_of_distance (h : Sound g ids reached l) {id : String} {k : Nat}
    (hd : Distance g.Joins l.start id k) : l.level.get? id = some k := by
  have hk := h.exhausted.all id k hd
  rw [h.layered.get?_eq_some_iff, h.layers_reached hk]
  exact (h.exhausted.layered.get?_eq_some_iff id k).mp (h.exhausted.level_iff.mpr ⟨hk, hd⟩)

theorem level_of_unreached (h : Sound g ids reached l) {id : String} (hid : id ∈ l.unreached) :
    l.level.get? id = some reached.layers.length := by
  have hne : l.unreached ≠ [] := List.ne_nil_of_mem hid
  rw [h.layered.get?_eq_some_iff, h.ranking, Ranking.layers_trail _ hne]
  exact ⟨l.unreached, by simp, hid⟩

theorem level_cases (h : Sound g ids reached l) {id : String} (hid : id ∈ ids) :
    (∃ k, Distance g.Joins l.start id k ∧ k < reached.layers.length ∧ l.level.get? id = some k) ∨
      (id ∈ l.unreached ∧ l.level.get? id = some reached.layers.length) := by
  by_cases hu : id ∈ l.unreached
  · exact .inr ⟨hu, h.level_of_unreached hu⟩
  · have hr : id ∈ reached.layers.flatten := by
      by_contra hr
      exact hu ((h.mem_unreached id).mpr ⟨hid, hr⟩)
    obtain ⟨k, hk, hd⟩ := h.exhausted.mem_flatten_iff.mp hr
    exact .inl ⟨k, hd, hk, h.level_of_distance hd⟩

/-- No arc leaves the reached nodes, and along an arc the level rises by at most one. -/
theorem level_le_succ (h : Sound g ids reached l) {u v : String} {i j : Nat} (hu : u ∈ ids)
    (hv : v ∈ ids) (hr : g.Joins u v) (hi : l.level.get? u = some i)
    (hj : l.level.get? v = some j) : j ≤ i + 1 := by
  rcases h.level_cases hu with ⟨k, hd, -, hk⟩ | ⟨-, hk⟩
  · obtain rfl : k = i := Option.some.inj (hk.symm.trans hi)
    obtain ⟨d, hdk, hdv⟩ := (hd.1.snoc hr).distance
    obtain rfl : d = j := Option.some.inj ((h.level_of_distance hdv).symm.trans hj)
    exact hdk
  · obtain rfl := Option.some.inj (hk.symm.trans hi)
    rcases h.level_cases hv with ⟨m, -, hm, hmj⟩ | ⟨-, hm⟩
    · obtain rfl := Option.some.inj (hmj.symm.trans hj)
      omega
    · obtain rfl := Option.some.inj (hm.symm.trans hj)
      omega

end Sound

theorem Sound.deepest {g : Graph} {ids : List String} {reached : Ranking} {l : Levels}
    (h : Sound g ids reached l) :
    ∃ deepest id, reached.layers.length = deepest + 1 ∧ id ∈ ids ∧ id ∉ l.unreached ∧
      l.level.get? id = some deepest := by
  have hpos : 0 < reached.layers.length := h.exhausted.all l.start 0 distance_self
  have hlast : reached.layers.length - 1 < reached.layers.length := by omega
  obtain ⟨id, hid⟩ := List.exists_mem_of_ne_nil _
    (h.exhausted.filled _ (List.getElem_mem hlast))
  have hd := (h.exhausted.distance _ _ (List.getElem?_eq_getElem hlast) id).mp hid
  have hr := List.mem_flatten_of_mem (List.getElem_mem hlast) hid
  exact ⟨_, id, by omega, h.declared id hr, fun hu => ((h.mem_unreached id).mp hu).2 hr,
    h.level_of_distance hd⟩

/-- Every id has one level. That of an id to which edges lead from the start is the length of a
shortest path; the other ids, in the order of their code points, are one below the deepest of these. -/
theorem assign_shortest (nodes : List Node) (edges : List Edge) (hne : nodes ≠ [])
    (hn : (nodes.map (·.id)).Nodup) :
    ∃ start l, startNode nodes = .ok start ∧
      assign (.build (nodes.map (·.id)) edges) nodes = .ok l ∧ l.start = start.id ∧
      l.level.keys.Perm (nodes.map (·.id)) ∧
      (∀ n ∈ nodes, n.id ∉ l.unreached ↔
        ∃ k, Path (Linked (nodes.map (·.id)) edges) start.id k n.id) ∧
      (∀ n ∈ nodes, n.id ∉ l.unreached → ∃ k, l.level.get? n.id = some k ∧
        IsLeast {m | Path (Linked (nodes.map (·.id)) edges) start.id m n.id} k) ∧
      (∀ id ∈ l.unreached, id ∈ nodes.map (·.id)) ∧ l.unreached.Pairwise (· < ·) ∧
      ∃ deepest, IsGreatest
          {k | ∃ n ∈ nodes, n.id ∉ l.unreached ∧ l.level.get? n.id = some k} deepest ∧
        ∀ id ∈ l.unreached, l.level.get? id = some (1 + deepest) := by
  obtain ⟨start, -, hstart, l, reached, hl, hls, h⟩ := assign_sound edges hne hn
  have hR : (Graph.build (nodes.map (·.id)) edges).Joins = Linked (nodes.map (·.id)) edges :=
    Graph.joins_build _ _
  obtain ⟨deepest, id, hlen, hid, hun, hlev⟩ := h.deepest
  refine ⟨start, l, hstart, hl, hls, ?_⟩
  rw [← hR, ← hls]
  refine ⟨?_, ?_, ?_, fun id hu => ((h.mem_unreached id).mp hu).1,
    h.sorted, deepest, ⟨?_, ?_⟩, ?_⟩
  · rw [h.layered.keys]
    exact h.perm hn
  · intro n hm
    have hid : n.id ∈ nodes.map (·.id) := List.mem_map_of_mem hm
    rw [← h.mem_flatten_iff, h.mem_unreached]
    tauto
  · intro n hm hu
    rcases h.level_cases (List.mem_map_of_mem hm) with ⟨k, hd, -, hk⟩ | ⟨hu', -⟩
    · exact ⟨k, hk, hd⟩
    · exact absurd hu' hu
  · obtain ⟨n, hm, rfl⟩ := List.mem_map.mp hid
    exact ⟨n, hm, hun, hlev⟩
  · intro k hreached
    obtain ⟨n, hm, hu, hk⟩ := hreached
    rcases h.level_cases (List.mem_map_of_mem hm) with ⟨m, -, hlt, hm'⟩ | ⟨hu', -⟩
    · obtain rfl := Option.some.inj (hm'.symm.trans hk)
      omega
    · exact absurd hu' hu
  · intro id hu
    rw [h.level_of_unreached hu, hlen, Nat.add_comm]

/-- Edges that lead back, past a node, from an unreached node and to an undeclared one. -/
theorem assign_shortest_cycle :
    let nodes : List Node := [⟨"b", .task, "", none⟩, ⟨"s", .startEvent, "", none⟩,
      ⟨"c", .gateway, "", none⟩, ⟨"a", .task, "", none⟩]
    let edges : List Edge := [⟨"s", "a", ""⟩, ⟨"a", "b", ""⟩, ⟨"b", "s", ""⟩, ⟨"s", "b", ""⟩,
      ⟨"c", "a", ""⟩, ⟨"a", "d", ""⟩]
    nodes ≠ [] ∧ (nodes.map (·.id)).Nodup ∧ ∃ l,
      assign (.build (nodes.map (·.id)) edges) nodes = .ok l ∧ l.start = "s" ∧
      l.level.entries = [("s", 0), ("a", 1), ("b", 1), ("c", 2)] ∧ l.unreached = ["c"] ∧
      IsLeast {m | Path (Linked (nodes.map (·.id)) edges) "s" m "b"} 1 := by
  intro nodes edges
  have hne : nodes ≠ [] := by decide
  have hn : (nodes.map (·.id)).Nodup := by decide
  refine ⟨hne, hn, ?_⟩
  have he : (assign (.build (nodes.map (·.id)) edges) nodes).toOption.map
      (fun l => (l.start, l.level.entries, l.unreached)) =
        some ("s", [("s", 0), ("a", 1), ("b", 1), ("c", 2)], ["c"]) := by
    decide +kernel
  obtain ⟨start, l, hs, hl, -, -, -, hd, -⟩ := assign_shortest nodes edges hne hn
  obtain rfl : ⟨"s", .startEvent, "", none⟩ = start := Except.ok.inj hs
  rw [hl] at he
  obtain ⟨hstart, hrest⟩ := Prod.mk.inj (Option.some.inj he)
  obtain ⟨hentries, hunreached⟩ := Prod.mk.inj hrest
  have hb : "b" ∉ l.unreached := by
    rw [hunreached]
    decide
  obtain ⟨k, hk, hleast⟩ := hd ⟨"b", .task, "", none⟩ (by decide) hb
  rw [Table.get?, hentries] at hk
  obtain rfl : 1 = k := Option.some.inj hk
  exact ⟨l, hl, hstart, hentries, hunreached, hleast⟩

end Levels

end FlowDiagram
