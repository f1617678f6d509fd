import FlowDiagram.Proofs.Layout.ClosedForm
import FlowDiagram.Proofs.Layout.Diagram
import FlowDiagram.Proofs.Layout.Insertion
import Mathlib.Data.List.Flatten

namespace FlowDiagram

namespace Spacing

theorem mem_parentsIn {g : Graph} (hg : g.Proper) {ids : List String} {u v : String} :
    u ∈ parentsIn g.parents ids v ↔ g.Joins u v ∧ u ∈ ids := by
  rw [parentsIn, List.mem_filter, hg.mem_parents, decide_eq_true_iff]

section Parentless

variable {s : Spacing Rat} {parents : Table String (List String)} {above layer : List String}

theorem wanted_of_parentless (hn : layer.Nodup) (h : ∀ id ∈ layer, parentsIn parents above id = [])
    (x : String → Rat) {i : Nat} {id : String} (hi : layer[i]? = some id) :
    s.wanted parents x above layer id =
      s.baseX + ((i : Rat) - ((layer.length : Rat) - 1) / 2) * s.minSpacing := by
  have hrow : parentless parents above layer = layer := by
    apply List.filter_eq_self.mpr
    intro a ha
    exact decide_eq_true (h a ha)
  have hplace : layer.idxOf id = i := by
    obtain ⟨hlt, rfl⟩ := List.getElem?_eq_some_iff.mp hi
    exact hn.idxOf_getElem i hlt
  simp only [wanted, if_pos (h id (List.mem_of_getElem? hi)), hrow, hplace]

theorem Settles.of_parentless {layers : List (List String)} {x : String → Rat} (hx : s.Settles parents layers x)
    (hs : 0 ≤ s.minSpacing) {k : Nat} (hlayer : layers[k]? = some layer) (hn : layer.Nodup)
    (h : ∀ id ∈ layer, parentsIn parents (layers.take k).flatten id = []) {i : Nat} {id : String}
    (hi : layer[i]? = some id) :
    x id = s.baseX + ((i : Rat) - ((layer.length : Rat) - 1) / 2) * s.minSpacing := by
  obtain ⟨want, hwanted⟩ : ∃ want, want = s.wanted parents x (layers.take k).flatten layer := ⟨_, rfl⟩
  have hsettled : Settled s.minSpacing want x (inOrder want layer) := hwanted ▸ hx k layer hlayer
  have hwant {j : Nat} {a : String} (hj : layer[j]? = some a) :
      want a = s.baseX + ((j : Rat) - ((layer.length : Rat) - 1) / 2) * s.minSpacing :=
    hwanted ▸ wanted_of_parentless hn h x hj
  have hroom : layer.IsChain fun a b => want a + s.minSpacing ≤ want b := by
    apply List.isChain_iff_getElem.mpr
    intro j hj
    rw [hwant (List.getElem?_eq_getElem (Nat.lt_of_succ_lt hj)), hwant (List.getElem?_eq_getElem hj)]
    push_cast
    linarith
  have hsorted : layer.Pairwise fun a b => want a ≤ want b := by
    apply pairwise_of_isChain (· ≤ ·) want
    apply hroom.imp
    intro a b hab
    linarith
  rw [inOrder_of_sorted hsorted] at hsettled
  rw [hsettled.eq_of_room hroom id (List.mem_of_getElem? hi), hwant hi]

end Parentless

end Spacing

namespace Levels.Sound

open Spacing (parentsIn mem_parentsIn mem_flatten_take)

variable {g : Graph} {ids : List String} {reached : Ranking} {l : Levels} {u v : String}

theorem mem_above (h : Sound g ids reached l) {k : Nat} {id : String} :
    id ∈ (l.layers.take k).flatten ↔ ∃ j < k, l.level.get? id = some j := by
  simp only [mem_flatten_take, h.layered.get?_eq_some_iff]

theorem level_parent (h : Sound g ids reached l) (hg : g.Proper) (hn : ids.Nodup) {k : Nat}
    (hv : l.level.get? v = some k) (hu : u ∈ parentsIn g.parents (l.layers.take k).flatten v) :
    ∃ j, k = j + 1 ∧ l.level.get? u = some j := by
  obtain ⟨hjoins, habove⟩ := (mem_parentsIn hg).mp hu
  obtain ⟨j, hj, hlevel⟩ := h.mem_above.mp habove
  have hle := h.level_le_succ (h.mem_of_level hn hlevel) (h.mem_of_level hn hv) hjoins hlevel hv
  exact ⟨j, by omega, hlevel⟩

/-- A reached node below the start has a parent above it: the one before it on a shortest path. -/
theorem exists_parent (h : Sound g ids reached l) (hg : g.Proper) {k : Nat}
    (hd : Distance g.Joins l.start v (k + 1)) : ∃ u, u ∈ parentsIn g.parents (l.layers.take (k + 1)).flatten v := by
  obtain ⟨u, hu, hjoins⟩ := hd.pred
  have habove := h.mem_above.mpr ⟨k, k.lt_succ_self, h.level_of_distance hu⟩
  exact ⟨u, (mem_parentsIn hg).mpr ⟨hjoins, habove⟩⟩

theorem take_layers (h : Sound g ids reached l) : l.layers.take reached.layers.length = reached.layers := by
  rw [h.ranking, Ranking.trail]
  split
  · exact List.take_length
  · exact List.take_left

/-- A node that is not reached has no parent above it: an arc from a reached node reaches its end. -/
theorem parentless_unreached (h : Sound g ids reached l) (hg : g.Proper) (hv : v ∈ l.unreached) :
    parentsIn g.parents (l.layers.take reached.layers.length).flatten v = [] := by
  rw [h.take_layers]
  apply List.eq_nil_iff_forall_not_mem.mpr
  intro u hu
  -- An arc from a reached node would reach this one.
  obtain ⟨hjoins, hreached⟩ := (mem_parentsIn hg).mp hu
  obtain ⟨k, hpath⟩ := (h.mem_flatten_iff u).mp hreached
  exact ((h.mem_unreached v).mp hv).2 ((h.mem_flatten_iff v).mpr ⟨k + 1, hpath.snoc hjoins⟩)

section Settles

variable {s : Spacing Rat} {x : String → Rat} (hx : s.Settles g.parents l.layers x) (hs : 0 ≤ s.minSpacing)
include hx hs

theorem place_start (h : Sound g ids reached l) : x l.start = s.baseX := by
  obtain ⟨rest, hfirst⟩ := h.first
  have hlayer : l.layers[0]? = some [l.start] := by simp [hfirst]
  have hplace := hx.of_parentless hs hlayer (List.nodup_singleton _) (by simp [parentsIn]) (i := 0) rfl
  simpa using hplace

theorem place_unreached (h : Sound g ids reached l) (hg : g.Proper) {i : Nat} (hi : l.unreached[i]? = some v) :
    x v = x l.start + ((i : Rat) - ((l.unreached.length : Rat) - 1) / 2) * s.minSpacing := by
  have hlayer : l.layers[reached.layers.length]? = some l.unreached := by
    rw [h.ranking, Ranking.layers_trail _ (List.ne_nil_of_mem (List.mem_of_getElem? hi))]
    simp
  rw [h.place_start hx hs]
  exact hx.of_parentless hs hlayer h.nodup_unreached (fun id hid => h.parentless_unreached hg hid) hi

end Settles

end Levels.Sound

namespace Document

/-- An edge leads from the first id to the second, and both are declared. -/
def Parent (doc : Document) (u v : String) : Prop := Linked (doc.nodes.map (·.id)) doc.edges u v

/-- Edges between declared nodes lead from the start node to the id. -/
def Reaches (doc : Document) (id : String) : Prop :=
  ∃ start n, startNode doc.nodes = .ok start ∧ Path doc.Parent start.id n id

end Document

namespace Settings

section Before

variable {α : Type} [Scalar α] {s : Settings α} {p : Plan α} {u v : String}

/-- The first node has its place already when the layer of the other one is placed. -/
def PlacedBefore (s : Settings α) (p : Plan α) (u v : String) : Prop :=
  ∃ (k : Nat) (layer : List String) (placed : Table String (Point α)), p.levels.layers[k]? = some layer ∧ v ∈ layer ∧
    (p.levels.layers.take k).zipIdx.foldlM (s.spacing.placeLayer p.graph.parents) .empty = .ok placed ∧
    u ∈ placed.keys

theorem placedBefore_iff {k : Nat} (h : p.levels.Layered) (hv : p.levels.level.get? v = some k) :
    s.PlacedBefore p u v ↔ u ∈ (p.levels.layers.take k).flatten := by
  obtain ⟨layer, hlayer, hmem⟩ := (h.get?_eq_some_iff v k).mp hv
  have hn : (p.levels.layers.take k).flatten.Nodup := h.nodup.sublist (List.take_sublist k _).flatten
  have hsame : Spacing.SameParents α (p.levels.layers.take k) p.graph.parents p.graph.parents :=
    fun _ _ _ _ _ _ _ _ => rfl
  obtain ⟨placed, hplaced, -, hkeys⟩ := s.spacing.foldlM_placeLayer_same hn hsame
  constructor
  · rintro ⟨k', layer', placed', hlayer', hmem', hplaced', hu⟩
    have hlevel := (h.get?_eq_some_iff v k').mpr ⟨layer', hlayer', hmem'⟩
    obtain rfl : k = k' := Option.some.inj (hv.symm.trans hlevel)
    obtain rfl : placed = placed' := Except.ok.inj (hplaced.symm.trans hplaced')
    exact hkeys.mem_iff.mp hu
  · intro hu
    exact ⟨k, layer, placed, hlayer, hmem, hplaced, hkeys.mem_iff.mpr hu⟩

end Before

/-- A diagram and what its nodes were placed by: their levels, and where they come to stand before all are moved. -/
structure Ranked (s : Settings Rat) (doc : Document) (p : Plan Rat) (d : Diagram Rat) (start : PlacedNode Rat)
    (reached : Ranking) (x : String → Rat) : Prop where
  graph : p.graph = .build (doc.nodes.map (·.id)) doc.edges
  sound : Levels.Sound p.graph (doc.nodes.map (·.id)) reached p.levels
  settles : s.spacing.Settles p.graph.parents p.levels.layers x
  declared : d.nodes.map (·.toNode) = doc.nodes
  start_mem : start ∈ d.nodes
  startNode : startNode doc.nodes = .ok start.toNode
  start_id : p.levels.start = start.id
  place : ∃ shift, ∀ n ∈ d.nodes, n.x = x n.id + shift
  level : ∀ n ∈ d.nodes, ∃ k : Nat, p.levels.level.get? n.id = some k ∧ n.level = k

theorem Planned.ranked {s : Settings Rat} {doc : Document} {p : Plan Rat} {dy : Rat} {d : Diagram Rat}
    (h : s.Planned doc p) (hframed : s.Framed p dy d) (hs : 0 ≤ s.spacing.minSpacing) (hne : doc.nodes ≠ [])
    (hn : (doc.nodes.map (·.id)).Nodup) : ∃ start reached x, s.Ranked doc p d start reached x := by
  obtain ⟨reached, hsound⟩ := h.sound hne hn
  obtain ⟨first, -, -, hstart, -, -, hid, -⟩ := Levels.assign_eq_ok h.levels
  obtain ⟨placed, t, shift, -, ht, hstanding⟩ := Spacing.positions_standing hs hsound.layered.nodup p.graph.parents
    (Document.kinds_layers hn (hsound.perm hn))
  obtain rfl : t = p.positions := Except.ok.inj (ht.symm.trans h.positions)
  have hdeclared : d.nodes.map (·.toNode) = doc.nodes := by
    rw [hframed.nodes, List.map_map, ← h.declared]
    rfl
  have hfirst : first ∈ d.nodes.map (·.toNode) := by
    obtain ⟨first', hmem, hstart'⟩ := startNode_eq_ok hne
    rw [hdeclared, Except.ok.inj (hstart.symm.trans hstart')]
    exact hmem
  obtain ⟨start, hmem, rfl⟩ := List.mem_map.mp hfirst
  refine ⟨start, reached, Spacing.xOf placed, h.graph, hsound, hstanding.settles, hdeclared, hmem, hstart, hid,
    ⟨shift, ?_⟩, ?_⟩
  · intro n hn
    rw [hframed.nodes] at hn
    obtain ⟨m, hm, rfl⟩ := List.mem_map.mp hn
    obtain ⟨k, hk, -⟩ := h.level m hm
    obtain ⟨layer, hlayer, hid⟩ := (hsound.layered.get?_eq_some_iff m.id k).mp hk
    have hplace := (h.place m hm).symm.trans (hstanding.place k layer hlayer m.id hid)
    exact congrArg Point.x (Option.some.inj hplace)
  · intro n hn
    rw [hframed.nodes] at hn
    obtain ⟨m, hm, rfl⟩ := List.mem_map.mp hn
    exact h.level m hm

namespace Ranked

variable {s : Settings Rat} {doc : Document} {p : Plan Rat} {d : Diagram Rat} {start : PlacedNode Rat}
  {reached : Ranking} {x : String → Rat}

theorem proper (h : s.Ranked doc p d start reached x) : p.graph.Proper := h.graph ▸ Graph.proper_build _ _

theorem joins (h : s.Ranked doc p d start reached x) : p.graph.Joins = doc.Parent := by
  rw [h.graph]
  exact Graph.joins_build _ _

theorem reaches_iff (h : s.Ranked doc p d start reached x) (id : String) :
    doc.Reaches id ↔ id ∈ reached.layers.flatten := by
  rw [h.sound.mem_flatten_iff, h.joins, h.start_id]
  constructor
  · rintro ⟨first, n, hfirst, hpath⟩
    obtain rfl : start.toNode = first := Except.ok.inj (h.startNode.symm.trans hfirst)
    exact ⟨n, hpath⟩
  · rintro ⟨n, hpath⟩
    exact ⟨start.toNode, n, h.startNode, hpath⟩

theorem mem_unreached (h : s.Ranked doc p d start reached x) (id : String) :
    id ∈ p.levels.unreached ↔ id ∈ doc.nodes.map (·.id) ∧ ¬ doc.Reaches id := by
  rw [h.sound.mem_unreached, h.reaches_iff]

theorem id_mem (h : s.Ranked doc p d start reached x) {n : PlacedNode Rat} (hn : n ∈ d.nodes) :
    n.id ∈ doc.nodes.map (·.id) := by
  rw [← ids_of_declared h.declared]
  exact List.mem_map_of_mem hn

theorem exists_node (h : s.Ranked doc p d start reached x) {id : String} (hid : id ∈ doc.nodes.map (·.id)) :
    ∃ n ∈ d.nodes, n.id = id := by
  rw [← ids_of_declared h.declared] at hid
  exact List.mem_map.mp hid

theorem level_eq (h : s.Ranked doc p d start reached x) {n : PlacedNode Rat} (hn : n ∈ d.nodes) {k : Nat}
    (hk : p.levels.level.get? n.id = some k) : n.level = k := by
  obtain ⟨j, hj, hlevel⟩ := h.level n hn
  rw [hlevel, Option.some.inj (hj.symm.trans hk)]

theorem placed_parent_iff (h : s.Ranked doc p d start reached x) {u v : String} {k : Nat}
    (hv : p.levels.level.get? v = some k) : doc.Parent u v ∧ s.PlacedBefore p u v ↔
      u ∈ Spacing.parentsIn p.graph.parents (p.levels.layers.take k).flatten v := by
  rw [Spacing.mem_parentsIn h.proper, h.joins, placedBefore_iff h.sound.layered hv]

theorem exists_parent (h : s.Ranked doc p d start reached x) {v : String} (hv : doc.Reaches v)
    (hstart : v ≠ start.id) : ∃ u ∈ d.nodes, doc.Parent u.id v ∧ s.PlacedBefore p u.id v := by
  obtain ⟨k, -, hd⟩ := h.sound.exhausted.mem_flatten_iff.mp ((h.reaches_iff v).mp hv)
  cases k with
  | zero => exact absurd ((distance_zero.mp hd).trans h.start_id) hstart
  | succ k =>
    obtain ⟨u, hu⟩ := h.sound.exists_parent h.proper hd
    have hparent := (h.placed_parent_iff (h.sound.level_of_distance hd)).mpr hu
    obtain ⟨n, hn, rfl⟩ := h.exists_node hparent.1.1
    exact ⟨n, hn, hparent⟩

theorem level_parent (h : s.Ranked doc p d start reached x) (hn : (doc.nodes.map (·.id)).Nodup)
    {u v : PlacedNode Rat} (hu : u ∈ d.nodes) (hv : v ∈ d.nodes) (hparent : doc.Parent u.id v.id)
    (hbefore : s.PlacedBefore p u.id v.id) : doc.Reaches v.id ∧ v.level = u.level + 1 := by
  obtain ⟨k, hk, hlevel⟩ := h.level v hv
  have habove := (h.placed_parent_iff hk).mp ⟨hparent, hbefore⟩
  constructor
  · by_contra hunreached
    have hmem := (h.mem_unreached v.id).mpr ⟨h.id_mem hv, hunreached⟩
    obtain rfl := Option.some.inj (hk.symm.trans (h.sound.level_of_unreached hmem))
    rw [h.sound.parentless_unreached h.proper hmem] at habove
    cases habove
  · obtain ⟨j, rfl, hj⟩ := h.sound.level_parent h.proper hn hk habove
    rw [hlevel, h.level_eq hu hj]
    exact Nat.cast_succ j

theorem row (h : s.Ranked doc p d start reached x) (hs : 0 ≤ s.spacing.minSpacing) {v : PlacedNode Rat}
    (hv : v ∈ d.nodes) {i : Nat} (hi : p.levels.unreached[i]? = some v.id) :
    v.x = start.x + ((i : Rat) - ((p.levels.unreached.length : Rat) - 1) / 2) * s.spacing.minSpacing ∧
      v.level = reached.layers.length := by
  constructor
  · obtain ⟨shift, hplace⟩ := h.place
    have hx := h.sound.place_unreached h.settles hs h.proper hi
    rw [hplace v hv, hplace start h.start_mem, hx, h.start_id]
    ring
  · exact h.level_eq hv (h.sound.level_of_unreached (List.mem_of_getElem? hi))

end Ranked

theorem run_ranked {c : Config Rat} {s : Settings Rat} (h : ofConfig c = .ok s) (text : String) :
    ∃ r, (s.run text).result = .ok r ∧ (r.picture.diagram? = none ↔ (Document.read text).nodes = []) ∧
      ∀ d, r.picture.diagram? = some d → ∃ p dy, s.run text = .framed (Document.read text) p dy d ∧
        Drawn c (Document.read text) dy d ∧
        ∃ start reached x, s.Ranked (Document.read text) p d start reached x := by
  obtain ⟨r, hr, hnone, -⟩ := run_result h text
  refine ⟨r, hr, hnone, ?_⟩
  intro d hd
  have hne : (Document.read text).nodes ≠ [] := by
    rw [ne_eq, ← hnone, hd]
    exact Option.some_ne_none d
  obtain ⟨p, dy, d', hrun, hplanned, hframed⟩ := run_planned s hne
  obtain rfl : r = ⟨.diagram d', Run.diagnostics (Document.read text) p⟩ := by
    rw [hrun] at hr
    exact (Except.ok.inj hr).symm
  obtain rfl : d' = d := Option.some.inj hd
  obtain ⟨hmin, -, -, -, rfl⟩ := (ofConfig_eq_ok c s).mp h
  have hs : 0 ≤ c.minSpacing.exact := by linarith
  exact ⟨p, dy, hrun, hplanned.drawn h hne hframed, hplanned.ranked hframed hs hne (Document.nodup_ids text)⟩

/-- Parents that are placed before a node stand on the level above it; every reached node but the start has one, and
the other nodes have none. So these stand in a row around the start node, in the order of their ids. -/
theorem run_parents {c : Config Rat} {s : Settings Rat} (h : ofConfig c = .ok s) (text : String) :
    ∃ r, (s.run text).result = .ok r ∧ (r.picture.diagram? = none ↔ (Document.read text).nodes = []) ∧
      ∀ d, r.picture.diagram? = some d → ∃ p dy, s.run text = .framed (Document.read text) p dy d ∧
        d.nodes.map (·.toNode) = (Document.read text).nodes ∧
        ∃ start ∈ d.nodes, startNode (Document.read text).nodes = .ok start.toNode ∧
        (∀ v ∈ d.nodes, (Document.read text).Reaches v.id → v.id ≠ start.id →
          ∃ u ∈ d.nodes, (Document.read text).Parent u.id v.id ∧ s.PlacedBefore p u.id v.id) ∧
        (∀ u ∈ d.nodes, ∀ v ∈ d.nodes, (Document.read text).Parent u.id v.id → s.PlacedBefore p u.id v.id →
          (Document.read text).Reaches v.id ∧ v.level = u.level + 1) ∧
        ∃ (row : List String) (y : Rat), row.Pairwise (· < ·) ∧
          (∀ id, id ∈ row ↔ id ∈ d.nodes.map (·.id) ∧ ¬ (Document.read text).Reaches id) ∧
          ∀ v ∈ d.nodes, ∀ i : Nat, row[i]? = some v.id → v.y = y ∧
            v.x = start.x + ((i : Rat) - ((row.length : Rat) - 1) / 2) * c.minSpacing.exact := by
  obtain ⟨r, hr, hnone, hsome⟩ := run_ranked h text
  refine ⟨r, hr, hnone, ?_⟩
  intro d hd
  obtain ⟨p, dy, hrun, hdrawn, start, reached, x, hranked⟩ := hsome d hd
  obtain ⟨y₀, hy⟩ := hdrawn.arranged.height
  obtain ⟨hmin, -, -, -, rfl⟩ := (ofConfig_eq_ok c s).mp h
  have hs : 0 ≤ c.minSpacing.exact := by linarith
  refine ⟨p, dy, hrun, hranked.declared, start, hranked.start_mem, hranked.startNode, ?_, ?_,
    p.levels.unreached, y₀ + reached.layers.length * c.levelSpacing.exact, hranked.sound.sorted, ?_, ?_⟩
  · intro v _ hv hstart
    exact hranked.exists_parent hv hstart
  · intro u hu v hv
    exact hranked.level_parent (Document.nodup_ids text) hu hv
  · intro id
    rw [ids_of_declared hranked.declared]
    exact hranked.mem_unreached id
  · intro v hv i hi
    obtain ⟨hx, hlevel⟩ := hranked.row hs hv hi
    refine ⟨?_, hx⟩
    rw [hy v hv, hlevel]
    norm_cast

/-- Two nodes that no path leads to, with edges between them and to a reached node. -/
theorem run_parents_pair :
    let s : Settings Rat := ⟨⟨150, 120, 100, 60, 20⟩, .int 20, .int 40⟩
    let text := "startEvent s \"S\"\ntask c \"C\"\ntask a \"A\"\ntask b \"B\"\ns -> a\nb -> a\nb -> c\nc -> b"
    ofConfig {} = .ok s ∧ ∃ r d, (s.run text).result = .ok r ∧ r.picture.diagram? = some d ∧
      d.nodes.map (·.id) = ["s", "c", "a", "b"] ∧ ∃ start ∈ d.nodes, start.id = "s" ∧
      ∀ v ∈ d.nodes, (v.id = "b" → v.x = start.x - 75) ∧ (v.id = "c" → v.x = start.x + 75) := by
  intro s text
  let doc : Document := ⟨[⟨"s", .startEvent, "S", none⟩, ⟨"c", .task, "C", none⟩, ⟨"a", .task, "A", none⟩,
    ⟨"b", .task, "B", none⟩], [⟨"s", "a", ""⟩, ⟨"b", "a", ""⟩, ⟨"b", "c", ""⟩, ⟨"c", "b", ""⟩], []⟩
  have hs : ofConfig {} = .ok s := ofConfig_default
  have hread : Document.read text = doc := by decide
  obtain ⟨r, hr, hnone, hsome⟩ := run_parents hs text
  rw [hread] at hnone hsome
  obtain ⟨d, hd⟩ := Option.ne_none_iff_exists'.mp fun hn => List.cons_ne_nil _ _ (hnone.mp hn)
  obtain ⟨-, -, -, hdecl, start, hmem, hstart, -, -, row, y, hsorted, hrow, hplace⟩ := hsome d hd
  have hids : d.nodes.map (·.id) = ["s", "c", "a", "b"] := ids_of_declared hdecl
  have hclosed {n : Nat} {id : String} (hpath : Path doc.Parent "s" n id) : id = "s" ∨ id = "a" := by
    induction hpath with
    | nil => exact .inl rfl
    | snoc _ hparent ih =>
      obtain ⟨-, -, e, he, rfl, rfl⟩ := hparent
      simp only [doc, List.mem_cons, List.not_mem_nil, or_false] at he
      rcases he with rfl | rfl | rfl | rfl
      · exact .inr rfl
      · exact .inr rfl
      · simp at ih
      · simp at ih
  have hreaches (id : String) : doc.Reaches id ↔ id = "s" ∨ id = "a" := by
    constructor
    · rintro ⟨first, n, hfirst, hpath⟩
      obtain rfl := Except.ok.inj hfirst
      exact hclosed hpath
    · rintro (rfl | rfl)
      · exact ⟨_, 0, rfl, .nil⟩
      · exact ⟨_, 1, rfl, .snoc .nil (by simp [Document.Parent, Linked, doc])⟩
  have hrow : row = ["b", "c"] := by
    apply List.Perm.eq_of_pairwise _ hsorted (by decide)
    · apply (List.perm_ext_iff_of_nodup (hsorted.imp String.ne_of_lt) (by decide)).mpr
      intro id
      rw [hrow, hids, hreaches]
      grind
    · intro a b _ _ hab hba
      exact absurd hba (String.lt_asymm hab)
  refine ⟨hs, r, d, hr, hd, hids, start, hmem, (congrArg Node.id (Except.ok.inj hstart)).symm, ?_⟩
  intro v hv
  constructor
  · intro hid
    rw [(hplace v hv 0 (by rw [hrow, hid]; rfl)).2, hrow]
    norm_num [Quantity.exact, ← sub_eq_add_neg]
  · intro hid
    rw [(hplace v hv 1 (by rw [hrow, hid]; rfl)).2, hrow]
    norm_num [Quantity.exact]

end Settings

end FlowDiagram
