import FlowDiagram.Proofs.Graph.Reordering
import FlowDiagram.Proofs.Layout.Diagram
import Mathlib.Data.List.Perm.Basic

namespace FlowDiagram

section Perm

theorem mean_perm {x y : Rat} {xs ys : List Rat} (h : (x :: xs).Perm (y :: ys)) :
    mean x xs = mean y ys := by
  have hsum : Scalar.sum (x :: xs) = Scalar.sum (y :: ys) := by
    apply h.foldl_eq'
    intro a _ b _ z
    exact add_right_comm z a b
  rw [mean, mean, hsum, h.length_eq]

theorem Scalar.least_perm {x y : Rat} {xs ys : List Rat} (h : (x :: xs).Perm (y :: ys)) :
    least x xs = least y ys := by
  obtain ⟨hmem, hle⟩ := least_spec x xs
  obtain ⟨hmem', hle'⟩ := least_spec y ys
  apply le_antisymm
  · exact hle _ (h.mem_iff.mpr hmem')
  · exact hle' _ (h.mem_iff.mp hmem)

namespace Canvas

theorem extent_perm (margin : Rat) {xs ys : List Rat} (h : xs.Perm ys) :
    extent margin xs = extent margin ys := by
  have hmax : xs.foldl Scalar.max ((0 : Nat) : Rat) = ys.foldl Scalar.max ((0 : Nat) : Rat) := by
    apply h.foldl_eq'
    intro a _ b _ z
    simp only [Scalar.max_rat]
    exact max_right_comm z a b
  rw [extent, extent, hmax]

variable {nodes nodes' : List (PlacedNode Rat)} {edges edges' : List (RoutedEdge Rat)}

theorem extents_perm (hn : nodes'.Perm nodes) (he : edges'.Perm edges) :
    (extents nodes' edges').Perm (extents nodes edges) :=
  (hn.map _).append (he.flatMap_right _)

theorem overflow_perm (margin : Rat) (hn : nodes'.Perm nodes) (he : edges'.Perm edges) :
    overflow margin nodes' edges' = overflow margin nodes edges := by
  have htops : (tops nodes' edges').Perm (tops nodes edges) := by
    rw [tops_extents, tops_extents]
    exact (extents_perm hn he).map _
  rw [overflow, overflow]
  cases h : tops nodes edges with
  | nil =>
    rw [h] at htops
    rw [htops.eq_nil]
  | cons y ys =>
    cases h' : tops nodes' edges' with
    | nil =>
      rw [h, h'] at htops
      cases htops.symm.eq_nil
    | cons z zs =>
      rw [h, h'] at htops
      simp only [Scalar.least_perm htops]

theorem size_perm (margin : Rat) (hn : nodes'.Perm nodes) (he : edges'.Perm edges) :
    size margin nodes' edges' = size margin nodes edges := by
  have hcorners : (corners nodes' edges').Perm (corners nodes edges) := by
    rw [corners_extents, corners_extents]
    exact (extents_perm hn he).map _
  rw [size, size, extent_perm margin (hcorners.map _), extent_perm margin (hcorners.map Point.y)]

end Canvas

namespace Spacing

theorem desired?_perm {parents parents' : Table String (List String)} {placed : Table String (Point Rat)}
    {id : String} (h : (parentXs parents' placed id).Perm (parentXs parents placed id)) :
    desired? parents' placed id = desired? parents placed id := by
  rw [desired?, desired?]
  cases hxs : parentXs parents placed id with
  | nil =>
    rw [hxs] at h
    rw [h.eq_nil]
  | cons x xs =>
    cases hys : parentXs parents' placed id with
    | nil =>
      rw [hxs, hys] at h
      cases h.symm.eq_nil
    | cons y ys =>
      rw [hxs, hys] at h
      simp only [mean_perm h]

theorem positions_kinds (s : Spacing Rat) (layers : List (List String))
    (parents : Table String (List String)) {kinds kinds' : Table String Kind}
    (h : ∀ id, kinds'.get? id = kinds.get? id) :
    s.positions layers parents kinds' = s.positions layers parents kinds := by
  have hfind : kinds'.find = kinds.find := by
    funext id
    rw [Table.find, Table.find, h]
  simp only [positions, deficit, hfind]

end Spacing

end Perm

theorem Reordering.sameParents {nodes nodes' : List Node} {edges edges' : List Edge}
    (h : Reordering nodes nodes' edges edges') (layers : List (List String)) :
    Spacing.SameParents Rat layers (Graph.build (nodes.map (·.id)) edges).parents
      (Graph.build (nodes'.map (·.id)) edges').parents := by
  intro before layer after _ placed _ id _
  apply Spacing.desired?_perm
  rw [Spacing.parentXs, Spacing.parentXs, Graph.get?_parents, Graph.get?_parents]
  have hmem : id ∈ (Graph.build (nodes'.map (·.id)) edges').nodes ↔
      id ∈ (Graph.build (nodes.map (·.id)) edges).nodes := by
    rw [Graph.mem_nodes_build, Graph.mem_nodes_build, h.ids.mem_iff]
  by_cases hid : id ∈ (Graph.build (nodes.map (·.id)) edges).nodes
  · rw [if_pos hid, if_pos (hmem.mpr hid)]
    exact (h.predecessors id).filterMap _
  · rw [if_neg hid, if_neg (mt hmem.mp hid)]

namespace Settings

section Planned

variable {s : Settings Rat} {doc doc' : Document} {p p' : Plan Rat}

theorem Planned.levels_eq (hp : s.Planned doc p) (hp' : s.Planned doc' p')
    (h : Reordering doc.nodes doc'.nodes doc.edges doc'.edges) (hn : (doc.nodes.map (·.id)).Nodup) :
    p'.levels = p.levels := by
  have hl := hp.levels
  have hl' := hp'.levels
  rw [hp'.graph, h.assign hn, ← hp.graph, hl] at hl'
  exact (Except.ok.inj hl').symm

theorem Planned.positions_eq (hp : s.Planned doc p) (hp' : s.Planned doc' p')
    (h : Reordering doc.nodes doc'.nodes doc.edges doc'.edges) (hne : doc.nodes ≠ [])
    (hn : (doc.nodes.map (·.id)).Nodup) : p'.positions = p.positions := by
  obtain ⟨reached, hsound⟩ := hp.sound hne hn
  have hkinds (id : String) : doc'.kinds.get? id = doc.kinds.get? id := by
    apply Table.get?_ofList_perm (h.node_perm.map _)
    rw [List.map_map]
    exact hn
  obtain ⟨t, ht, ht'⟩ := s.spacing.positions_same hsound.layered.nodup (h.sameParents p.levels.layers)
    (Document.kinds_layers hn (hsound.perm hn))
  have hpos := hp.positions
  have hpos' := hp'.positions
  rw [hp.graph, ht] at hpos
  rw [s.spacing.positions_kinds _ _ hkinds, hp.levels_eq hp' h hn, hp'.graph, ht'] at hpos'
  exact (Except.ok.inj hpos').symm.trans (Except.ok.inj hpos)

theorem Planned.node_eq (hp : s.Planned doc p) (hp' : s.Planned doc' p')
    (h : Reordering doc.nodes doc'.nodes doc.edges doc'.edges) (hne : doc.nodes ≠ [])
    (hn : (doc.nodes.map (·.id)).Nodup) {m n : PlacedNode Rat} (hm : m ∈ p.nodes) (hm' : n ∈ p'.nodes)
    (hid : m.id = n.id) : m = n := by
  have hnode : m.toNode = n.toNode :=
    List.inj_on_of_nodup_map hn (hp.toNode_mem hm) (h.node_perm.mem_iff.mp (hp'.toNode_mem hm')) hid
  have hplace := hp.place m hm
  have hplace' := hp'.place n hm'
  rw [hp.positions_eq hp' h hne hn, ← hid, hplace] at hplace'
  obtain ⟨hx, hy⟩ := Point.mk.inj (Option.some.inj hplace')
  obtain ⟨i, hi, hlevel⟩ := hp.level m hm
  obtain ⟨j, hj, hlevel'⟩ := hp'.level n hm'
  rw [hp.levels_eq hp' h hn, ← hid, hi] at hj
  obtain rfl := Option.some.inj hj
  calc
    m = ⟨m.toNode, m.x, m.y, m.level⟩ := rfl
    _ = ⟨n.toNode, n.x, n.y, n.level⟩ := by rw [hnode, hx, hy, hlevel, hlevel']

theorem Planned.nodup (hp : s.Planned doc p) (hn : (doc.nodes.map (·.id)).Nodup) : p.nodes.Nodup := by
  apply List.Nodup.of_map (f := (·.id))
  rw [ids_of_declared hp.declared]
  exact hn

theorem Planned.node_perm (hp : s.Planned doc p) (hp' : s.Planned doc' p')
    (h : Reordering doc.nodes doc'.nodes doc.edges doc'.edges) (hne : doc.nodes ≠ [])
    (hn : (doc.nodes.map (·.id)).Nodup) : p'.nodes.Perm p.nodes := by
  have hn' : (doc'.nodes.map (·.id)).Nodup := h.ids.nodup_iff.mpr hn
  apply (List.perm_ext_iff_of_nodup (hp'.nodup hn') (hp.nodup hn)).mpr
  intro n
  constructor
  · intro hm
    have hdecl := h.node_perm.mem_iff.mp (hp'.toNode_mem hm)
    rw [← hp.declared] at hdecl
    obtain ⟨m, hmem, heq⟩ := List.mem_map.mp hdecl
    obtain rfl := hp.node_eq hp' h hne hn hmem hm (congrArg Node.id heq)
    exact hmem
  · intro hm
    have hdecl := h.node_perm.mem_iff.mpr (hp.toNode_mem hm)
    rw [← hp'.declared] at hdecl
    obtain ⟨m, hmem, heq⟩ := List.mem_map.mp hdecl
    obtain rfl := hp.node_eq hp' h hne hn hm hmem (congrArg Node.id heq).symm
    exact hmem

theorem Planned.exists_route (hp : s.Planned doc p) (hp' : s.Planned doc' p')
    (h : Reordering doc.nodes doc'.nodes doc.edges doc'.edges) (hne : doc.nodes ≠ [])
    (hn : (doc.nodes.map (·.id)).Nodup) : ∃ route : Edge → RoutedEdge Rat,
      (∀ e, (route e).toEdge = e) ∧ p.edges = doc.edges.map route ∧ p'.edges = doc'.edges.map route := by
  have hkeys : ((p.nodes.map fun n => (n.id, n)).map (·.1)).Nodup := by
    rw [List.map_map]
    exact ids_of_declared hp.declared ▸ hn
  have hget := Table.get?_ofList_perm ((hp.node_perm hp' h hne hn).map fun n => (n.id, n)) hkeys
  refine ⟨Route.edge s.spacing.leftMargin (.ofList (p.nodes.map fun n : PlacedNode Rat => (n.id, n))),
    Route.toEdge_edge _ _, hp.edges, ?_⟩
  rw [hp'.edges, Route.all]
  apply List.map_congr_left
  intro e _
  rw [Route.edge, Route.edge, hget, hget]

theorem Framed.declared {shift : Rat} {d : Diagram Rat} (hf : s.Framed p shift d) (hp : s.Planned doc p) :
    d.nodes.map (·.toNode) = doc.nodes ∧ d.edges.map (·.toEdge) = doc.edges := by
  constructor
  · rw [hf.nodes, List.map_map, ← hp.declared]
    rfl
  · rw [hf.edges, List.map_map, hp.edges]
    exact Route.toEdge_all _ _ _

theorem Framed.size_eq {shift shift' : Rat} {d d' : Diagram Rat} (hf : s.Framed p shift d)
    (hf' : s.Framed p' shift' d') (hn : p'.nodes.Perm p.nodes) (he : p'.edges.Perm p.edges) :
    shift' = shift ∧ d.width = d'.width ∧ d.height = d'.height := by
  obtain rfl : shift' = shift := by
    rw [hf'.clear, hf.clear]
    exact Canvas.overflow_perm _ hn he
  have hsize : (d'.width, d'.height) = (d.width, d.height) := by
    rw [hf'.size, hf.size, hf.nodes, hf.edges, hf'.nodes, hf'.edges]
    exact Canvas.size_perm _ (hn.map _) (he.map _)
  obtain ⟨hw, hh⟩ := Prod.mk.inj hsize
  exact ⟨rfl, hw.symm, hh.symm⟩

end Planned

variable {c : Config Rat} {s : Settings Rat}

/-- Texts that declare the same in another order, each id once, give diagrams that differ in nothing but
the order of nodes and edges. -/
theorem run_reordered (h : ofConfig c = .ok s) (t u : String)
    (hn : ((Document.nodeLines t.toList).map (·.id)).Nodup)
    (hr : Reordering (Document.nodeLines t.toList) (Document.nodeLines u.toList)
      (Document.edgeLines t.toList) (Document.edgeLines u.toList)) :
    ∃ r r', (s.run t).result = .ok r ∧ (s.run u).result = .ok r' ∧
      (r.picture.diagram? = none ↔ Document.nodeLines t.toList = []) ∧
      (r'.picture.diagram? = none ↔ Document.nodeLines u.toList = []) ∧
      ∀ d d', r.picture.diagram? = some d → r'.picture.diagram? = some d' →
        (d.nodes.map (·.toNode) = Document.nodeLines t.toList ∧
          d.edges.map (·.toEdge) = Document.edgeLines t.toList) ∧
        (d'.nodes.map (·.toNode) = Document.nodeLines u.toList ∧
          d'.edges.map (·.toEdge) = Document.edgeLines u.toList) ∧
        (∀ m ∈ d.nodes, ∀ n ∈ d'.nodes, m.id = n.id → m = n) ∧
        (∀ e ∈ d.edges, ∀ f ∈ d'.edges, e.toEdge = f.toEdge → e = f) ∧
        d.width = d'.width ∧ d.height = d'.height := by
  have hn' : ((Document.nodeLines u.toList).map (·.id)).Nodup := hr.ids.nodup_iff.mpr hn
  rw [← Document.nodes_read hn, ← Document.nodes_read hn', ← Document.edges_read,
    ← Document.edges_read] at hr ⊢
  have hids := Document.nodup_ids t
  by_cases hne : (Document.read t).nodes = []
  · have hne' : (Document.read u).nodes = [] := (hne ▸ hr.node_perm).eq_nil
    obtain ⟨r, hresult, hnone, -⟩ := run_result h t
    obtain ⟨r', hresult', hnone', -⟩ := run_result h u
    refine ⟨r, r', hresult, hresult', hnone, hnone', ?_⟩
    intro d d' hd
    rw [hnone.mpr hne] at hd
    cases hd
  · have hne' : (Document.read u).nodes ≠ [] := by
      intro hnil
      exact hne (hnil ▸ hr.node_perm).symm.eq_nil
    obtain ⟨p, shift, d, hrun, hp, hf⟩ := run_planned s hne
    obtain ⟨p', shift', d', hrun', hp', hf'⟩ := run_planned s hne'
    obtain ⟨route, hroute, hedges, hedges'⟩ := hp.exists_route hp' hr hne hids
    have hnodePerm := hp.node_perm hp' hr hne hids
    have hedgePerm : p'.edges.Perm p.edges := by
      rw [hedges, hedges']
      exact hr.edge_perm.map route
    obtain ⟨rfl, hsize⟩ := hf.size_eq hf' hnodePerm hedgePerm
    refine ⟨⟨.diagram d, Run.diagnostics (Document.read t) p⟩,
      ⟨.diagram d', Run.diagnostics (Document.read u) p'⟩, by rw [hrun]; rfl, by rw [hrun']; rfl,
      iff_of_false (Option.some_ne_none d) hne, iff_of_false (Option.some_ne_none d') hne', ?_⟩
    intro a b ha hb
    obtain rfl := Option.some.inj ha
    obtain rfl := Option.some.inj hb
    refine ⟨hf.declared hp, hf'.declared hp', ?_, ?_, hsize⟩
    · intro m hm n hm' hid
      rw [hf.nodes] at hm
      rw [hf'.nodes] at hm'
      obtain ⟨m, hplaced, rfl⟩ := List.mem_map.mp hm
      obtain ⟨n, hplaced', rfl⟩ := List.mem_map.mp hm'
      rw [hp.node_eq hp' hr hne hids hplaced hplaced' hid]
    · intro e he f he' heq
      rw [hf.edges, hedges, List.map_map] at he
      rw [hf'.edges, hedges', List.map_map] at he'
      obtain ⟨e, -, rfl⟩ := List.mem_map.mp he
      obtain ⟨f, -, rfl⟩ := List.mem_map.mp he'
      have hsame : e = f := by
        rw [← hroute e, ← hroute f]
        exact heq
      rw [hsame]

/-- A diamond with an edge back, its lines mixed and with comments between them. -/
theorem run_reordered_diamond :
    let s : Settings Rat := ⟨⟨150, 120, 100, 60, 20⟩, .int 20, .int 40⟩
    let t := "startEvent s \"S\"\ntask a \"A\"\ngateway b \"B\"\ns -> a\ns -> b\na -> b |x|\nb -> s"
    let u := "b -> s\n# nodes\ngateway b \"B\"\ns -> a\ntask a \"A\"\n\na -> b |x|\ns -> b\nstartEvent s \"S\""
    ofConfig {} = .ok s ∧ ∃ r r' d d', (s.run t).result = .ok r ∧ (s.run u).result = .ok r' ∧
      r.picture.diagram? = some d ∧ r'.picture.diagram? = some d' ∧
      d.nodes.map (·.id) = ["s", "a", "b"] ∧ d'.nodes.map (·.id) = ["b", "a", "s"] ∧
      (∀ m ∈ d.nodes, ∀ n ∈ d'.nodes, m.id = n.id → m = n) ∧
      (∀ e ∈ d.edges, ∀ f ∈ d'.edges, e.toEdge = f.toEdge → e = f) ∧
      d.width = d'.width ∧ d.height = d'.height := by
  intro s t u
  have hs : ofConfig {} = .ok s := ofConfig_default
  have hnodes : Document.nodeLines t.toList = [⟨"s", .startEvent, "S", none⟩, ⟨"a", .task, "A", none⟩,
      ⟨"b", .gateway, "B", none⟩] := by decide +kernel
  have hnodes' : Document.nodeLines u.toList = [⟨"b", .gateway, "B", none⟩, ⟨"a", .task, "A", none⟩,
      ⟨"s", .startEvent, "S", none⟩] := by decide +kernel
  have hedges : Document.edgeLines t.toList = [⟨"s", "a", ""⟩, ⟨"s", "b", ""⟩, ⟨"a", "b", "x"⟩,
      ⟨"b", "s", ""⟩] := by decide +kernel
  have hedges' : Document.edgeLines u.toList = [⟨"b", "s", ""⟩, ⟨"s", "a", ""⟩, ⟨"a", "b", "x"⟩,
      ⟨"s", "b", ""⟩] := by decide +kernel
  have hr : Reordering (Document.nodeLines t.toList) (Document.nodeLines u.toList)
      (Document.edgeLines t.toList) (Document.edgeLines u.toList) := by
    rw [hnodes, hnodes', hedges, hedges']
    refine ⟨by decide, rfl, by decide, ?_⟩
    intro id
    by_cases h₁ : "s" = id
    · subst h₁
      rfl
    · by_cases h₂ : "a" = id
      · subst h₂
        rfl
      · by_cases h₃ : "b" = id
        · subst h₃
          rfl
        · simp [h₁, h₂, h₃]
  have hn : ((Document.nodeLines t.toList).map (·.id)).Nodup := by
    rw [hnodes]
    decide
  obtain ⟨r, r', hresult, hresult', hnone, hnone', hall⟩ := run_reordered hs t u hn hr
  rw [hnodes] at hnone
  rw [hnodes'] at hnone'
  obtain ⟨d, hd⟩ := Option.ne_none_iff_exists'.mp fun hn => List.cons_ne_nil _ _ (hnone.mp hn)
  obtain ⟨d', hd'⟩ := Option.ne_none_iff_exists'.mp fun hn => List.cons_ne_nil _ _ (hnone'.mp hn)
  obtain ⟨⟨hdecl, -⟩, ⟨hdecl', -⟩, hsame⟩ := hall d d' hd hd'
  have hids : d.nodes.map (·.id) = (d.nodes.map (·.toNode)).map (·.id) := by
    rw [List.map_map]
    rfl
  have hids' : d'.nodes.map (·.id) = (d'.nodes.map (·.toNode)).map (·.id) := by
    rw [List.map_map]
    rfl
  rw [hdecl, hnodes] at hids
  rw [hdecl', hnodes'] at hids'
  exact ⟨hs, r, r', d, d', hresult, hresult', hd, hd', hids, hids', hsame⟩

end Settings

end FlowDiagram
