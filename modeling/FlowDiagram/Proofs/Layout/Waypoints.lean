import FlowDiagram.Proofs.Flow.Declaration
import FlowDiagram.Proofs.Graph.Growth
import FlowDiagram.Proofs.Layout.Diagram
import FlowDiagram.Proofs.Layout.Total
import FlowDiagram.Proofs.Scalar

namespace FlowDiagram

namespace Route

variable {α : Type} [Scalar α]

theorem two_le_straightenFrom (a b : Point α) (ps : List (Point α)) :
    2 ≤ (straightenFrom a b ps).length := by
  obtain ⟨c, cs, heq⟩ := exists_straightenFrom a b ps
  rw [heq]
  exact Nat.le_add_left 2 cs.length

theorem two_le_straighten (p : Point α) (ps : List (Point α)) :
    2 ≤ (straighten (p :: ps)).length ↔ ps ≠ [] := by
  cases ps with
  | nil => simp [straighten]
  | cons q ps => exact iff_of_true (two_le_straightenFrom p q ps) (List.cons_ne_nil q ps)

theorem straighten_ne_nil (p : Point α) (ps : List (Point α)) : straighten (p :: ps) ≠ [] := by
  cases ps with
  | nil => exact List.cons_ne_nil p []
  | cons q ps =>
    have htwo := two_le_straightenFrom p q ps
    exact List.ne_nil_of_length_pos (Nat.lt_of_lt_of_le Nat.two_pos htwo)

theorem corners_toX (p : Point α) (x : α) (legs : List (Leg α)) :
    corners p (.toX x :: legs) = [] ↔ Scalar.eq p.x x = true ∧ corners ⟨x, p.y⟩ legs = [] := by
  rw [corners]
  split <;> simp_all

theorem corners_toY (p : Point α) (y : α) (legs : List (Leg α)) :
    corners p (.toY y :: legs) = [] ↔ Scalar.eq p.y y = true ∧ corners ⟨p.x, y⟩ legs = [] := by
  rw [corners]
  split <;> simp_all

variable {source target : PlacedNode α}

theorem corners_forward (hα : Scalar.Consistent α) (h : isForward source target = true) :
    corners source.exit (forward source target).legs ≠ [] := by
  intro hnil
  rw [forward, corners_toY, corners_toX, corners_toY] at hnil
  obtain ⟨hdown, -, hon, -⟩ := hnil
  have heq := hα.trans hdown hon
  rw [PlacedNode.exit, hα.apart h] at heq
  cases heq

/-- The target is not below its source, and on the way around the two boxes each leg ends where it
begins, as far as comparisons can tell. -/
def Lost (source target : PlacedNode α) : Prop :=
  isForward source target = false ∧
    Scalar.eq source.bottom (source.bottom + (clearance : α)) = true ∧
    Scalar.eq source.x (Scalar.max source.right target.right + (clearance : α)) = true ∧
    Scalar.eq (source.bottom + (clearance : α)) (target.top - (clearance : α)) = true ∧
    Scalar.eq (Scalar.max source.right target.right + (clearance : α)) target.x = true ∧
    Scalar.eq (target.top - (clearance : α)) target.top = true

theorem corners_around (source target : PlacedNode α) :
    isForward source target = false ∧ corners source.exit (around source target).legs = [] ↔
      Lost source target := by
  rw [around, corners_toY, corners_toX, corners_toY, corners_toX, corners_toY, corners, Lost]
  simp only [and_true]
  exact Iff.rfl

theorem clearance_exact (x : Rat) : Scalar.eq x (x + (clearance : Rat)) = false := by
  have hclearance : ((clearance : Nat) : Rat) = 20 := rfl
  rw [Scalar.eq_rat, hclearance, decide_eq_false_iff_not]
  intro heq
  linarith

theorem isRouted_between (hα : Scalar.Consistent α) (leftMargin : α) (e : Edge) :
    (between leftMargin e source target).isRouted = false ↔ Lost source target := by
  have hpath : (between leftMargin e source target).isRouted = false ↔
      corners source.exit (course source target).legs = [] := by
    have htwo := two_le_straighten source.exit (corners source.exit (course source target).legs)
    rw [RoutedEdge.isRouted, decide_eq_false_iff_not]
    exact (not_congr htwo).trans not_not
  rw [hpath, course, ← corners_around]
  by_cases hforward : isForward source target = true
  · rw [if_pos hforward]
    exact iff_of_false (corners_forward hα hforward) (by simp [hforward])
  · rw [if_neg hforward]
    simp [hforward]

theorem isSome_anchor_between (leftMargin : α) (e : Edge) :
    (between leftMargin e source target).anchor.isSome = true ↔ e.label ≠ "" := by
  rw [between]
  split <;> simp_all

section Nodes

variable {nodes : List (PlacedNode α)} {ids : List String} {e : Edge}

theorem edge_of_known (hids : nodes.map (·.id) = ids) (hn : ids.Nodup) (he : e.missing ids = [])
    (leftMargin : α) : ∃ source ∈ nodes, ∃ target ∈ nodes,
      source.id = e.source ∧ target.id = e.target ∧
      edge leftMargin (.ofList (nodes.map fun n => (n.id, n))) e =
        between leftMargin e source target := by
  subst hids
  obtain ⟨hsource, htarget⟩ := (e.missing_eq_nil _).mp he
  obtain ⟨source, hs, hsid⟩ := List.mem_map.mp hsource
  obtain ⟨target, ht, htid⟩ := List.mem_map.mp htarget
  refine ⟨source, hs, target, ht, hsid, htid, ?_⟩
  rw [edge, (get?_nodes hn e.source source).mpr ⟨hs, hsid⟩,
    (get?_nodes hn e.target target).mpr ⟨ht, htid⟩]

theorem edge_of_unknown (hids : nodes.map (·.id) = ids) (hn : ids.Nodup) (he : e.missing ids ≠ [])
    (leftMargin : α) :
    edge leftMargin (.ofList (nodes.map fun n => (n.id, n))) e = { toEdge := e } := by
  subst hids
  rw [edge]
  split
  · rename_i source target hsource htarget
    obtain ⟨hs, hsid⟩ := (get?_nodes hn e.source source).mp hsource
    obtain ⟨ht, htid⟩ := (get?_nodes hn e.target target).mp htarget
    have hknown := (e.missing_eq_nil (nodes.map (·.id))).mpr
      ⟨hsid ▸ List.mem_map_of_mem hs, htid ▸ List.mem_map_of_mem ht⟩
    exact absurd hknown he
  · rfl

end Nodes

def isBare (e : RoutedEdge α) : Bool := e.path.isEmpty && e.anchor.isNone

theorem isBare_between (leftMargin : α) (e : Edge) :
    isBare (between leftMargin e source target) = false := by
  have hpath : (between leftMargin e source target).path ≠ [] := straighten_ne_nil _ _
  rw [isBare, List.isEmpty_eq_false_iff.mpr hpath, Bool.false_and]

end Route

namespace Settings

variable {α : Type} [Scalar α] {s : Settings α} {doc : Document} {p : Plan α}

theorem Planned.dangling (h : s.Planned doc p) :
    p.graph.dangling = doc.edges.filter fun e => e.missing (doc.nodes.map (·.id)) ≠ [] := by
  rw [h.graph]
  rfl

theorem Planned.bare_edges (h : s.Planned doc p) (hn : (doc.nodes.map (·.id)).Nodup) :
    (p.edges.filter Route.isBare).map (·.toEdge) = p.graph.dangling := by
  have hids := ids_of_declared h.declared
  have hbare : Route.isBare ∘
      Route.edge s.spacing.leftMargin (.ofList (p.nodes.map fun n => (n.id, n))) =
      fun e => decide (e.missing (doc.nodes.map (·.id)) ≠ []) := by
    funext e
    by_cases hmiss : e.missing (doc.nodes.map (·.id)) = []
    · obtain ⟨source, -, target, -, -, -, hedge⟩ :=
        Route.edge_of_known hids hn hmiss s.spacing.leftMargin
      rw [Function.comp_apply, hedge, Route.isBare_between, hmiss]
      rfl
    · rw [Function.comp_apply, Route.edge_of_unknown hids hn hmiss, decide_eq_true hmiss]
      rfl
  rw [h.dangling, h.edges, Route.all, List.filter_map, List.map_map, hbare]
  exact (List.map_congr_left fun e _ => Route.toEdge_edge _ _ e).trans (List.map_id _)

theorem Planned.known_edge (h : s.Planned doc p) (hn : (doc.nodes.map (·.id)).Nodup)
    {e : RoutedEdge α} (he : e ∈ p.edges) (hd : e.toEdge ∉ p.graph.dangling) :
    ∃ source ∈ p.nodes, ∃ target ∈ p.nodes,
      source.id = e.source ∧ target.id = e.target ∧
        e = Route.between s.spacing.leftMargin e.toEdge source target := by
  rw [h.edges] at he
  obtain ⟨e, hmem, rfl⟩ := List.mem_map.mp he
  have hids := ids_of_declared h.declared
  rw [Route.toEdge_edge, h.dangling, List.mem_filter, decide_eq_true_iff] at hd
  have hmiss : e.missing (doc.nodes.map (·.id)) = [] := by
    by_contra hmiss
    exact hd ⟨hmem, hmiss⟩
  obtain ⟨source, hs, target, ht, hsid, htid, hedge⟩ :=
    Route.edge_of_known hids hn hmiss s.spacing.leftMargin
  rw [hedge]
  exact ⟨source, hs, target, ht, hsid, htid, rfl⟩

theorem Planned.unknown_edge (h : s.Planned doc p) (hn : (doc.nodes.map (·.id)).Nodup)
    {e : RoutedEdge α} (he : e ∈ p.edges) (hd : e.toEdge ∈ p.graph.dangling) :
    e.path = [] ∧ e.anchor = none := by
  rw [h.edges] at he
  obtain ⟨e, -, rfl⟩ := List.mem_map.mp he
  rw [Route.toEdge_edge, h.dangling, List.mem_filter, decide_eq_true_iff] at hd
  rw [Route.edge_of_unknown (ids_of_declared h.declared) hn hd.2]
  exact ⟨rfl, rfl⟩

theorem Shifted.exists_planned {shift : α} {d : Diagram α} (h : Shifted shift p d) {e : RoutedEdge α}
    (he : e ∈ d.edges) : ∃ e₀ ∈ p.edges, e₀.toEdge = e.toEdge ∧ e₀.path.length = e.path.length ∧
      e₀.anchor.isSome = e.anchor.isSome := by
  obtain ⟨-, hedges⟩ | ⟨-, hedges⟩ := h
  · exact ⟨e, hedges ▸ he, rfl, rfl, rfl⟩
  · rw [hedges] at he
    obtain ⟨e₀, he₀, rfl⟩ := List.mem_map.mp he
    refine ⟨e₀, he₀, rfl, ?_, ?_⟩
    · exact (List.length_map ..).symm
    · exact (Option.isSome_map ..).symm

theorem Shifted.bare_edges {shift : α} {d : Diagram α} (h : Shifted shift p d) :
    (d.edges.filter Route.isBare).map (·.toEdge) = (p.edges.filter Route.isBare).map (·.toEdge) := by
  obtain ⟨-, hedges⟩ | ⟨-, hedges⟩ := h
  · rw [hedges]
  · have hbare : Route.isBare ∘ Canvas.moveEdge shift = Route.isBare := by
      funext e
      simp [Route.isBare, Canvas.moveEdge]
    rw [hedges, List.filter_map, List.map_map, hbare]
    rfl

theorem Shifted.known_edge (hα : Scalar.Consistent α) {shift : α} {d : Diagram α}
    (h : Shifted shift p d) (hp : s.Planned doc p) (hn : (doc.nodes.map (·.id)).Nodup)
    {e : RoutedEdge α} (he : e ∈ d.edges) (hd : e.toEdge ∉ p.graph.dangling) :
    e.path ≠ [] ∧ (e.anchor.isSome = true ↔ e.label ≠ "") ∧
      ∃ source ∈ p.nodes, ∃ target ∈ p.nodes, source.id = e.source ∧ target.id = e.target ∧
        (e.isRouted = false ↔ Route.Lost source target) := by
  obtain ⟨e₀, he₀, hedge, hlength, hanchor⟩ := h.exists_planned he
  rw [← hedge] at hd
  obtain ⟨source, hs, target, ht, hsid, htid, hbetween⟩ := hp.known_edge hn he₀ hd
  have hpath : e₀.path ≠ [] := by
    rw [hbetween]
    exact Route.straighten_ne_nil _ _
  have hlabel : e₀.anchor.isSome = true ↔ e₀.label ≠ "" := by
    rw [hbetween]
    exact Route.isSome_anchor_between _ _
  have hrouted : e₀.isRouted = false ↔ Route.Lost source target := by
    rw [hbetween]
    exact Route.isRouted_between hα _ _
  rw [RoutedEdge.isRouted, hlength] at hrouted
  rw [hanchor] at hlabel
  refine ⟨?_, hedge ▸ hlabel, source, hs, target, ht, hedge ▸ hsid, hedge ▸ htid, hrouted⟩
  rw [← List.length_pos_iff, ← hlength]
  exact List.length_pos_iff.mpr hpath

theorem Shifted.empty_iff_dangling {shift : α} {d : Diagram α} (h : Shifted shift p d)
    (hp : s.Planned doc p) (hn : (doc.nodes.map (·.id)).Nodup) {e : RoutedEdge α} (he : e ∈ d.edges) :
    e.path = [] ∧ e.anchor = none ↔ e.toEdge ∈ p.graph.dangling := by
  constructor
  · intro hempty
    rw [← hp.bare_edges hn, ← h.bare_edges]
    refine List.mem_map.mpr ⟨e, List.mem_filter.mpr ⟨he, ?_⟩, rfl⟩
    rw [Route.isBare, hempty.1, hempty.2]
    rfl
  · intro hd
    obtain ⟨e₀, he₀, hedge, hlength, hanchor⟩ := h.exists_planned he
    obtain ⟨hpath, hnone⟩ := hp.unknown_edge hn he₀ (hedge ▸ hd)
    rw [hpath] at hlength
    rw [hnone] at hanchor
    exact ⟨List.eq_nil_of_length_eq_zero hlength.symm,
      Option.isNone_iff_eq_none.mp (Option.isSome_eq_false_iff.mp hanchor.symm)⟩

variable {c : Config α}

/-- The edges of a diagram are those of its text, and its nodes are those that the text declares, in
the order of the first declarations. An edge has neither path nor label exactly if the graph, which
takes the edges in one by one, lacks one of its ends. Every other edge has a path, and a label if it
is not empty; and its path has at least two points unless the detour around the two boxes is lost to
rounding, which cannot happen where adding the clearance changes every coordinate. -/
theorem run_routes_all (hα : Scalar.Consistent α) (h : ofConfig c = .ok s)
    (hm : c.canvasMargin.InRange) (text : String) (hne : (Document.read text).nodes ≠ []) : ∃ p shift d,
      s.run text = .framed (Document.read text) p shift d ∧
      (d.nodes.map (·.toNode) = (Document.read text).nodes ∧ (Document.read text).nodes.map (·.id) =
        distinct ((Document.nodeLines text.toList).map (·.id))) ∧
      d.edges.map (·.toEdge) = (Document.read text).edges ∧
      p.graph = (Document.read text).edges.foldl Graph.grow
        (.bare ((Document.read text).nodes.map (·.id))) ∧
      (d.edges.filter Route.isBare).map (·.toEdge) = p.graph.dangling ∧
      (∀ e ∈ d.edges, e.path = [] ∧ e.anchor = none ↔ e.toEdge ∈ p.graph.dangling) ∧
      (∀ e ∈ d.edges, e.toEdge ∉ p.graph.dangling → e.path ≠ [] ∧
        (e.anchor.isSome = true ↔ e.label ≠ "") ∧
        ∃ source ∈ p.nodes, ∃ target ∈ p.nodes, source.id = e.source ∧ target.id = e.target ∧
          (e.isRouted = false ↔ Route.Lost source target)) ∧
      ((∀ x : α, Scalar.eq x (x + (Route.clearance : α)) = false) →
        ∀ e ∈ d.edges, e.toEdge ∉ p.graph.dangling → e.isRouted = true) := by
  obtain ⟨p, shift, d, hrun, hplanned, hshifted⟩ := run_shifted h hm hne
  have hn := Document.nodup_ids text
  have hknown (e : RoutedEdge α) (he : e ∈ d.edges) (hd : e.toEdge ∉ p.graph.dangling) :=
    hshifted.known_edge hα hplanned hn he hd
  refine ⟨p, shift, d, hrun, ⟨?_, Document.ids_read text⟩, ?_, ?_,
    hshifted.bare_edges.trans (hplanned.bare_edges hn),
    fun e he => hshifted.empty_iff_dangling hplanned hn he, hknown, ?_⟩
  · rw [hshifted.map_nodes fun n => rfl]
    exact hplanned.declared
  · rw [hshifted.map_edges fun e => rfl, hplanned.edges]
    exact Route.toEdge_all _ _ _
  · rw [Graph.foldl_grow]
    exact hplanned.graph
  · intro hexact e he hd
    obtain ⟨-, -, source, -, target, -, -, -, hlost⟩ := hknown e he hd
    rw [← Bool.not_eq_false, hlost]
    intro hlost
    have hswallowed := hlost.2.1
    rw [hexact] at hswallowed
    cases hswallowed

/-- The edges that the graph of a run puts aside, and those of its diagram that have no line. -/
def unrouted : Run α → List Edge × List Edge
  | .framed _ p _ d => (p.graph.dangling, (d.edges.filter fun e => !e.isRouted).map (·.toEdge))
  | _ => ([], [])

/-- A loop far out: adding the clearance to coordinates of this size changes nothing, so all corners of
the detour fall together, and no line is left although the graph has both ends. -/
theorem run_routes_all_lost : ∃ s : Settings Float,
    ofConfig ({ baseX := .real 1e18, baseY := .real 1e18 } : Config Float) = .ok s ∧
    ∃ p shift d, s.run "task a \"A\"\na -> a" =
        .framed (Document.read "task a \"A\"\na -> a") p shift d ∧
      p.graph.dangling = [] ∧ ∃ e ∈ d.edges, e.toEdge = ⟨"a", "a", ""⟩ ∧ e.isRouted = false := by
  have hcomputed :
      (ofConfig ({ baseX := .real 1e18, baseY := .real 1e18 } : Config Float)).toOption.map
      (fun s => unrouted (s.run "task a \"A\"\na -> a")) = some ([], [⟨"a", "a", ""⟩]) := by
    decide +kernel
  have hne : (Document.read "task a \"A\"\na -> a").nodes ≠ [] := by decide +kernel
  obtain ⟨s, hs⟩ : ∃ s, ofConfig ({ baseX := .real 1e18, baseY := .real 1e18 } : Config Float) = .ok s :=
    exists_ok (by decide +kernel)
  obtain ⟨p, shift, d, hrun, -⟩ := run_shifted hs (exists_ok (by decide +kernel)) hne
  rw [hs] at hcomputed
  have hpair : unrouted (s.run "task a \"A\"\na -> a") = ([], [⟨"a", "a", ""⟩]) :=
    Option.some.inj hcomputed
  rw [hrun] at hpair
  obtain ⟨hdangling, hlost⟩ := Prod.mk.inj hpair
  have hmem : (⟨"a", "a", ""⟩ : Edge) ∈ (d.edges.filter fun e => !e.isRouted).map (·.toEdge) :=
    hlost ▸ List.mem_singleton_self _
  obtain ⟨e, he, hedge⟩ := List.mem_map.mp hmem
  obtain ⟨he, hrouted⟩ := List.mem_filter.mp he
  exact ⟨s, hs, p, shift, d, hrun, hdangling, e, he, hedge, by simpa using hrouted⟩

/-- A loop, a repeated edge, and one with an undeclared end, under a node whose kind is declared anew.
Floating-point coordinates put aside the same edge as exact ones, and in these all others are drawn. -/
theorem run_routes_all_loop : ∃ text : String,
    text = "task a \"A\"\na -> a\na -> x\ngateway a \"B\"\na -> a" ∧
    (∃ p shift d, Settings.run (⟨⟨150, 120, 100, 60, 20⟩, .int 20, .int 40⟩ : Settings Rat) text =
        .framed (Document.read text) p shift d ∧
      d.nodes.map (·.toNode) = [⟨"a", .gateway, "B", none⟩] ∧
      ∀ e ∈ d.edges, e.toEdge ≠ ⟨"a", "x", ""⟩ → e.isRouted = true) ∧
    ∃ s : Settings Float, ofConfig ({ canvasMargin := .real 40 } : Config Float) = .ok s ∧
      ∃ p shift d, s.run text = .framed (Document.read text) p shift d ∧
        (d.edges.filter Route.isBare).map (·.toEdge) = [⟨"a", "x", ""⟩] := by
  have hread : (Document.read "task a \"A\"\na -> a\na -> x\ngateway a \"B\"\na -> a").nodes =
      [⟨"a", .gateway, "B", none⟩] := by decide +kernel
  have hne := hread ▸ List.cons_ne_nil (⟨"a", .gateway, "B", none⟩ : Node) []
  have hdangling : ((Document.read "task a \"A\"\na -> a\na -> x\ngateway a \"B\"\na -> a").edges.foldl
      Graph.grow (.bare ["a"])).dangling = [⟨"a", "x", ""⟩] := by decide +kernel
  refine ⟨_, rfl, ?_, ?_⟩
  · obtain ⟨p, shift, d, hrun, ⟨hnodes, -⟩, -, hgraph, -, -, -, hrouted⟩ :=
      run_routes_all Scalar.consistent_rat ofConfig_default ⟨_, Quantity.value_rat _⟩ _ hne
    refine ⟨p, shift, d, hrun, hnodes.trans hread, ?_⟩
    intro e he hknown
    refine hrouted Route.clearance_exact e he ?_
    rw [hgraph, hread, List.map_singleton, hdangling, List.mem_singleton]
    exact hknown
  · obtain ⟨s, hs⟩ : ∃ s, ofConfig ({ canvasMargin := .real 40 } : Config Float) = .ok s :=
      exists_ok (by decide +kernel)
    obtain ⟨p, shift, d, hrun, -, -, hgraph, hbare, -⟩ :=
      run_routes_all Scalar.consistent_float hs (Quantity.inRange_real _) _ hne
    refine ⟨s, hs, p, shift, d, hrun, ?_⟩
    rw [hbare, hgraph, hread, List.map_singleton, hdangling]

end Settings
end FlowDiagram
