import FlowDiagram.Proofs.Layout.Planning

namespace FlowDiagram

/-- The setting has a value as a coordinate. Coordinates always have one; an integer may be too large. -/
def Quantity.InRange {α : Type} [Scalar α] (q : Quantity α) : Prop := ∃ x, q.value = .ok x

theorem Quantity.inRange_real {α : Type} [Scalar α] (x : α) : (real x).InRange := ⟨x, rfl⟩

namespace Settings

variable {α : Type} [Scalar α] {c : Config α} {s : Settings α}

/-- The settings of runs are those given, and the distances among them as coordinates. -/
structure Given (c : Config α) (s : Settings α) : Prop where
  minSpacing : c.minSpacing.value = .ok s.spacing.minSpacing
  levelSpacing : c.levelSpacing.value = .ok s.spacing.levelSpacing
  baseX : c.baseX.value = .ok s.spacing.baseX
  baseY : c.baseY.value = .ok s.spacing.baseY
  margin : c.leftMargin.value = .ok s.spacing.leftMargin
  leftMargin : s.leftMargin = c.leftMargin
  canvasMargin : s.canvasMargin = c.canvasMargin

theorem given (h : ofConfig c = .ok s) : Given c s := by
  obtain ⟨spacing, hcheck, h⟩ := bind_eq_ok h
  obtain rfl := Except.ok.inj h
  rw [Config.check, guard_eq_ok, guard_eq_ok, guard_eq_ok, guard_eq_ok] at hcheck
  obtain ⟨-, -, -, -, hcheck⟩ := hcheck
  obtain ⟨minSpacing, hmin, hcheck⟩ := bind_eq_ok hcheck
  obtain ⟨levelSpacing, hlevel, hcheck⟩ := bind_eq_ok hcheck
  obtain ⟨baseX, hx, hcheck⟩ := bind_eq_ok hcheck
  obtain ⟨baseY, hy, hcheck⟩ := bind_eq_ok hcheck
  obtain ⟨left, hleft, hcheck⟩ := bind_eq_ok hcheck
  obtain rfl := Except.ok.inj hcheck
  exact ⟨hmin, hlevel, hx, hy, hleft, rfl, rfl⟩

theorem ofConfig_margins (h : ofConfig c = .ok s) :
    s.leftMargin.InRange ∧ s.canvasMargin = c.canvasMargin := by
  have hgiven := given h
  exact ⟨⟨_, hgiven.leftMargin ▸ hgiven.margin⟩, hgiven.canvasMargin⟩

/-- The plan as it is, or all of it moved down. -/
def Shifted (shift : α) (p : Plan α) (d : Diagram α) : Prop :=
  (d.nodes = p.nodes ∧ d.edges = p.edges) ∨
    (d.nodes = p.nodes.map (Canvas.moveNode shift) ∧ d.edges = p.edges.map (Canvas.moveEdge shift))

theorem Shifted.map_nodes {shift : α} {p : Plan α} {d : Diagram α} (h : Shifted shift p d) {β : Type}
    {f : PlacedNode α → β} (hf : ∀ n, f (Canvas.moveNode shift n) = f n) :
    d.nodes.map f = p.nodes.map f := by
  obtain ⟨hnodes, -⟩ | ⟨hnodes, -⟩ := h
  · rw [hnodes]
  · rw [hnodes, List.map_map]
    exact List.map_congr_left fun n _ => hf n

theorem Shifted.map_edges {shift : α} {p : Plan α} {d : Diagram α} (h : Shifted shift p d) {β : Type}
    {f : RoutedEdge α → β} (hf : ∀ e, f (Canvas.moveEdge shift e) = f e) :
    d.edges.map f = p.edges.map f := by
  obtain ⟨-, hedges⟩ | ⟨-, hedges⟩ := h
  · rw [hedges]
  · rw [hedges, List.map_map]
    exact List.map_congr_left fun e _ => hf e

theorem frame_eq {left margin : α} (hl : s.leftMargin.value = .ok left) (hm : s.canvasMargin.value = .ok margin)
    (p : Plan α) : ∃ shift nodes edges, shift = Canvas.overflow left p.nodes p.edges ∧
      s.frame p = .ok (shift,
        ⟨nodes, edges, (Canvas.size margin nodes edges).1, (Canvas.size margin nodes edges).2⟩) ∧
      ((nodes = p.nodes ∧ edges = p.edges) ∨
        (nodes = p.nodes.map (Canvas.moveNode shift) ∧ edges = p.edges.map (Canvas.moveEdge shift))) := by
  let shift := Canvas.overflow left p.nodes p.edges
  let nodes := if Scalar.eq shift ((0 : Nat) : α) then p.nodes else p.nodes.map (Canvas.moveNode shift)
  let edges := if Scalar.eq shift ((0 : Nat) : α) then p.edges else p.edges.map (Canvas.moveEdge shift)
  refine ⟨shift, nodes, edges, rfl, ?_, ?_⟩
  · rw [frame, hl, hm]
    rfl
  · by_cases hstill : Scalar.eq shift ((0 : Nat) : α) = true
    · exact .inl ⟨if_pos hstill, if_pos hstill⟩
    · exact .inr ⟨if_neg hstill, if_neg hstill⟩

theorem frame_shifted (hl : s.leftMargin.InRange) (hm : s.canvasMargin.InRange) (p : Plan α) :
    ∃ shift d, s.frame p = .ok (shift, d) ∧ Shifted shift p d := by
  obtain ⟨left, hleft⟩ := hl
  obtain ⟨margin, hmargin⟩ := hm
  obtain ⟨shift, nodes, edges, -, hframe, hshifted⟩ := frame_eq hleft hmargin p
  exact ⟨shift, _, hframe, hshifted⟩

theorem run_shifted (h : ofConfig c = .ok s) (hm : c.canvasMargin.InRange) {text : String}
    (hne : (Document.read text).nodes ≠ []) :
    ∃ p shift d, s.run text = .framed (Document.read text) p shift d ∧
      s.Planned (Document.read text) p ∧ Shifted shift p d := by
  obtain ⟨hleft, hmargin⟩ := ofConfig_margins h
  obtain ⟨p, hp, hplanned⟩ := plan_spec s hne (Document.nodup_ids text)
  obtain ⟨shift, d, hd, hshifted⟩ := frame_shifted hleft (hmargin ▸ hm) p
  refine ⟨p, shift, d, ?_, hplanned, hshifted⟩
  rw [run]
  simp only [if_neg hne, hp, hd]

end Settings

section Grounded

variable {α : Type} [Scalar α] {s : Settings α} {doc : Document} {p : Plan α}

/-- What the steps of a plan look up is there, from the start node to the places of all nodes. -/
structure Settings.Grounded (s : Settings α) (doc : Document) (p : Plan α) : Prop where
  start : ∃ start ∈ doc.nodes, startNode doc.nodes = .ok start ∧ p.levels.start = start.id ∧
    start.id ∈ p.graph.nodes
  /-- Each arc of the traversal leads from a level to the next, which exists or is the first that does
  not. -/
  arcs : ∃ arcs, p.graph.traverse p.levels.start = .ok arcs ∧
    ∀ before arc after, arcs = before ++ arc :: after → ∃ r k,
      before.foldlM Ranking.descend ⟨.ofList [(p.levels.start, 0)], [[p.levels.start]]⟩ = .ok r ∧
      r.level.get? arc.1 = some k ∧ k + 1 ≤ r.layers.length
  /-- Ordering a layer and pushing its nodes apart, whatever is placed already. -/
  layers : ∀ layer ∈ p.levels.layers, ∀ placed, ∃ order xs,
    (s.spacing.initial p.graph.parents placed layer).keys.Perm layer ∧
    Spacing.ordered layer (s.spacing.initial p.graph.parents placed layer) = .ok order ∧
    order.Perm layer ∧
    s.spacing.pushApart order (s.spacing.initial p.graph.parents placed layer) = .ok xs ∧
    xs.keys.Perm layer
  /-- A mean is only taken where there are parents to take it of. -/
  mean : ∀ (placed : Table String (Point α)) id x,
    Spacing.desired? p.graph.parents placed id = some x →
      0 < (Spacing.parentXs p.graph.parents placed id).length ∧
        x = Scalar.sum (Spacing.parentXs p.graph.parents placed id) /
          (((Spacing.parentXs p.graph.parents placed id).length : Nat) : α)
  kinds : doc.kinds.keys = doc.nodes.map (·.id)
  positions : p.positions.keys.Perm (doc.nodes.map (·.id))
  levels : p.levels.level.keys.Perm (doc.nodes.map (·.id))

theorem Spacing.desired?_eq_mean {parents : Table String (List String)} {placed : Table String (Point α)}
    {id : String} {x : α} (h : desired? parents placed id = some x) :
    0 < (parentXs parents placed id).length ∧
      x = Scalar.sum (parentXs parents placed id) / (((parentXs parents placed id).length : Nat) : α) := by
  rw [desired?] at h
  cases hxs : parentXs parents placed id with
  | nil =>
    rw [hxs] at h
    cases h
  | cons y ys =>
    rw [hxs] at h
    exact ⟨Nat.succ_pos _, (Option.some.inj h).symm⟩

theorem Settings.Planned.grounded (h : s.Planned doc p) (hne : doc.nodes ≠ [])
    (hn : (doc.nodes.map (·.id)).Nodup) : s.Grounded doc p := by
  obtain ⟨reached, hsound⟩ := h.sound hne hn
  have hlayers := hsound.perm hn
  obtain ⟨start, arcs, ranking, hstart, harcs, hranking, hid, -, -⟩ := Levels.assign_eq_ok h.levels
  obtain ⟨t, ht, hkeys⟩ := s.spacing.positions_keys hsound.layered.nodup p.graph.parents
    (Document.kinds_layers hn hlayers)
  rw [h.positions] at ht
  obtain rfl := Except.ok.inj ht
  refine ⟨?_, ⟨arcs, hid ▸ harcs, ?_⟩, ?_, ?_, ?_, hkeys.trans hlayers, ?_⟩
  · obtain ⟨start', hmem, hstart'⟩ := startNode_eq_ok hne
    obtain rfl := Except.ok.inj (hstart.symm.trans hstart')
    refine ⟨start, hmem, hstart, hid, ?_⟩
    rw [h.graph, Graph.mem_nodes_build]
    exact List.mem_map_of_mem hmem
  · rintro before arc after rfl
    rw [← hid] at hranking
    obtain ⟨r, r', hr, hdescend⟩ := foldlM_split hranking
    obtain ⟨k, hk, hle⟩ := Ranking.descend_eq_ok hdescend
    exact ⟨r, k, hr, hk, hle⟩
  · intro layer hlayer placed
    exact s.spacing.row_found ((List.nodup_flatten.mp hsound.layered.nodup).1 layer hlayer) _ placed
  · intro placed id x hx
    exact Spacing.desired?_eq_mean hx
  · rw [Document.kinds, Table.keys_ofList, List.map_map]
    exact distinct_of_nodup hn
  · rw [hsound.layered.keys]
    exact hlayers

end Grounded

namespace Settings

/-- A run on accepted settings has a result and a log for every text, whatever the coordinates are. It
is a diagram if some line declares a node, and each step of its plan finds what it looks up. -/
theorem run_returns {α : Type} [Scalar α] {c : Config α} {s : Settings α} (h : ofConfig c = .ok s)
    (hm : c.canvasMargin.InRange) (text : String) :
    ∃ r records, (s.run text).result = .ok r ∧ (s.run text).log = .ok records ∧
      (r.picture.diagram? = none ↔ (Document.read text).nodes = []) ∧
      ((Document.read text).nodes ≠ [] → ∃ p shift d,
        s.run text = .framed (Document.read text) p shift d ∧ s.Grounded (Document.read text) p) := by
  by_cases hne : (Document.read text).nodes = []
  · have hrun : s.run text = .empty (Document.read text) := if_pos hne
    rw [hrun]
    exact ⟨_, _, rfl, rfl, iff_of_true rfl hne, fun hnodes => absurd hne hnodes⟩
  · obtain ⟨p, shift, d, hrun, hplanned, -⟩ := run_shifted h hm hne
    rw [hrun]
    exact ⟨_, _, rfl, rfl, iff_of_false (Option.some_ne_none d) hne,
      fun _ => ⟨p, shift, d, rfl, hplanned.grounded hne (Document.nodup_ids text)⟩⟩

/-- Coordinates that are no numbers, and infinite ones, under a flow with a loop, an unreached node and
an undeclared end. -/
theorem run_returns_undefined : ∃ undefined infinite : Float, undefined = 0 / 0 ∧ infinite = 1 / 0 ∧
    ∃ s : Settings Float, ofConfig ⟨.real undefined, .real infinite, .real undefined, .real infinite,
        .real undefined, .real infinite⟩ = .ok s ∧
      ∃ r, (s.run "a -> b\ntask a \"A\"\na -> a\ntask c \"C\"").result = .ok r ∧
        r.picture.diagram? ≠ none := by
  refine ⟨_, _, rfl, rfl, ?_⟩
  obtain ⟨s, hs⟩ : ∃ s, ofConfig (⟨.real (0 / 0), .real (1 / 0), .real (0 / 0), .real (1 / 0),
      .real (0 / 0), .real (1 / 0)⟩ : Config Float) = .ok s := exists_ok (by decide +kernel)
  obtain ⟨r, records, hr, -, hpicture, -⟩ :=
    run_returns hs (Quantity.inRange_real _) "a -> b\ntask a \"A\"\na -> a\ntask c \"C\""
  refine ⟨s, hs, r, hr, ?_⟩
  rw [ne_eq, hpicture]
  decide +kernel

end Settings

end FlowDiagram
