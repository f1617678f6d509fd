import FlowDiagram.Proofs.Layout.Canvas
import FlowDiagram.Proofs.Layout.Plan

namespace FlowDiagram

/-- The settings that place nodes, as the numbers they stand for. -/
def Config.exact (c : Config Rat) : Spacing Rat :=
  ⟨c.minSpacing.exact, c.levelSpacing.exact, c.baseX.exact, c.baseY.exact, c.leftMargin.exact⟩

namespace Settings

variable {c : Config Rat} {s : Settings Rat}

theorem ofConfig_eq_ok (c : Config Rat) (s : Settings Rat) :
    ofConfig c = .ok s ↔ 100 ≤ c.minSpacing.exact ∧ 80 < c.levelSpacing.exact ∧
      40 ≤ c.baseY.exact ∧ 0 ≤ c.leftMargin.exact ∧ ⟨c.exact, c.leftMargin, c.canvasMargin⟩ = s := by
  constructor
  · intro h
    cases hc : c.check with
    | error fault =>
      rw [ofConfig, hc] at h
      cases h
    | ok spacing =>
      rw [ofConfig, hc] at h
      obtain ⟨hmin, hlevel, hbase, hleft, rfl⟩ := (c.check_eq_ok spacing).mp hc
      exact ⟨hmin, hlevel, hbase, hleft, Except.ok.inj h⟩
  · intro h
    obtain ⟨hmin, hlevel, hbase, hleft, rfl⟩ := h
    rw [ofConfig, (c.check_eq_ok c.exact).mpr ⟨hmin, hlevel, hbase, hleft, rfl⟩]
    rfl

theorem ofConfig_default :
    ofConfig ({} : Config Rat) = .ok ⟨⟨150, 120, 100, 60, 20⟩, .int 20, .int 40⟩ := by
  apply (ofConfig_eq_ok {} _).mpr
  refine ⟨?_, ?_, ?_, ?_, rfl⟩ <;> norm_num [Quantity.exact]

/-- A diagram of a document: its nodes in their places, the routes between them, and a canvas. -/
structure Drawn (c : Config Rat) (doc : Document) (shift : Rat) (d : Diagram Rat) : Prop where
  arranged : Arranged c.exact doc d.nodes
  edges : d.edges = Route.all c.leftMargin.exact d.nodes doc.edges
  fits : Canvas.Fits c.leftMargin.exact c.canvasMargin.exact shift d

theorem Drawn.declared {doc : Document} {shift : Rat} {d : Diagram Rat} (h : Drawn c doc shift d) :
    d.edges.map (·.toEdge) = doc.edges := by
  rw [h.edges]
  exact Route.toEdge_all _ _ _

theorem Drawn.nodup_ids {text : String} {shift : Rat} {d : Diagram Rat}
    (h : Drawn c (Document.read text) shift d) : (d.nodes.map (·.id)).Nodup := by
  rw [ids_of_declared h.arranged.declared]
  exact Document.nodup_ids text

theorem Planned.extents_left {doc : Document} {p : Plan Rat} (h : s.Planned doc p)
    (ha : Arranged s.spacing doc p.nodes) (hn : (doc.nodes.map (·.id)).Nodup) :
    ∀ b ∈ Canvas.extents p.nodes p.edges, s.spacing.leftMargin ≤ b.left := by
  intro b hb
  obtain hb | hb := List.mem_append.mp hb
  · obtain ⟨n, hm, rfl⟩ := List.mem_map.mp hb
    exact ha.left n hm
  · obtain ⟨e, he, hb⟩ := List.mem_flatMap.mp hb
    have hids : (p.nodes.map (·.id)).Nodup := ids_of_declared h.declared ▸ hn
    rw [h.edges] at he
    exact Route.extents_left doc.edges hids ha.left e he b hb

theorem run_planned (s : Settings Rat) {text : String} (hne : (Document.read text).nodes ≠ []) :
    ∃ p shift d, s.run text = .framed (Document.read text) p shift d ∧
      s.Planned (Document.read text) p ∧ s.Framed p shift d := by
  obtain ⟨p, hp, hplanned⟩ := plan_spec s hne (Document.nodup_ids text)
  obtain ⟨shift, d, hd, hframed⟩ := frame_spec s p
  refine ⟨p, shift, d, ?_, hplanned, hframed⟩
  rw [run]
  simp only [if_neg hne, hp, hd]

theorem Planned.drawn (h : ofConfig c = .ok s) {text : String} (hne : (Document.read text).nodes ≠ [])
    {p : Plan Rat} {shift : Rat} {d : Diagram Rat} (hplanned : s.Planned (Document.read text) p)
    (hframed : s.Framed p shift d) : Drawn c (Document.read text) shift d := by
  obtain ⟨hmin, hlevel, hbase, hleft, rfl⟩ := (ofConfig_eq_ok c s).mp h
  have hids := Document.nodup_ids text
  have hpos : 0 ≤ c.minSpacing.exact := by linarith
  have harranged := hplanned.arranged hpos hne hids
  have hnodes : p.nodes ≠ [] := by
    intro hnil
    have hdecl := hplanned.declared
    rw [hnil] at hdecl
    exact hne hdecl.symm
  refine ⟨?_, ?_, ?_⟩
  · rw [hframed.nodes]
    exact harranged.move shift
  · rw [hframed.edges, hframed.nodes, hplanned.edges, ← Route.all_move]
    rfl
  · exact hframed.fits hnodes hleft (hplanned.extents_left harranged hids)

theorem run_drawn (h : ofConfig c = .ok s) {text : String} (hne : (Document.read text).nodes ≠ []) :
    ∃ p shift d, s.run text = .framed (Document.read text) p shift d ∧ s.Framed p shift d ∧
      Drawn c (Document.read text) shift d := by
  obtain ⟨p, shift, d, hrun, hplanned, hframed⟩ := run_planned s hne
  exact ⟨p, shift, d, hrun, hframed, hplanned.drawn h hne hframed⟩

theorem run_result (h : ofConfig c = .ok s) (text : String) :
    ∃ r, (s.run text).result = .ok r ∧
      (r.picture.diagram? = none ↔ (Document.read text).nodes = []) ∧
      ∀ d, r.picture.diagram? = some d → ∃ shift, Drawn c (Document.read text) shift d := by
  by_cases hne : (Document.read text).nodes = []
  · refine ⟨⟨.message noNodesMessage, (Document.read text).diagnostics⟩, ?_, ?_, ?_⟩
    · rw [run]
      simp only [if_pos hne]
      rfl
    · exact iff_of_true rfl hne
    · intro d hd
      cases hd
  · obtain ⟨p, shift, d, hrun, -, hdrawn⟩ := run_drawn h hne
    refine ⟨⟨.diagram d, Run.diagnostics (Document.read text) p⟩, ?_, ?_, ?_⟩
    · rw [hrun]
      rfl
    · exact iff_of_false (Option.some_ne_none d) hne
    · intro d' hd
      obtain rfl := Option.some.inj hd
      exact ⟨shift, hdrawn⟩

/-- Boxes, paths and labels lie inside the margins of the canvas, which is no larger than it has to
be; and a diagram is moved down only as far as the top margin asks for. -/
theorem run_fits (h : ofConfig c = .ok s) (text : String) (hne : (Document.read text).nodes ≠ []) :
    ∃ p shift d, s.run text = .framed (Document.read text) p shift d ∧
      d.nodes.map (·.toNode) = (Document.read text).nodes ∧
      d.edges.map (·.toEdge) = (Document.read text).edges ∧
      d.nodes = p.nodes.map (Canvas.moveNode shift) ∧
      d.edges = p.edges.map (Canvas.moveEdge shift) ∧
      Canvas.Fits c.leftMargin.exact c.canvasMargin.exact shift d := by
  obtain ⟨p, shift, d, hrun, hframed, hdrawn⟩ := run_drawn h hne
  exact ⟨p, shift, d, hrun, hdrawn.arranged.declared, hdrawn.declared, hframed.nodes,
    hframed.edges, hdrawn.fits⟩

/-- A path around the first box, with a label over the top margin. -/
theorem run_fits_loop :
    let s : Settings Rat := ⟨⟨150, 120, 100, 60, 20⟩, .int 20, .int 40⟩
    let text := "startEvent s \"S\"\ntask t \"T\"\ns -> t\nt -> s |again|"
    ofConfig {} = .ok s ∧ (Document.read text).nodes ≠ [] ∧
      ∃ p shift d, s.run text = .framed (Document.read text) p shift d ∧
        d.nodes.map (·.toNode) = (Document.read text).nodes ∧
        d.edges.map (·.toEdge) = (Document.read text).edges ∧
        d.nodes = p.nodes.map (Canvas.moveNode shift) ∧
        d.edges = p.edges.map (Canvas.moveEdge shift) ∧ Canvas.Fits 20 40 shift d := by
  intro s text
  have hs : ofConfig {} = .ok s := ofConfig_default
  have hne : (Document.read text).nodes ≠ [] := by
    have hread : (Document.read text).nodes =
        [⟨"s", .startEvent, "S", none⟩, ⟨"t", .task, "T", none⟩] := by
      decide +kernel
    rw [hread]
    exact List.cons_ne_nil _ _
  exact ⟨hs, hne, run_fits hs text hne⟩

/-- No two boxes overlap: rows keep the level distance, and nodes in a row the least distance. -/
theorem run_disjoint (h : ofConfig c = .ok s) (text : String) :
    ∃ r, (s.run text).result = .ok r ∧
      (r.picture.diagram? = none ↔ (Document.read text).nodes = []) ∧
      ∀ d, r.picture.diagram? = some d →
        d.nodes.map (·.toNode) = (Document.read text).nodes ∧ (d.nodes.map (·.id)).Nodup ∧
        ∀ a ∈ d.nodes, ∀ b ∈ d.nodes, a.id ≠ b.id →
          a.extent.interior ∩ b.extent.interior = ∅ ∧
          (a.level = b.level → c.minSpacing.exact ≤ |a.x - b.x| ∧ a.y = b.y) ∧
          a.y - b.y = (a.level - b.level) * c.levelSpacing.exact := by
  obtain ⟨hmin, hlevel, -, -, -⟩ := (ofConfig_eq_ok c s).mp h
  obtain ⟨r, hr, hnone, hsome⟩ := run_result h text
  refine ⟨r, hr, hnone, ?_⟩
  intro d hd
  obtain ⟨shift, hdrawn⟩ := hsome d hd
  have ha := hdrawn.arranged
  refine ⟨ha.declared, hdrawn.nodup_ids, ?_⟩
  intro a hma b hmb hab
  have hy : a.y - b.y = (a.level - b.level) * c.levelSpacing.exact := ha.y_sub hma hmb
  refine ⟨ha.disjoint_interior hmin hlevel hma hmb hab, ?_, hy⟩
  intro heq
  refine ⟨ha.apart a hma b hmb hab heq, ?_⟩
  rw [heq, sub_self, zero_mul] at hy
  exact sub_eq_zero.mp hy

theorem run_disjoint_fan :
    let s : Settings Rat := ⟨⟨150, 120, 100, 60, 20⟩, .int 20, .int 40⟩
    let text := "startEvent s \"S\"\ntask a \"A\"\ngateway b \"B\"\ntask c \"C\"\ns -> a\ns -> b"
    ofConfig {} = .ok s ∧ ∃ r d, (s.run text).result = .ok r ∧ r.picture.diagram? = some d ∧
      d.nodes.map (·.id) = ["s", "a", "b", "c"] ∧
      ∀ a ∈ d.nodes, ∀ b ∈ d.nodes, a.id ≠ b.id →
        a.extent.interior ∩ b.extent.interior = ∅ ∧
        (a.level = b.level → 150 ≤ |a.x - b.x| ∧ a.y = b.y) ∧
        a.y - b.y = (a.level - b.level) * 120 := by
  intro s text
  have hs : ofConfig {} = .ok s := ofConfig_default
  have hread : (Document.read text).nodes = [⟨"s", .startEvent, "S", none⟩,
      ⟨"a", .task, "A", none⟩, ⟨"b", .gateway, "B", none⟩, ⟨"c", .task, "C", none⟩] := by
    decide +kernel
  obtain ⟨r, hr, hnone, hsome⟩ := run_disjoint hs text
  rw [hread] at hnone
  obtain ⟨d, hd⟩ := Option.ne_none_iff_exists'.mp fun hn => List.cons_ne_nil _ _ (hnone.mp hn)
  obtain ⟨hdecl, -, hall⟩ := hsome d hd
  refine ⟨hs, r, d, hr, hd, ?_, hall⟩
  rw [ids_of_declared hdecl, hread]
  rfl

/-- The levels decide how an edge is routed: down to the next level over the line between the boxes,
to the same level or back up around them; no edge skips a level. -/
theorem run_follows (h : ofConfig c = .ok s) (text : String) :
    ∃ r, (s.run text).result = .ok r ∧
      (r.picture.diagram? = none ↔ (Document.read text).nodes = []) ∧
      ∀ d, r.picture.diagram? = some d →
        d.nodes.map (·.toNode) = (Document.read text).nodes ∧
        d.edges.map (·.toEdge) = (Document.read text).edges ∧
        ∀ e ∈ d.edges, ∀ u ∈ d.nodes, ∀ v ∈ d.nodes, u.id = e.source → v.id = e.target →
          v.level ≤ u.level + 1 ∧
          (u.bottom < v.top ↔ v.level = u.level + 1) ∧
          (v.level = u.level + 1 →
            Route.Follows c.leftMargin.exact e u (Route.forward u v)) ∧
          (v.level ≤ u.level → Route.Follows c.leftMargin.exact e u (Route.around u v)) := by
  obtain ⟨-, hlevel, -, -, -⟩ := (ofConfig_eq_ok c s).mp h
  obtain ⟨r, hr, hnone, hsome⟩ := run_result h text
  refine ⟨r, hr, hnone, ?_⟩
  intro d hd
  obtain ⟨shift, hdrawn⟩ := hsome d hd
  have ha := hdrawn.arranged
  refine ⟨ha.declared, hdrawn.declared, ?_⟩
  intro e he u hu v hv hsource htarget
  rw [hdrawn.edges] at he
  obtain ⟨hmem, hbetween⟩ := Route.mem_all hdrawn.nodup_ids he hu hv hsource htarget
  have hrise := ha.rise e.toEdge hmem u hu v hv hsource htarget
  have hbelow := ha.bottom_lt_top hlevel hu hv
  have hfollows := Route.follows_between c.leftMargin.exact e.toEdge u v
  rw [← hbetween] at hfollows
  refine ⟨hrise, ?_, ?_, ?_⟩
  · rw [hbelow]
    omega
  · intro hnext
    have hlt : u.level < v.level := by omega
    rw [Route.course_of_below (hbelow.mpr hlt)] at hfollows
    exact hfollows
  · intro hback
    have hnot : ¬ u.bottom < v.top := by
      rw [hbelow]
      omega
    rw [Route.course_of_not_below hnot] at hfollows
    exact hfollows

theorem run_follows_loop :
    let s : Settings Rat := ⟨⟨150, 120, 100, 60, 20⟩, .int 20, .int 40⟩
    let text := "startEvent s \"S\"\ntask t \"T\"\ns -> t\nt -> s |again|"
    ofConfig {} = .ok s ∧ ∃ r d, (s.run text).result = .ok r ∧ r.picture.diagram? = some d ∧
      d.nodes.map (·.id) = ["s", "t"] ∧ d.edges.map (·.toEdge) = [⟨"s", "t", ""⟩, ⟨"t", "s", "again"⟩] ∧
      ∀ e ∈ d.edges, ∀ u ∈ d.nodes, ∀ v ∈ d.nodes, u.id = e.source → v.id = e.target →
        v.level ≤ u.level + 1 ∧ (u.bottom < v.top ↔ v.level = u.level + 1) ∧
        (v.level = u.level + 1 → Route.Follows 20 e u (Route.forward u v)) ∧
        (v.level ≤ u.level → Route.Follows 20 e u (Route.around u v)) := by
  intro s text
  have hs : ofConfig {} = .ok s := ofConfig_default
  have hread : Document.read text = ⟨[⟨"s", .startEvent, "S", none⟩, ⟨"t", .task, "T", none⟩],
      [⟨"s", "t", ""⟩, ⟨"t", "s", "again"⟩], []⟩ := by
    decide +kernel
  obtain ⟨r, hr, hnone, hsome⟩ := run_follows hs text
  rw [hread] at hnone
  obtain ⟨d, hd⟩ := Option.ne_none_iff_exists'.mp fun hn => List.cons_ne_nil _ _ (hnone.mp hn)
  obtain ⟨hdecl, hedges, hall⟩ := hsome d hd
  refine ⟨hs, r, d, hr, hd, ?_, ?_, hall⟩
  · rw [ids_of_declared hdecl, hread]
    rfl
  · rw [hedges, hread]

/-- A diagram is in agreement with itself: routing over its own nodes, which were moved after their edges
were routed, gives its edges, and nothing is left to move down. For routes follow their nodes: moving the
nodes of any layout down moves all its routes by as much. -/
theorem run_rerouted (h : ofConfig c = .ok s) :
    (∀ text, ∃ r, (s.run text).result = .ok r ∧
      (r.picture.diagram? = none ↔ (Document.read text).nodes = []) ∧
      ∀ d, r.picture.diagram? = some d →
        d.nodes.map (·.toNode) = (Document.read text).nodes ∧
        Route.all c.leftMargin.exact d.nodes (Document.read text).edges = d.edges ∧
        Canvas.overflow c.leftMargin.exact d.nodes d.edges = 0) ∧
    ∀ (leftMargin dy : Rat) (nodes : List (PlacedNode Rat)) (edges : List Edge),
      Route.all leftMargin (nodes.map (Canvas.moveNode dy)) edges =
        (Route.all leftMargin nodes edges).map (Canvas.moveEdge dy) := by
  refine ⟨?_, ?_⟩
  · intro text
    obtain ⟨r, hr, hnone, hsome⟩ := run_result h text
    refine ⟨r, hr, hnone, ?_⟩
    intro d hd
    obtain ⟨shift, hdrawn⟩ := hsome d hd
    refine ⟨hdrawn.arranged.declared, hdrawn.edges.symm, ?_⟩
    apply Canvas.overflow_eq_zero
    intro b hb
    exact (hdrawn.fits.inside b hb).2.1
  · intro leftMargin dy nodes edges
    exact Route.all_move dy leftMargin nodes edges

/-- A labelled path back to the first node, which reaches over the top margin before the move; and its
nodes moved by seven. -/
theorem run_rerouted_loop :
    let s : Settings Rat := ⟨⟨150, 120, 100, 60, 20⟩, .int 20, .int 40⟩
    let text := "startEvent s \"S\"\ntask t \"T\"\ns -> t\nt -> s |again|"
    let edges : List Edge := [⟨"s", "t", ""⟩, ⟨"t", "s", "again"⟩]
    ofConfig {} = .ok s ∧ ∃ r d, (s.run text).result = .ok r ∧ r.picture.diagram? = some d ∧
      d.nodes.map (·.id) = ["s", "t"] ∧ Route.all 20 d.nodes edges = d.edges ∧
      Canvas.overflow 20 d.nodes d.edges = 0 ∧
      Route.all 20 (d.nodes.map (Canvas.moveNode 7)) edges = d.edges.map (Canvas.moveEdge 7) := by
  intro s text edges
  have hs : ofConfig {} = .ok s := ofConfig_default
  have hread : Document.read text = ⟨[⟨"s", .startEvent, "S", none⟩, ⟨"t", .task, "T", none⟩],
      edges, []⟩ := by
    decide +kernel
  obtain ⟨hrun, hmove⟩ := run_rerouted hs
  obtain ⟨r, hr, hnone, hsome⟩ := hrun text
  rw [hread] at hnone hsome
  obtain ⟨d, hd⟩ := Option.ne_none_iff_exists'.mp fun hn => List.cons_ne_nil _ _ (hnone.mp hn)
  obtain ⟨hdecl, hedges, hclear⟩ := hsome d hd
  refine ⟨hs, r, d, hr, hd, ?_, hedges, hclear, ?_⟩
  · rw [@ids_of_declared _ ⟨_, edges, []⟩ _ hdecl]
    rfl
  · have hmoved := hmove 20 7 d.nodes edges
    have hleft : Route.all 20 d.nodes edges = d.edges := hedges
    rwa [hleft] at hmoved

end Settings

end FlowDiagram
