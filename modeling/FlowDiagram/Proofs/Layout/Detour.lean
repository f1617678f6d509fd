import FlowDiagram.Proofs.Layout.Clearance

namespace FlowDiagram

namespace Route

variable {m n k : PlacedNode Rat}

theorem ends_mem_line_around (h : ¬ m.bottom < n.top) :
    m.exit ∈ line (path m n) ∧ n.entry ∈ line (path m n) := by
  constructor <;> apply mem_line <;> rw [path_around h]
  · exact List.mem_cons_self ..
  · simp

theorem right_lt_channel : m.right < channel m n ∧ n.right < channel m n := by
  have hm := le_max_left m.right n.right
  have hn := le_max_right m.right n.right
  rw [channel]
  constructor <;> linarith

/-- Three of the five legs keep off every box that ends above the lower run, begins below the upper run, and
stands left of the channel. What remains is the way down from the source and the way down to the target. -/
theorem drop_of_mem_box (h : ¬ m.bottom < n.top) (hunder : k.bottom < m.bottom + 20) (hover : n.top - 20 < k.top)
    (hright : k.right < channel m n) {p : Point Rat} (hp : p ∈ line (path m n)) (hk : p ∈ k.extent.box) :
    (p.x = m.x ∧ m.bottom ≤ p.y) ∨ (p.x = n.x ∧ p.y ≤ n.top) := by
  obtain ⟨⟨-, hkright⟩, hktop, hkbottom⟩ := hk
  obtain hdown | hout | hclimb | hback | hlast := line_around h hp
  · exact .inl ⟨le_antisymm hdown.1.2 hdown.1.1, hdown.2.1⟩
  · exact absurd (hout.2.1.trans hkbottom) (not_le.mpr hunder)
  · exact absurd (hclimb.1.1.trans hkright) (not_le.mpr hright)
  · exact absurd (hktop.trans hback.2.2) (not_le.mpr hover)
  · exact .inr ⟨le_antisymm hlast.1.2 hlast.1.1, hlast.2.2⟩

theorem line_inter_loop (n : PlacedNode Rat) : line (path n n) ∩ n.extent.box = {n.exit, n.entry} := by
  have h : ¬ n.bottom < n.top := not_lt.mpr n.top_le_bottom
  have hunder : n.bottom < n.bottom + 20 := by linarith
  have hover : n.top - 20 < n.top := by linarith
  obtain ⟨hexit, hentry⟩ := ends_mem_line_around h
  apply Set.Subset.antisymm
  · rintro p ⟨hline, hbox⟩
    obtain ⟨hx, hy⟩ | ⟨hx, hy⟩ := drop_of_mem_box h hunder hover right_lt_channel.1 hline hbox
    · exact .inl (Point.eq_mk hx (le_antisymm hbox.2.2 hy))
    · exact .inr (Point.eq_mk hx (le_antisymm hy hbox.2.1))
  · rintro p (rfl | rfl)
    · exact ⟨hexit, n.exit_mem_box⟩
    · exact ⟨hentry, n.entry_mem_box⟩

end Route

namespace Arranged

variable {s : Spacing Rat} {doc : Document} {nodes : List (PlacedNode Rat)} {u v : PlacedNode Rat}

/-- A node that is not below another ends less than the clearance below it, and begins less than the clearance
below the beginning of it. -/
theorem heights_near (h : Arranged s doc nodes) (hs : 80 < s.levelSpacing) (hu : u ∈ nodes) (hv : v ∈ nodes)
    (hle : v.level ≤ u.level) : v.bottom < u.bottom + 20 ∧ v.top - 20 < u.top := by
  obtain hrow | habove := hle.eq_or_lt
  · have hy := h.y_eq hu hv hrow
    -- In one row the heights of two boxes differ by 30 at most, by half of it on either side.
    have hshort := u.shortest_le_height
    have htall := u.height_le_tallest
    have hshort' := v.shortest_le_height
    have htall' := v.height_le_tallest
    rw [v.bottom_rat, u.bottom_rat, v.top_rat, u.top_rat]
    constructor <;> linarith
  · have hclear := (h.bottom_lt_top hs hv hu).mpr habove
    have hheight := u.top_le_bottom
    have hheight' := v.top_le_bottom
    constructor <;> linarith

/-- The way down to the target ends above the box of the source, and the way down from the source begins below
the box of the target; in one row they are beside these boxes. -/
theorem drops_apart (h : Arranged s doc nodes) (hmin : 100 ≤ s.minSpacing) (hs : 80 < s.levelSpacing)
    (hu : u ∈ nodes) (hv : v ∈ nodes) (hne : u.id ≠ v.id) (hle : v.level ≤ u.level) :
    (∀ p ∈ u.extent.box, p.x = v.x → v.top < p.y) ∧ ∀ p ∈ v.extent.box, p.x = u.x → p.y < u.bottom := by
  obtain hrow | habove := hle.eq_or_lt
  · exact ⟨fun p hp hx => absurd (hx ▸ hp.1) (h.outside_column hmin hv hu hne hrow.symm),
      fun p hp hx => absurd (hx ▸ hp.1) (h.outside_column hmin hu hv hne.symm hrow)⟩
  · have hclear := (h.bottom_lt_top hs hv hu).mpr habove
    have hheight := u.top_le_bottom
    have hheight' := v.top_le_bottom
    constructor
    · intro p hp _
      have htop : u.top ≤ p.y := hp.2.1
      linarith
    · intro p hp _
      have hbottom : p.y ≤ v.bottom := hp.2.2
      linarith

theorem detour_source (h : Arranged s doc nodes) (hmin : 100 ≤ s.minSpacing) (hs : 80 < s.levelSpacing)
    (hu : u ∈ nodes) (hv : v ∈ nodes) (hne : u.id ≠ v.id) (hle : v.level ≤ u.level) :
    Route.line (Route.path u v) ∩ u.extent.box = {u.exit} := by
  have haround : ¬ u.bottom < v.top := mt (h.bottom_lt_top hs hu hv).mp (not_lt.mpr hle)
  have hunder : u.bottom < u.bottom + 20 := by linarith
  obtain ⟨-, hover⟩ := h.heights_near hs hu hv hle
  obtain ⟨hapart, -⟩ := h.drops_apart hmin hs hu hv hne hle
  apply Set.eq_singleton_iff_unique_mem.mpr
  refine ⟨⟨(Route.ends_mem_line_around haround).1, u.exit_mem_box⟩, ?_⟩
  rintro p ⟨hline, hbox⟩
  obtain ⟨hx, hy⟩ | ⟨hx, hy⟩ := Route.drop_of_mem_box haround hunder hover Route.right_lt_channel.1 hline hbox
  · exact Point.eq_mk hx (le_antisymm hbox.2.2 hy)
  · exact absurd hy (not_le.mpr (hapart p hbox hx))

theorem detour_target (h : Arranged s doc nodes) (hmin : 100 ≤ s.minSpacing) (hs : 80 < s.levelSpacing)
    (hu : u ∈ nodes) (hv : v ∈ nodes) (hne : u.id ≠ v.id) (hle : v.level ≤ u.level) :
    Route.line (Route.path u v) ∩ v.extent.box = {v.entry} := by
  have haround : ¬ u.bottom < v.top := mt (h.bottom_lt_top hs hu hv).mp (not_lt.mpr hle)
  have hover : v.top - 20 < v.top := by linarith
  obtain ⟨hunder, -⟩ := h.heights_near hs hu hv hle
  obtain ⟨-, hapart⟩ := h.drops_apart hmin hs hu hv hne hle
  apply Set.eq_singleton_iff_unique_mem.mpr
  refine ⟨⟨(Route.ends_mem_line_around haround).2, v.entry_mem_box⟩, ?_⟩
  rintro p ⟨hline, hbox⟩
  obtain ⟨hx, hy⟩ | ⟨hx, hy⟩ := Route.drop_of_mem_box haround hunder hover Route.right_lt_channel.2 hline hbox
  · exact absurd hy (not_le.mpr (hapart p hbox hx))
  · exact Point.eq_mk hx (le_antisymm hy hbox.2.1)

theorem detour_ends (h : Arranged s doc nodes) (hids : (nodes.map (·.id)).Nodup) (hmin : 100 ≤ s.minSpacing)
    (hs : 80 < s.levelSpacing) (hu : u ∈ nodes) (hv : v ∈ nodes) (hle : v.level ≤ u.level) :
    Route.line (Route.path u v) ∩ (u.extent.box ∪ v.extent.box) = {u.exit, v.entry} := by
  -- A loop has one box; of two different boxes each is met at its own end.
  by_cases hid : u.id = v.id
  · obtain rfl := List.inj_on_of_nodup_map hids hu hv hid
    rw [Set.union_self]
    exact Route.line_inter_loop u
  · rw [Set.inter_union_distrib_left, h.detour_source hmin hs hu hv hid hle, h.detour_target hmin hs hu hv hid hle]
    rfl

end Arranged

namespace Settings

variable {c : Config Rat} {s : Settings Rat}

theorem Drawn.exists_ends {text : String} {shift : Rat} {d : Diagram Rat}
    (h : Drawn c (Document.read text) shift d) {e : RoutedEdge Rat} (he : e ∈ d.edges) (hrouted : e.isRouted = true) :
    ∃ u ∈ d.nodes, ∃ v ∈ d.nodes, u.id = e.source ∧ v.id = e.target := by
  rw [h.edges] at he
  obtain ⟨u, hu, v, hv, hsource, htarget, -⟩ | ⟨hpath, -⟩ := Route.between_or_bare h.nodup_ids he
  · exact ⟨u, hu, v, hv, hsource, htarget⟩
  · rw [RoutedEdge.isRouted, hpath] at hrouted
    cases hrouted

/-- An edge that leads up, to a node of the same level, or to its own source goes around: of the boxes of its
source and its target it touches, borders included, no more than the middle of the lower side of the source
and the middle of the upper side of the target. -/
theorem run_detour_clear (h : ofConfig c = .ok s) (text : String) :
    ∃ r, (s.run text).result = .ok r ∧
      (r.picture.diagram? = none ↔ (Document.read text).nodes = []) ∧
      ∀ d, r.picture.diagram? = some d →
        d.nodes.map (·.toNode) = (Document.read text).nodes ∧
        d.edges.map (·.toEdge) = (Document.read text).edges ∧
        ∀ e ∈ d.edges,
          (e.isRouted = true → ∃ u ∈ d.nodes, ∃ v ∈ d.nodes, u.id = e.source ∧ v.id = e.target) ∧
          ∀ u ∈ d.nodes, ∀ v ∈ d.nodes, u.id = e.source → v.id = e.target →
            (¬ u.bottom < v.top ↔ v.level ≤ u.level) ∧
            (v.level ≤ u.level →
              Route.line e.path ∩ (u.extent.box ∪ v.extent.box) = {u.exit, v.entry} ∧
              (u.id ≠ v.id → Route.line e.path ∩ u.extent.box = {u.exit} ∧
                Route.line e.path ∩ v.extent.box = {v.entry})) := by
  obtain ⟨hmin, hlevel, -, -, -⟩ := (ofConfig_eq_ok c s).mp h
  obtain ⟨r, hr, hnone, hsome⟩ := run_result h text
  refine ⟨r, hr, hnone, ?_⟩
  intro d hd
  obtain ⟨shift, hdrawn⟩ := hsome d hd
  have ha := hdrawn.arranged
  refine ⟨ha.declared, hdrawn.declared, ?_⟩
  intro e he
  refine ⟨hdrawn.exists_ends he, ?_⟩
  intro u hu v hv hsource htarget
  have hpath := (hdrawn.path_eq he hu hv hsource htarget).2
  refine ⟨(not_congr (ha.bottom_lt_top hlevel hu hv)).trans not_lt, ?_⟩
  intro hle
  rw [hpath]
  exact ⟨ha.detour_ends hdrawn.nodup_ids hmin hlevel hu hv hle,
    fun hne => ⟨ha.detour_source hmin hlevel hu hv hne hle, ha.detour_target hmin hlevel hu hv hne hle⟩⟩

def entangled : String :=
  "startEvent s \"S\"\ntask a \"A\"\ngateway b \"B\"\ns -> a\ns -> b\na -> b\na -> s\na -> a"

set_option maxRecDepth 2000 in
theorem read_entangled : Document.read entangled =
    ⟨[⟨"s", .startEvent, "S", none⟩, ⟨"a", .task, "A", none⟩, ⟨"b", .gateway, "B", none⟩],
      [⟨"s", "a", ""⟩, ⟨"s", "b", ""⟩, ⟨"a", "b", ""⟩, ⟨"a", "s", ""⟩, ⟨"a", "a", ""⟩], []⟩ := by
  rfl

/-- In rows as close as they may be, and among paths to a taller box beside the source and to the row above,
the path of the loop. -/
theorem run_detour_clear_loop :
    let c : Config Rat := { levelSpacing := .int 81 }
    let s : Settings Rat := ⟨⟨150, 81, 100, 60, 20⟩, .int 20, .int 40⟩
    ofConfig c = .ok s ∧ ∃ r d, (s.run entangled).result = .ok r ∧ r.picture.diagram? = some d ∧
      d.nodes.map (·.id) = ["s", "a", "b"] ∧
      (∀ e ∈ d.edges, ∀ u ∈ d.nodes, ∀ v ∈ d.nodes, u.id = e.source → v.id = e.target → v.level ≤ u.level →
        Route.line e.path ∩ (u.extent.box ∪ v.extent.box) = {u.exit, v.entry}) ∧
      ∃ e ∈ d.edges, ∃ u ∈ d.nodes, u.kind = .task ∧
        Route.line e.path ∩ (u.extent.box ∪ u.extent.box) = {u.exit, u.entry} := by
  intro c s
  have hs : ofConfig c = .ok s := ofConfig_level 81 (by decide)
  obtain ⟨r, hr, hnone, hsome⟩ := run_detour_clear hs entangled
  rw [read_entangled] at hnone
  obtain ⟨d, hd⟩ := Option.ne_none_iff_exists'.mp fun hn => List.cons_ne_nil _ _ (hnone.mp hn)
  obtain ⟨hnodes, hedges, hclear⟩ := hsome d hd
  have hids := ids_of_declared hnodes
  rw [read_entangled] at hnodes hedges hids
  have htask : (⟨"a", .task, "A", none⟩ : Node) ∈ d.nodes.map (·.toNode) := by
    rw [hnodes]
    simp
  have hloop : (⟨"a", "a", ""⟩ : Edge) ∈ d.edges.map (·.toEdge) := by
    rw [hedges]
    simp
  obtain ⟨u, hu, hnode⟩ := List.mem_map.mp htask
  obtain ⟨e, he, hedge⟩ := List.mem_map.mp hloop
  have hid : u.id = "a" := congrArg Node.id hnode
  have hsource : u.id = e.source := hid.trans (congrArg Edge.source hedge).symm
  have htarget : u.id = e.target := hid.trans (congrArg Edge.target hedge).symm
  refine ⟨hs, r, d, hr, hd, hids, ?_, e, he, u, hu, congrArg Node.kind hnode, ?_⟩
  · intro e he u hu v hv hsource htarget hle
    exact (((hclear e he).2 u hu v hv hsource htarget).2 hle).1
  · exact (((hclear e he).2 u hu u hu hsource htarget).2 le_rfl).1

end Settings

end FlowDiagram
