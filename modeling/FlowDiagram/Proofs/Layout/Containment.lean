import FlowDiagram.Proofs.Layout.Diagram

namespace FlowDiagram

def Extent.Inside (width height : Rat) (b : Extent) : Prop :=
  (0 ≤ b.left ∧ b.right ≤ width) ∧ 0 ≤ b.top ∧ b.bottom ≤ height

/-- Where a margin is kept on all sides, everything is on the canvas; and the furthest element on the right
is over the edge of the canvas if the margin there is negative. -/
theorem Canvas.Fits.inside_iff {leftMargin canvasMargin shift : Rat} {d : Diagram Rat}
    (h : Fits leftMargin canvasMargin shift d) (hl : 0 ≤ leftMargin) :
    (∀ b ∈ extents d.nodes d.edges, b.Inside d.width d.height) ↔ 0 ≤ canvasMargin := by
  constructor
  · intro hall
    obtain ⟨b, hb, hright⟩ := h.right
    have hwidth : b.right ≤ d.width := (hall b hb).1.2
    linarith
  · intro hm b hb
    obtain ⟨⟨hleft, hright⟩, htop, hbottom⟩ := h.inside b hb
    exact ⟨⟨by linarith, by linarith⟩, by linarith, by linarith⟩

theorem Canvas.extents_nodes (nodes : List (PlacedNode Rat)) :
    extents nodes [] = nodes.map PlacedNode.extent := List.append_nil _

namespace Settings

variable {c : Config Rat} {s : Settings Rat}

def lone : String := "task a \"A\""

theorem read_lone : Document.read lone = ⟨[⟨"a", .task, "A", none⟩], [], []⟩ := rfl

theorem lone_nodes_ne_nil : (Document.read lone).nodes ≠ [] := by
  rw [read_lone]
  exact List.cons_ne_nil _ _

theorem Drawn.extents_lone {shift : Rat} {d : Diagram Rat} (h : Drawn c (Document.read lone) shift d) :
    Canvas.extents d.nodes d.edges = d.nodes.map PlacedNode.extent := by
  have hedges : d.edges = [] := by
    rw [h.edges, read_lone]
    rfl
  rw [hedges]
  exact Canvas.extents_nodes d.nodes

/-- Of every text with a node, all boxes, paths and labels lie on the canvas exactly if the canvas margin is
not negative. The other settings have no say in it, nor does the text: even of boxes alone there is one
over the edge in some diagram if the margin is negative. -/
theorem run_inside_iff (h : ofConfig c = .ok s) :
    (∀ text, (Document.read text).nodes ≠ [] → ∃ r d, (s.run text).result = .ok r ∧
      r.picture.diagram? = some d ∧
      ((∀ b ∈ Canvas.extents d.nodes d.edges, b.Inside d.width d.height) ↔ 0 ≤ c.canvasMargin.exact)) ∧
    ((∀ text, (Document.read text).nodes ≠ [] → ∃ r d, (s.run text).result = .ok r ∧
      r.picture.diagram? = some d ∧ ∀ n ∈ d.nodes, n.extent.Inside d.width d.height) ↔
        0 ≤ c.canvasMargin.exact) := by
  obtain ⟨-, -, -, hleft, -⟩ := (ofConfig_eq_ok c s).mp h
  have hrun : ∀ text, (Document.read text).nodes ≠ [] → ∃ r d shift, (s.run text).result = .ok r ∧
      r.picture.diagram? = some d ∧ Drawn c (Document.read text) shift d := by
    intro text hne
    obtain ⟨p, shift, d, hframed, -, hdrawn⟩ := run_drawn h hne
    exact ⟨_, d, shift, congrArg Run.result hframed, rfl, hdrawn⟩
  refine ⟨?_, ?_, ?_⟩
  · intro text hne
    obtain ⟨r, d, shift, hr, hd, hdrawn⟩ := hrun text hne
    exact ⟨r, d, hr, hd, hdrawn.fits.inside_iff hleft⟩
  · intro hall
    obtain ⟨r, d, shift, hr, hd, hdrawn⟩ := hrun lone lone_nodes_ne_nil
    obtain ⟨r', d', hr', hd', hinside⟩ := hall lone lone_nodes_ne_nil
    obtain rfl := Except.ok.inj (hr.symm.trans hr')
    obtain rfl := Option.some.inj (hd.symm.trans hd')
    apply (hdrawn.fits.inside_iff hleft).mp
    rw [hdrawn.extents_lone]
    intro b hb
    obtain ⟨n, hn, rfl⟩ := List.mem_map.mp hb
    exact hinside n hn
  · intro hm text hne
    obtain ⟨r, d, shift, hr, hd, hdrawn⟩ := hrun text hne
    refine ⟨r, d, hr, hd, ?_⟩
    intro n hn
    exact (hdrawn.fits.inside_iff hleft).mpr hm _
      (List.mem_append_left _ (List.mem_map_of_mem (f := PlacedNode.extent) hn))

theorem ofConfig_margin (k : Int) :
    ofConfig ({ canvasMargin := .int k } : Config Rat) = .ok ⟨⟨150, 120, 100, 60, 20⟩, .int 20, .int k⟩ := by
  apply (ofConfig_eq_ok _ _).mpr
  refine ⟨?_, ?_, ?_, ?_, rfl⟩ <;> norm_num [Quantity.exact]

theorem run_inside_iff_zero :
    let c : Config Rat := { canvasMargin := .int 0 }
    let s : Settings Rat := ⟨⟨150, 120, 100, 60, 20⟩, .int 20, .int 0⟩
    let text := "startEvent s \"S\"\ntask t \"T\"\ns -> t\nt -> s |again|"
    ofConfig c = .ok s ∧ ∃ r d, (s.run text).result = .ok r ∧ r.picture.diagram? = some d ∧
      ∀ b ∈ Canvas.extents d.nodes d.edges, b.Inside d.width d.height := by
  intro c s text
  have hs : ofConfig c = .ok s := ofConfig_margin 0
  have hne : (Document.read text).nodes ≠ [] := by
    have hread : (Document.read text).nodes =
        [⟨"s", .startEvent, "S", none⟩, ⟨"t", .task, "T", none⟩] := by
      decide +kernel
    rw [hread]
    exact List.cons_ne_nil _ _
  obtain ⟨r, d, hr, hd, hiff⟩ := (run_inside_iff hs).1 text hne
  exact ⟨hs, r, d, hr, hd, hiff.mpr (by decide)⟩

/-- With the canvas margin at minus fifty, which is accepted, the one box of a diagram reaches over the
right and the lower edge of the canvas. -/
theorem lone_outside :
    let c : Config Rat := { canvasMargin := .int (-50) }
    let s : Settings Rat := ⟨⟨150, 120, 100, 60, 20⟩, .int 20, .int (-50)⟩
    ofConfig c = .ok s ∧ ∃ r d, (s.run lone).result = .ok r ∧ r.picture.diagram? = some d ∧
      ∃ n ∈ d.nodes, n.id = "a" ∧ d.width < n.right ∧ d.height < n.bottom := by
  intro c s
  have hs : ofConfig c = .ok s := ofConfig_margin (-50)
  obtain ⟨p, shift, d, hrun, -, hdrawn⟩ := run_drawn hs lone_nodes_ne_nil
  obtain ⟨b, hb, hright⟩ := hdrawn.fits.right
  obtain ⟨b', hb', hbottom⟩ := hdrawn.fits.bottom
  rw [hdrawn.extents_lone] at hb hb'
  have hdeclared := hdrawn.arranged.declared
  rw [read_lone] at hdeclared
  obtain ⟨n, hn, hnode⟩ := List.map_eq_singleton_iff.mp hdeclared
  rw [hn] at hb hb'
  obtain rfl := List.mem_singleton.mp hb
  obtain rfl := List.mem_singleton.mp hb'
  have hmargin : c.canvasMargin.exact = -50 := by norm_num [c, Quantity.exact]
  rw [hmargin] at hright hbottom
  refine ⟨hs, _, d, congrArg Run.result hrun, rfl, n, hn ▸ List.mem_singleton_self n,
    congrArg Node.id hnode, ?_, ?_⟩
  · have hr : n.right = d.width - -50 := hright
    linarith
  · have hbot : n.bottom = d.height - -50 := hbottom
    linarith

end Settings

end FlowDiagram
