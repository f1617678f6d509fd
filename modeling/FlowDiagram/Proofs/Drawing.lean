import FlowDiagram.Proofs.Layout.Exact
import FlowDiagram.Proofs.Raster.Font

namespace FlowDiagram

variable {α : Type} [Scalar α]

namespace Svg

variable (style : Style)

omit [Scalar α] in
theorem edgeLabel_eq [Scalar α] (e : RoutedEdge α) : edgeLabel style e = e.captions.map (image style) := by
  rw [edgeLabel, RoutedEdge.captions]
  cases e.anchor with
  | none => rfl
  | some p =>
    dsimp only
    split <;> rfl

theorem edge_eq (e : RoutedEdge α) : edge style e = e.items.map (image style) := by
  rw [edge, RoutedEdge.items, edgeLabel_eq]
  split <;> rfl

theorem shape_eq (n : PlacedNode α) : shape n = figureImage n.kind n.figure := by
  rw [shape, PlacedNode.figure]
  cases n.kind.shape <;> rfl

theorem actor_eq (n : PlacedNode α) : actor style n = (n.shownActor?.map (cornered style n.box)).toList := by
  rw [actor]
  cases n.shownActor? <;> rfl

theorem node_eq (n : PlacedNode α) : node style n = image style n.item := by
  rw [node, shape_eq, actor_eq, PlacedNode.item, image]

theorem diagram_eq (d : Diagram α) :
    diagram style d = root (canvas style d) (arrowMarker style :: d.items.map (image style)) := by
  have hedges : d.edges.flatMap (edge style) = (d.edges.flatMap RoutedEdge.items).map (image style) := by
    rw [List.map_flatMap]
    exact congrArg (List.flatMap · d.edges) (funext (edge_eq style))
  have hnodes : d.nodes.map (node style) = (d.nodes.map PlacedNode.item).map (image style) := by
    rw [List.map_map]
    exact congrArg (List.map · d.nodes) (funext (node_eq style))
  rw [diagram, Diagram.items, List.map_append, hedges, hnodes]
  rfl

end Svg

namespace Raster.Kit

variable (kit : Kit α)

omit [Scalar α] in
theorem lines_eq (path : List (Point α)) : kit.lines path =
    (path.zip path.tail).map fun (a, b) => .line a b kit.style.lineColor kit.lineWidth := by
  induction path with
  | nil => rfl
  | cons a rest ih =>
    cases rest with
    | nil => rfl
    | cons b rest => exact congrArg (Call.line a b kit.style.lineColor kit.lineWidth :: ·) ih

omit [Scalar α] in
theorem lastTwo?_eq (path : List (Point α)) : lastTwo? path = (path.zip path.tail).getLast? := by
  induction path with
  | nil => rfl
  | cons a rest ih =>
    cases rest with
    | nil => rfl
    | cons b rest =>
      cases rest with
      | nil => rfl
      | cons c rest => exact ih

omit [Scalar α] in
theorem lastTwo?_eq_none (path : List (Point α)) : lastTwo? path = none ↔ path.length < 2 := by
  rw [lastTwo?_eq, List.getLast?_eq_none_iff, List.eq_nil_iff_length_eq_zero, List.length_zip,
    List.length_tail]
  omega

theorem images_cons (item : Item α) (items : List (Item α)) :
    kit.images (item :: items) = return (← kit.image item) ++ (← kit.images items) := by
  rw [images, List.mapM_cons, images]
  simp only [bind_assoc, pure_bind, List.flatten_cons]

theorem images_singleton (item : Item α) : kit.images [item] = kit.image item := by
  have hnil : kit.images [] = .ok [] := rfl
  rw [images_cons, hnil]
  cases kit.image item with
  | error fault => rfl
  | ok calls => exact congrArg Except.ok (List.append_nil calls)

theorem images_append (items more : List (Item α)) :
    kit.images (items ++ more) = return (← kit.images items) ++ (← kit.images more) := by
  induction items with
  | nil =>
    rw [List.nil_append]
    exact (bind_pure (kit.images more)).symm
  | cons item items ih =>
    rw [List.cons_append, images_cons, images_cons, ih]
    simp only [bind_assoc, pure_bind, List.append_assoc]

theorem images_flatMap {ι : Type} (f : ι → List (Item α)) (is : List ι) :
    kit.images (is.flatMap f) = return (← is.mapM fun i => kit.images (f i)).flatten := by
  induction is with
  | nil => rfl
  | cons i is ih =>
    rw [List.flatMap_cons, images_append, ih, List.mapM_cons]
    simp only [bind_assoc, pure_bind, List.flatten_cons]

theorem centeredText_paints {center : Point α} {text : String} {font : Font} {color : String} {call : Call α}
    (h : kit.centeredText center text font color = .ok call) : call.paints = true := by
  rw [centeredText] at h
  obtain ⟨_, -, h⟩ := bind_eq_ok h
  obtain ⟨_, -, h⟩ := bind_eq_ok h
  obtain ⟨_, -, h⟩ := bind_eq_ok h
  obtain ⟨_, -, h⟩ := bind_eq_ok h
  obtain rfl := Except.ok.inj h
  rfl

theorem arrowhead_paints {a tip : Point α} {call : Call α} (h : kit.arrowhead a tip = .ok call) :
    call.paints = true := by
  rw [arrowhead] at h
  obtain ⟨_, -, h⟩ := bind_eq_ok h
  obtain rfl := Except.ok.inj h
  rfl

omit [Scalar α] in
theorem lines_paints (path : List (Point α)) : (kit.lines path).filter Call.paints = kit.lines path := by
  rw [lines_eq, List.filter_eq_self]
  intro call hcall
  obtain ⟨legs, -, rfl⟩ := List.mem_map.mp hcall
  rfl

omit [Scalar α] in
theorem shape_paints (n : PlacedNode α) (box : Box α) (center : Point α) :
    (kit.shape n box center).paints = true := by
  rw [shape]
  split <;> rfl

section Scaled

variable {kit} {k : α} (hk : Scalar.ofInt kit.style.scale = .ok k)
include hk

theorem scaled_eq (x : α) : kit.scaled x = .ok (x * k) := by
  rw [scaled, hk]
  rfl

theorem scaledPoint_eq (p : Point α) : kit.scaledPoint p = .ok (p.scale k) := by
  rw [scaledPoint, scaled_eq hk, scaled_eq hk]
  rfl

theorem edgeLabel_draws (e : RoutedEdge α) : kit.Draws (List.filter Call.paints) (kit.edgeLabel e)
    (kit.images (e.captions.map (Item.scale k))) := by
  rw [edgeLabel, RoutedEdge.captions]
  cases e.anchor with
  | none => exact .pure rfl
  | some p =>
    dsimp only
    split
    · exact .pure rfl
    · rw [scaledPoint_eq hk, List.map_singleton, images_singleton, Item.scale, image]
      refine .ok_bind (p.scale k) (.font_bind _ fun calls hcalls => .lift_bind _ fun text htext => .pure ?_)
      rw [List.filter_append, hcalls, List.filter_singleton, centeredText_paints kit htext]
      rfl

theorem edge_draws (e : RoutedEdge α) : kit.Draws (List.filter Call.paints) (kit.edge e)
    (kit.images (e.items.map (Item.scale k))) := by
  have hpoint : (fun p => (liftM (kit.scaledPoint p) : Draw (Point α))) = fun p => pure (p.scale k) := by
    funext p
    rw [scaledPoint_eq hk]
    rfl
  rw [edge, hpoint, List.mapM_pure, pure_bind, RoutedEdge.items]
  cases hlast : lastTwo? (e.path.map (Point.scale k)) with
  | none =>
    have hunrouted : e.isRouted = false := by
      have hlength := (lastTwo?_eq_none _).mp hlast
      rw [List.length_map] at hlength
      exact decide_eq_false (by omega)
    rw [hunrouted]
    exact .pure rfl
  | some legs =>
    have hrouted : e.isRouted = true := by
      have hlength := mt (lastTwo?_eq_none _).mpr (hlast ▸ Option.some_ne_none legs)
      rw [List.length_map] at hlength
      exact decide_eq_true (by omega)
    rw [hrouted, if_pos rfl, List.map_cons, images_cons, Item.scale, image, ← lastTwo?_eq, hlast, ← lines_eq]
    simp only [bind_assoc, pure_bind]
    refine .lift_bind _ fun head hhead => (edgeLabel_draws hk e).bind fun calls => .pure ?_
    rw [List.filter_append, List.filter_append, lines_paints, List.filter_singleton, arrowhead_paints kit hhead]
    rfl

omit hk in
theorem actor_draws (n : PlacedNode α) : kit.Draws (List.filter Call.paints) (kit.actor n (n.box.scale k))
    (n.shownActor?.toList.mapM (kit.cornered (n.box.scale k))) := by
  rw [actor]
  cases n.shownActor? with
  | none => exact .pure rfl
  | some name =>
    dsimp only
    refine .font_bind _ fun calls hcalls => ?_
    rw [Option.toList_some, List.mapM_cons, List.mapM_nil, cornered]
    simp only [bind_assoc, pure_bind]
    refine .lift_bind _ fun inset _ => .lift_bind _ fun x _ => .lift_bind _ fun y _ => .pure ?_
    rw [List.filter_append, hcalls]
    rfl

theorem node_draws (n : PlacedNode α) : kit.Draws (List.filter Call.paints) (kit.node n)
    (kit.image (n.item.scale k)) := by
  rw [node, scaled_eq hk, scaled_eq hk, scaled_eq hk, scaled_eq hk, scaledPoint_eq hk]
  refine .ok_bind _ (.ok_bind _ (.ok_bind _ (.ok_bind _ (.ok_bind _ ?_))))
  refine .font_bind _ fun calls hcalls => ?_
  have hshape : kit.shape n (n.box.scale k) (Point.scale k ⟨n.x, n.y⟩) =
      kit.figureImage n.kind (n.box.scale k) (n.figure.scale k) := by
    rw [shape, PlacedNode.figure]
    cases n.kind.shape <;> rfl
  rw [PlacedNode.item, Item.scale, image]
  refine .lift_bind _ fun text htext => (actor_draws n).bind fun rest => .pure ?_
  rw [← hshape]
  rw [List.cons_append, List.cons_append, List.filter_cons, shape_paints, if_pos rfl, List.filter_append,
    List.filter_append, hcalls, List.filter_singleton, centeredText_paints kit htext]
  rfl

theorem diagram_draws (d : Diagram α) : kit.Draws (List.filter Call.paints) (kit.diagram d) (do
    let width ← Scalar.ceil (d.width * k)
    let height ← Scalar.ceil (d.height * k)
    return .newImage width height kit.style.background :: (← kit.images (d.items.map (Item.scale k)))) := by
  have hedges := Draws.mapM (edge_draws hk) d.edges
  have hnodes := Draws.mapM (node_draws hk) d.nodes
  rw [diagram, scaled_eq hk, scaled_eq hk, Diagram.items, List.map_append, List.map_flatMap, images_append,
    images_flatMap]
  refine .ok_bind _ (.lift_bind _ fun width _ => .ok_bind _ (.lift_bind _ fun height _ => ?_))
  rw [images, List.map_map, List.mapM_map]
  simp only [bind_assoc, pure_bind]
  refine hedges.bind fun edges => hnodes.bind fun nodes => .pure ?_
  change Call.newImage width height kit.style.background ::
    (edges.flatten ++ nodes.flatten).filter Call.paints = _
  rw [List.filter_append, List.filter_flatten, List.filter_flatten]

end Scaled

theorem render_eq (path : String) (d : Diagram α) :
    (kit.render path (.diagram d)).map (List.filter Call.paints) = (do
      let k ← Scalar.ofInt kit.style.scale
      let width ← Scalar.ceil (d.width * k)
      let height ← Scalar.ceil (d.height * k)
      let calls ← kit.images (d.items.map (Item.scale k))
      return .newImage width height kit.style.background :: calls ++ [.save path]) := by
  cases hk : (Scalar.ofInt kit.style.scale : Except Fault α) with
  | error fault =>
    have hscaled : kit.scaled d.width = .error fault := by
      rw [scaled, hk]
      rfl
    rw [render, picture, diagram, hscaled]
    rfl
  | ok k =>
    have hcalls := (diagram_draws hk d).result .empty kit.sound_empty
    have hrun : (kit.picture (.diagram d)).run' .empty = (kit.diagram d .empty).map Prod.fst := rfl
    have hsaved : ∀ r : Except Fault (List (Call α) × FontCache),
        ((r.map Prod.fst >>= fun calls => pure (calls ++ [.save path])).map (List.filter Call.paints)) =
          (r.map fun r => r.1.filter Call.paints) >>= fun calls => pure (calls ++ [.save path]) := by
      intro r
      cases r with
      | error fault => rfl
      | ok r => exact congrArg Except.ok (List.filter_append r.1 _)
    rw [render, hrun, hsaved, hcalls]
    simp only [bind_assoc, pure_bind]
    rfl

end Raster.Kit

theorem Scalar.ofInt_rat (n : Int) : (ofInt n : Except Fault Rat) = .ok n := Quantity.value_rat (.int n)

namespace Raster.Kit

variable (kit : Kit Rat)

/-- A centered text is put so that its box has its middle at the center. -/
theorem centeredText_rat (center : Point Rat) (text : String) (font : Font) (color : String) :
    ∃ place, kit.centeredText center text font color = .ok (.text place text color font) ∧
      place.x + ((kit.fonts.measure font text).left + (kit.fonts.measure font text).right : Rat) / 2 = center.x ∧
      place.y + ((kit.fonts.measure font text).top + (kit.fonts.measure font text).bottom : Rat) / 2 = center.y := by
  have hhalf (n : Int) : (Scalar.ofHalf n : Except Fault Rat) = .ok (n / 2) := rfl
  simp only [centeredText, Scalar.ofInt_rat, hhalf]
  refine ⟨_, rfl, ?_, ?_⟩ <;> push_cast <;> ring

/-- A text in a corner ends five scaled units left of and above the corner. -/
theorem cornered_rat (box : Box Rat) (text : String) :
    let font := kit.fontFor kit.style.actorFontSize
    ∃ place, kit.cornered box text = .ok (.text place text kit.style.actorColor font) ∧
      place.x + ((kit.fonts.measure font text).right - (kit.fonts.measure font text).left : Rat) =
        box.right - 5 * kit.style.scale ∧
      place.y + ((kit.fonts.measure font text).bottom - (kit.fonts.measure font text).top : Rat) =
        box.bottom - 5 * kit.style.scale := by
  simp only [cornered, Scalar.ofInt_rat]
  refine ⟨_, rfl, ?_, ?_⟩ <;> push_cast <;> ring

theorem arrowhead_rat (a tip : Point Rat) :
    ∃ left right, kit.arrowhead a tip = .ok (.arrowhead tip left right kit.style.lineColor) := by
  rw [arrowhead, Scalar.ofInt_rat]
  exact ⟨_, _, rfl⟩

theorem image_rat (item : Item Rat) : ∃ calls, kit.image item = .ok calls := by
  cases item with
  | line path =>
    rw [image]
    cases (path.zip path.tail).getLast? with
    | none => exact ⟨[], rfl⟩
    | some legs =>
      obtain ⟨left, right, hcall⟩ := kit.arrowhead_rat legs.1 legs.2
      dsimp only
      rw [hcall]
      exact ⟨_, rfl⟩
  | caption center text =>
    obtain ⟨place, hcall, -⟩ :=
      kit.centeredText_rat center text (kit.fontFor kit.style.labelFontSize) kit.style.textColor
    rw [image, hcall]
    exact ⟨_, rfl⟩
  | node id kind figure box center label actor =>
    obtain ⟨place, hcall, -⟩ := kit.centeredText_rat center label (kit.fontFor kit.style.fontSize) kit.style.textColor
    rw [image, hcall]
    cases actor with
    | none => exact ⟨_, rfl⟩
    | some name =>
      obtain ⟨corner, hcorner, -⟩ := kit.cornered_rat box name
      rw [Option.toList_some, List.mapM_cons, hcorner]
      exact ⟨_, rfl⟩

theorem images_rat (items : List (Item Rat)) : ∃ calls, kit.images items = .ok calls := by
  induction items with
  | nil => exact ⟨[], rfl⟩
  | cons item items ih =>
    obtain ⟨calls, hcalls⟩ := kit.image_rat item
    obtain ⟨rest, hrest⟩ := ih
    rw [images_cons, hcalls, hrest]
    exact ⟨_, rfl⟩

end Raster.Kit

theorem RoutedEdge.item_cases {α : Type} {e : RoutedEdge α} {item : Item α} (h : item ∈ e.items) :
    item = .line e.path ∨ ∃ p, e.anchor = some p ∧ item = .caption p e.label := by
  rw [items] at h
  split at h
  · obtain rfl | h := List.mem_cons.mp h
    · exact .inl rfl
    · rw [captions] at h
      split at h
      · cases h
      · next p hp =>
        split at h
        · cases h
        · exact .inr ⟨p, hp, List.mem_singleton.mp h⟩
  · cases h

end FlowDiagram
