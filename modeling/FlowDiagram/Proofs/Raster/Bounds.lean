import FlowDiagram.Proofs.Drawing
import FlowDiagram.Proofs.Layout.Clearance
import FlowDiagram.Proofs.Layout.Containment

namespace FlowDiagram

namespace Raster

def Box.corners {α : Type} (b : Box α) : List (Point α) := [⟨b.left, b.top⟩, ⟨b.right, b.bottom⟩]

namespace Call

/-- The points that a call draws through: the ends of a line, the corners of a shape or of the box around it.
What a text covers is up to its font. -/
def points {α : Type} : Call α → List (Point α)
  | line a b _ _ => [a, b]
  | ellipse box _ _ _ => box.corners
  | roundedRectangle box _ _ _ _ => box.corners
  | polygon corners _ _ _ => corners
  | arrowhead tip left right _ => [tip, left, right]
  | _ => []

def imageSize? {α : Type} : Call α → Option (Int × Int)
  | newImage width height _ => some (width, height)
  | _ => none

/-- The call draws inside the space, and makes no image. -/
structure Inside (b : Extent) (call : Call Rat) : Prop where
  image : call.imageSize? = none
  points : ∀ p ∈ call.points, p ∈ b.box

theorem Inside.text (b : Extent) (place : Point Rat) (text color : String) (font : Font) :
    Inside b (.text place text color font) := ⟨rfl, by simp [Call.points]⟩

theorem paints_of_point {α : Type} {call : Call α} {p : Point α} (h : p ∈ call.points) : call.paints = true := by
  cases call with
  | fileExists => cases h
  | loadFont => cases h
  | loadDefault => cases h
  | _ => rfl

theorem imageSize?_of_paints {α : Type} (call : Call α) :
    (if call.paints = true then call.imageSize? else none) = call.imageSize? := by
  cases call <;> rfl

end Call

/-- Cosines and sines lie between minus one and one. -/
structure Angles.Bounded (angles : Angles Rat) : Prop where
  cos : ∀ a, |angles.cos a| ≤ 1
  sin : ∀ a, |angles.sin a| ≤ 1

end Raster

/-- The square with this center that reaches so far to each side. -/
def Extent.square (center : Point Rat) (reach : Rat) : Extent :=
  ⟨center.x - reach, center.y - reach, center.x + reach, center.y + reach⟩

def Extent.scale (k : Rat) (b : Extent) : Extent := ⟨b.left * k, b.top * k, b.right * k, b.bottom * k⟩

theorem Extent.scale_mem_box {k : Rat} (hk : 0 ≤ k) {b : Extent} {p : Point Rat} (h : p ∈ b.box) :
    p.scale k ∈ (b.scale k).box := by
  obtain ⟨⟨hleft, hright⟩, htop, hbottom⟩ := h
  exact ⟨⟨mul_le_mul_of_nonneg_right hleft hk, mul_le_mul_of_nonneg_right hright hk⟩,
    mul_le_mul_of_nonneg_right htop hk, mul_le_mul_of_nonneg_right hbottom hk⟩

theorem Extent.scale_box_subset (k width height : Rat) :
    (Extent.scale k ⟨0, 0, width, height⟩).box ⊆ Extent.box ⟨0, 0, (width * k).ceil, (height * k).ceil⟩ := by
  rintro p ⟨⟨hleft, hright⟩, htop, hbottom⟩
  simp only [scale, zero_mul] at hleft hright htop hbottom
  exact ⟨⟨hleft, hright.trans Rat.le_ceil⟩, htop, hbottom.trans Rat.le_ceil⟩

def Figure.corners {α : Type} : Figure α → List (Point α)
  | diamond top right bottom left => [top, right, bottom, left]
  | _ => []

theorem Figure.corners_scale (k : Rat) (f : Figure Rat) : (f.scale k).corners = f.corners.map (Point.scale k) := by
  cases f <;> rfl

theorem Raster.Box.corners_scale (k : Rat) (b : Raster.Box Rat) :
    (b.scale k).corners = b.corners.map (Point.scale k) := rfl

/-- The item lies inside the space, and an arrowhead at the end of a line does too. -/
def Item.Inside (b : Extent) : Item Rat → Prop
  | line path =>
    (∀ p ∈ path, p ∈ b.box) ∧ ∀ tip, path.getLast? = some tip → (Extent.square tip 8).box ⊆ b.box
  | caption _ _ => True
  | node _ _ figure box _ _ _ => ∀ p ∈ box.corners ++ figure.corners, p ∈ b.box

namespace Raster.Kit

theorem getLast?_of_lastTwo? {α : Type} {path : List (Point α)} {a tip : Point α}
    (h : lastTwo? path = some (a, tip)) : path.getLast? = some tip := by
  fun_induction lastTwo? path with
  | case1 p q =>
    obtain ⟨rfl, rfl⟩ := Prod.mk.inj (Option.some.inj h)
    rfl
  | case2 p rest hrest ih =>
    have hlast := ih h
    rw [List.getLast?_cons, hlast]
    rfl
  | case3 => cases h

variable {kit : Kit Rat} {b : Extent}

theorem centeredText_inside {center : Point Rat} {text : String} {font : Font} {color : String}
    {call : Call Rat} (h : kit.centeredText center text font color = .ok call) : call.Inside b := by
  obtain ⟨place, hcall, -⟩ := kit.centeredText_rat center text font color
  obtain rfl := Except.ok.inj (hcall.symm.trans h)
  exact .text ..

theorem cornered_inside {box : Box Rat} {text : String} {call : Call Rat}
    (h : kit.cornered box text = .ok call) : call.Inside b := by
  obtain ⟨place, hcall, -⟩ := kit.cornered_rat box text
  obtain rfl := Except.ok.inj (hcall.symm.trans h)
  exact .text ..

section Scaled

variable {k : Rat} (hk : 0 ≤ k) (hscale : (kit.style.scale : Rat) = k)
include hk hscale

/-- The wings of an arrowhead stay in the square around its tip. -/
theorem arrowhead_inside (hangles : kit.angles.Bounded) {a tip : Point Rat} (htip : tip ∈ b.box)
    (hroom : (Extent.square tip 8).box ⊆ b.box) {call : Call Rat}
    (h : kit.arrowhead a (tip.scale k) = .ok call) : call.Inside (b.scale k) := by
  rw [arrowhead, Scalar.ofInt_rat] at h
  obtain rfl := Except.ok.inj h
  have hsize : ((8 * kit.style.scale : Int) : Rat) = 8 * k := by
    rw [← hscale]
    push_cast
    ring
  have hwing : ∀ turned, (⟨tip.x * k + (8 * k) * kit.angles.cos turned,
      tip.y * k + (8 * k) * kit.angles.sin turned⟩ : Point Rat) ∈ (b.scale k).box := by
    intro turned
    obtain ⟨hcos, hcos'⟩ := abs_le.mp (hangles.cos turned)
    obtain ⟨hsin, hsin'⟩ := abs_le.mp (hangles.sin turned)
    have hmem : (⟨tip.x + 8 * kit.angles.cos turned, tip.y + 8 * kit.angles.sin turned⟩ : Point Rat) ∈
        (Extent.square tip 8).box := by
      refine ⟨⟨?_, ?_⟩, ?_, ?_⟩ <;> simp only [Extent.square] <;> linarith
    have hscaled := Extent.scale_mem_box hk (hroom hmem)
    simp only [Point.scale] at hscaled
    convert hscaled using 2 <;> ring
  refine ⟨rfl, ?_⟩
  rw [hsize]
  simp only [Call.points, List.forall_mem_cons]
  exact ⟨Extent.scale_mem_box hk htip, hwing _, hwing _, by simp⟩

theorem line_inside (hangles : kit.angles.Bounded) {path : List (Point Rat)} (h : (Item.line path).Inside b)
    {calls : List (Call Rat)} (hcalls : kit.image ((Item.line path).scale k) = .ok calls) :
    ∀ call ∈ calls, call.Inside (b.scale k) := by
  obtain ⟨hpath, hroom⟩ := h
  have hscaled : ∀ p ∈ path.map (Point.scale k), p ∈ (b.scale k).box := by
    intro p hp
    obtain ⟨q, hq, rfl⟩ := List.mem_map.mp hp
    exact Extent.scale_mem_box hk (hpath q hq)
  rw [Item.scale, image, ← lastTwo?_eq] at hcalls
  split at hcalls
  · obtain rfl := Except.ok.inj hcalls
    simp
  · rename_i a' tip' hlast
    obtain ⟨head, hhead, hcalls⟩ := bind_eq_ok hcalls
    obtain rfl := Except.ok.inj hcalls
    have htip := getLast?_of_lastTwo? hlast
    rw [List.getLast?_map] at htip
    obtain ⟨tip, hend, rfl⟩ := Option.map_eq_some_iff.mp htip
    intro call hcall
    obtain hline | hcall := List.mem_append.mp hcall
    · obtain ⟨⟨p, q⟩, hpq, rfl⟩ := List.mem_map.mp hline
      obtain ⟨hp, hq⟩ := List.of_mem_zip hpq
      refine ⟨rfl, ?_⟩
      simp only [Call.points, List.forall_mem_cons]
      exact ⟨hscaled p hp, hscaled q (List.mem_of_mem_tail hq), by simp⟩
    · rw [List.mem_singleton.mp hcall]
      exact arrowhead_inside hk hscale hangles (hpath tip (List.mem_of_getLast? hend)) (hroom tip hend) hhead

omit hscale in
theorem node_inside {id : String} {kind : Kind} {figure : Figure Rat} {box : Box Rat} {center : Point Rat}
    {label : String} {actor : Option String} (h : (Item.node id kind figure box center label actor).Inside b)
    {calls : List (Call Rat)}
    (hcalls : kit.image ((Item.node id kind figure box center label actor).scale k) = .ok calls) :
    ∀ call ∈ calls, call.Inside (b.scale k) := by
  have hscaled : ∀ p ∈ (box.scale k).corners ++ (figure.scale k).corners, p ∈ (b.scale k).box := by
    rw [Box.corners_scale, Figure.corners_scale, ← List.map_append]
    intro p hp
    obtain ⟨q, hq, rfl⟩ := List.mem_map.mp hp
    exact Extent.scale_mem_box hk (h q hq)
  obtain ⟨hbox, hfigure⟩ := List.forall_mem_append.mp hscaled
  have hshape : (kit.figureImage kind (box.scale k) (figure.scale k)).Inside (b.scale k) := by
    cases figure with
    | circle => exact ⟨rfl, hbox⟩
    | diamond => exact ⟨rfl, hfigure⟩
    | rectangle => exact ⟨rfl, hbox⟩
  rw [Item.scale, image] at hcalls
  obtain ⟨text, htext, hcalls⟩ := bind_eq_ok hcalls
  obtain ⟨rest, hrest, hcalls⟩ := bind_eq_ok hcalls
  obtain rfl := Except.ok.inj hcalls
  have hactor : ∀ call ∈ rest, call.Inside (b.scale k) :=
    forall_of_mapM hrest fun name _ call hcall => cornered_inside hcall
  simp only [List.forall_mem_cons]
  exact ⟨hshape, centeredText_inside htext, hactor⟩

theorem images_inside (hangles : kit.angles.Bounded) {items : List (Item Rat)}
    (h : ∀ item ∈ items, item.Inside b) {calls : List (Call Rat)}
    (hcalls : kit.images (items.map (Item.scale k)) = .ok calls) : ∀ call ∈ calls, call.Inside (b.scale k) := by
  rw [images] at hcalls
  obtain ⟨lists, hlists, hcalls⟩ := bind_eq_ok hcalls
  obtain rfl := Except.ok.inj hcalls
  have hall : ∀ list ∈ lists, ∀ call ∈ list, call.Inside (b.scale k) := by
    refine forall_of_mapM hlists ?_
    intro item hitem list hlist
    obtain ⟨item, hmem, rfl⟩ := List.mem_map.mp hitem
    cases item with
    | line => exact line_inside hk hscale hangles (h _ hmem) hlist
    | caption =>
      obtain ⟨call, hcall, hlist⟩ := bind_eq_ok hlist
      obtain rfl := Except.ok.inj hlist
      exact List.forall_mem_singleton.mpr (centeredText_inside hcall)
    | node => exact node_inside hk (h _ hmem) hlist
  intro call hcall
  obtain ⟨list, hlist, hcall⟩ := List.mem_flatten.mp hcall
  exact hall list hlist call hcall

end Scaled

end Raster.Kit

theorem Kind.width_ge (k : Kind) : 60 ≤ k.width := by cases k <;> decide

theorem PlacedNode.narrowest_le_width (n : PlacedNode Rat) : 60 ≤ (n.kind.width : Rat) := by
  exact_mod_cast n.kind.width_ge

namespace Settings.Drawn

variable {c : Config Rat} {text : String} {shift : Rat} {d : Diagram Rat}
  (h : Drawn c (Document.read text) shift d)
  (hinside : ∀ b ∈ Canvas.extents d.nodes d.edges, b.Inside d.width d.height)
include h hinside

omit h in
/-- There is room above the end of an edge: the source's box, or the detour that comes from above. -/
theorem room_above {e : RoutedEdge Rat} (he : e ∈ d.edges) {m n : PlacedNode Rat} (hm : m ∈ d.nodes)
    (hpath : e.path = Route.path m n) : 20 ≤ n.top := by
  by_cases hbelow : m.bottom < n.top
  · have hbox : m.extent ∈ Canvas.extents d.nodes d.edges := List.mem_append_left _ (List.mem_map_of_mem hm)
    have htop : 0 ≤ m.top := (hinside _ hbox).2.1
    have hheight := m.shortest_le_height
    rw [m.top_rat] at htop
    rw [m.bottom_rat] at hbelow
    linarith
  · have hmem : (⟨n.x, n.top - 20⟩ : Point Rat) ∈ e.path := by
      rw [hpath, Route.path_around hbelow]
      simp
    have hpoint : Point.extent ⟨n.x, n.top - 20⟩ ∈ Canvas.extents d.nodes d.edges :=
      List.mem_append_right _ (List.mem_flatMap.mpr ⟨e, he, List.mem_append_left _ (List.mem_map_of_mem hmem)⟩)
    have hy : 0 ≤ n.top - 20 := (hinside _ hpoint).2.1
    linarith

theorem line_inside {e : RoutedEdge Rat} (he : e ∈ d.edges) :
    (Item.line e.path).Inside ⟨0, 0, d.width, d.height⟩ := by
  constructor
  · intro p hp
    exact hinside _ (List.mem_append_right _
      (List.mem_flatMap.mpr ⟨e, he, List.mem_append_left _ (List.mem_map_of_mem (f := Point.extent) hp)⟩))
  · intro tip htip
    have hedge := he
    rw [h.edges] at hedge
    obtain ⟨m, hm, n, hn, -, -, hbetween⟩ | ⟨hnil, -⟩ := Route.between_or_bare h.nodup_ids hedge
    · have hpath : e.path = Route.path m n := congrArg RoutedEdge.path hbetween
      have habove := room_above hinside he hm hpath
      rw [hpath, Route.getLast?_path] at htip
      obtain rfl := Option.some.inj htip
      obtain ⟨⟨hleft, hright⟩, htop, hbottom⟩ :=
        hinside _ (List.mem_append_left _ (List.mem_map_of_mem (f := PlacedNode.extent) hn))
      simp only [PlacedNode.extent, n.left_rat, n.right_rat, n.bottom_rat] at hleft hright hbottom
      have hwidth := n.narrowest_le_width
      have hheight := n.shortest_le_height
      have htop' := n.top_rat
      rintro p ⟨⟨hl, hr⟩, ht, hb⟩
      simp only [Extent.square, PlacedNode.entry] at hl hr ht hb
      refine ⟨⟨?_, ?_⟩, ?_, ?_⟩ <;> dsimp only <;> linarith
    · rw [hnil] at htip
      cases htip

omit h in
theorem node_inside {n : PlacedNode Rat} (hn : n ∈ d.nodes) : n.item.Inside ⟨0, 0, d.width, d.height⟩ := by
  obtain ⟨⟨hleft, hright⟩, htop, hbottom⟩ :=
    hinside _ (List.mem_append_left _ (List.mem_map_of_mem (f := PlacedNode.extent) hn))
  simp only [PlacedNode.extent] at hleft hright htop hbottom
  have hx := n.left_le_x
  have hx' := n.x_le_right
  have hy := n.top_le_y
  have hy' := n.y_le_bottom
  have hcorners : ∀ p ∈ n.box.corners, p ∈ Extent.box ⟨0, 0, d.width, d.height⟩ := by
    simp only [PlacedNode.box, Raster.Box.corners, List.forall_mem_cons, Extent.box, Set.mem_ofPred_eq]
    refine ⟨⟨⟨?_, ?_⟩, ?_, ?_⟩, ⟨⟨?_, ?_⟩, ?_, ?_⟩, by simp⟩ <;> linarith
  have hfigure : ∀ p ∈ n.figure.corners, p ∈ Extent.box ⟨0, 0, d.width, d.height⟩ := by
    rw [PlacedNode.figure]
    cases n.kind.shape with
    | diamond =>
      simp only [Figure.corners, List.forall_mem_cons, Extent.box, Set.mem_ofPred_eq]
      refine ⟨⟨⟨?_, ?_⟩, ?_, ?_⟩, ⟨⟨?_, ?_⟩, ?_, ?_⟩, ⟨⟨?_, ?_⟩, ?_, ?_⟩, ⟨⟨?_, ?_⟩, ?_, ?_⟩, by simp⟩ <;> linarith
    | _ => simp [Figure.corners]
  exact List.forall_mem_append.mpr ⟨hcorners, hfigure⟩

theorem items_inside : ∀ item ∈ d.items, item.Inside ⟨0, 0, d.width, d.height⟩ := by
  intro item hitem
  obtain hitem | hitem := List.mem_append.mp hitem
  · obtain ⟨e, he, hitem⟩ := List.mem_flatMap.mp hitem
    obtain rfl | ⟨p, -, rfl⟩ := RoutedEdge.item_cases hitem
    · exact line_inside h hinside he
    · trivial
  · obtain ⟨n, hn, rfl⟩ := List.mem_map.mp hitem
    exact node_inside hinside hn

end Settings.Drawn

namespace Raster.Kit

variable {kit : Kit Rat} {k : Rat}

theorem render_inside (hk : 0 ≤ k) (hscale : (kit.style.scale : Rat) = k) (hangles : kit.angles.Bounded)
    (path : String) {d : Diagram Rat} (h : ∀ item ∈ d.items, item.Inside ⟨0, 0, d.width, d.height⟩) :
    ∃ calls, kit.render path (.diagram d) = .ok calls ∧
      calls.filterMap Call.imageSize? = [((d.width * k).ceil, (d.height * k).ceil)] ∧
      ∀ call ∈ calls, ∀ p ∈ call.points, p ∈ Extent.box ⟨0, 0, (d.width * k).ceil, (d.height * k).ceil⟩ := by
  obtain ⟨images, himages⟩ := kit.images_rat (d.items.map (Item.scale k))
  have hrender := kit.render_eq path d
  rw [Scalar.ofInt_rat, hscale] at hrender
  change _ = kit.images (d.items.map (Item.scale k)) >>= _ at hrender
  rw [himages] at hrender
  cases hcalls : kit.render path (.diagram d) with
  | error fault =>
    rw [hcalls] at hrender
    cases hrender
  | ok calls =>
    rw [hcalls] at hrender
    have hpainted : calls.filter Call.paints = .newImage (d.width * k).ceil (d.height * k).ceil
        kit.style.background :: images ++ [.save path] := Except.ok.inj hrender
    have hinside := images_inside hk hscale hangles h himages
    have hsize : ∀ call ∈ images ++ [.save path], call.imageSize? = none := by
      rw [List.forall_mem_append, List.forall_mem_singleton]
      exact ⟨fun call hcall => (hinside call hcall).image, rfl⟩
    refine ⟨calls, rfl, ?_, ?_⟩
    · have hfilter : (calls.filter Call.paints).filterMap Call.imageSize? = calls.filterMap Call.imageSize? := by
        rw [List.filterMap_filter]
        exact List.filterMap_congr fun call _ => call.imageSize?_of_paints
      rw [← hfilter, hpainted, List.cons_append, List.filterMap_cons]
      exact congrArg _ (List.filterMap_eq_nil_iff.mpr hsize)
    · intro call hcall p hp
      have hmem : call ∈ calls.filter Call.paints :=
        List.mem_filter.mpr ⟨hcall, Call.paints_of_point hp⟩
      rw [hpainted, List.cons_append, List.mem_cons, List.mem_append, List.mem_singleton] at hmem
      obtain rfl | hmem | rfl := hmem
      · cases hp
      · exact Extent.scale_box_subset k d.width d.height ((hinside call hmem).points p hp)
      · cases hp

end Raster.Kit

namespace Raster.Angles

/-- The sine of a part of a half turn, approximately. -/
def arch (t : Rat) : Rat := 16 * (t * (1 - t)) / (5 - 4 * (t * (1 - t)))

/-- The sine of an angle that is given in half turns: the arch on the first half turn, its opposite on the second. -/
def sine (turns : Rat) : Rat :=
  let t := turns - 2 * (turns / 2).floor
  if t ≤ 1 then arch t else -arch (t - 1)

def halfTurn : Rat := 355 / 113

/-- Angles in exact arithmetic. Directions are right along the axes and the diagonals, and a few degrees off between
them. -/
def approximate : Angles Rat where
  direction dy dx :=
    let part := dy / (|dx| + |dy|)
    halfTurn / 2 * (if 0 ≤ dx then part else if 0 ≤ dy then 2 - part else -2 - part)
  cos a := sine (a / halfTurn + 1 / 2)
  sin a := sine (a / halfTurn)
  spread := halfTurn * (4 / 5)

theorem abs_arch_le {t : Rat} (hpos : 0 ≤ t) (hle : t ≤ 1) : |arch t| ≤ 1 := by
  have hlow : 0 ≤ t * (1 - t) := mul_nonneg hpos (by linarith)
  have hhigh : t * (1 - t) ≤ 1 / 4 := by nlinarith [sq_nonneg (t - 1 / 2)]
  have hden : 0 < 5 - 4 * (t * (1 - t)) := by linarith
  rw [arch, abs_of_nonneg (div_nonneg (by linarith) hden.le), div_le_one₀ hden]
  linarith

theorem abs_sine_le (turns : Rat) : |sine turns| ≤ 1 := by
  have hlow := Rat.floor_le (turns / 2)
  have hhigh : turns / 2 - 1 < (turns / 2).floor := Rat.lt_floor
  simp only [sine]
  split
  · exact abs_arch_le (by linarith) ‹_›
  · rw [abs_neg]
    exact abs_arch_le (by linarith) (by linarith)

theorem approximate_bounded : approximate.Bounded := ⟨fun _ => abs_sine_le _, fun _ => abs_sine_le _⟩

end Raster.Angles

namespace Settings

variable {c : Config Rat} {s : Settings Rat}

def loop : String := "startEvent s \"S\"\ntask t \"T\"\ns -> t\nt -> s |again|"

theorem nodes_loop : (Document.read loop).nodes =
    [⟨"s", .startEvent, "S", none⟩, ⟨"t", .task, "T", none⟩] := rfl

/-- The pixel drawing of every text with a node makes one image, of the size of the diagram's canvas times the scale,
rounded up, and whatever is drawn lies in it if the canvas margin is not negative. Of cosines and sines no more is
needed than that they lie between minus one and one. -/
theorem run_draws_inside (h : ofConfig c = .ok s) (hmargin : 0 ≤ c.canvasMargin.exact) {style : Raster.Style}
    (hscale : 1 ≤ style.scale) {angles : Raster.Angles Rat} (hangles : angles.Bounded)
    (fonts : Raster.FontSystem) (path text : String) (hne : (Document.read text).nodes ≠ []) :
    ∃ kit r d calls, Raster.Kit.make style fonts angles = .ok kit ∧
      (s.run text).result = .ok r ∧ r.picture.diagram? = some d ∧ kit.render path r.picture = .ok calls ∧
      ∃ width height : Int, width = (d.width * style.scale).ceil ∧ height = (d.height * style.scale).ceil ∧
        calls.filterMap Raster.Call.imageSize? = [(width, height)] ∧
        ∀ call ∈ calls, ∀ p ∈ call.points, (0 ≤ p.x ∧ p.x ≤ width) ∧ 0 ≤ p.y ∧ p.y ≤ height := by
  obtain ⟨-, -, -, hleft, -⟩ := (ofConfig_eq_ok c s).mp h
  obtain ⟨p, shift, d, hrun, -, hdrawn⟩ := run_drawn h hne
  have hitems := hdrawn.items_inside ((hdrawn.fits.inside_iff hleft).mpr hmargin)
  have hk : 0 ≤ (style.scale : Rat) := by exact_mod_cast zero_le_one.trans hscale
  have hmake : Raster.Kit.make style fonts angles = .ok ⟨style, fonts, angles⟩ := if_neg (not_lt.mpr hscale)
  obtain ⟨calls, hcalls, hsize, hinside⟩ :=
    @Raster.Kit.render_inside ⟨style, fonts, angles⟩ _ hk rfl hangles path d hitems
  exact ⟨_, _, d, calls, hmake, congrArg Run.result hrun, rfl, hcalls, _, _, rfl, rfl, hsize, hinside⟩

/-- Without a canvas margin, a loop that enters its first node from above. -/
theorem run_draws_inside_zero :
    let c : Config Rat := { canvasMargin := .int 0 }
    let s : Settings Rat := ⟨⟨150, 120, 100, 60, 20⟩, .int 20, .int 0⟩
    let fonts : Raster.FontSystem := ⟨fun _ => false, fun _ => false, true, fun font text =>
      ⟨0, 3, 6 * text.length, 3 + font.size⟩⟩
    let kit : Raster.Kit Rat := ⟨{}, fonts, Raster.Angles.approximate⟩
    ofConfig c = .ok s ∧ ∃ r d calls, (s.run loop).result = .ok r ∧ r.picture.diagram? = some d ∧
      kit.render "flow.png" r.picture = .ok calls ∧ ∃ width height : Int,
        width = (d.width * 2).ceil ∧ height = (d.height * 2).ceil ∧
        calls.filterMap Raster.Call.imageSize? = [(width, height)] ∧
        ∀ call ∈ calls, ∀ p ∈ call.points, (0 ≤ p.x ∧ p.x ≤ width) ∧ 0 ≤ p.y ∧ p.y ≤ height := by
  intro c s fonts kit
  have hs : ofConfig c = .ok s := ofConfig_margin 0
  have hscale : 1 ≤ ({} : Raster.Style).scale := by decide
  have hne : (Document.read loop).nodes ≠ [] := by
    rw [nodes_loop]
    exact List.cons_ne_nil _ _
  obtain ⟨kit', r, d, calls, hkit, hrun⟩ := run_draws_inside hs (by decide) hscale
    Raster.Angles.approximate_bounded fonts "flow.png" loop hne
  obtain rfl := Except.ok.inj hkit
  exact ⟨hs, r, d, calls, hrun⟩

end Settings

end FlowDiagram
