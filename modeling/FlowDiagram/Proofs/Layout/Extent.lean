import FlowDiagram.Proofs.Layout.Translation

namespace FlowDiagram

/-- The space of an element. A point takes a space of no size. -/
structure Extent where
  left : Rat
  top : Rat
  right : Rat
  bottom : Rat

def Extent.translate (dx dy : Rat) (b : Extent) : Extent :=
  ⟨b.left + dx, b.top + dy, b.right + dx, b.bottom + dy⟩

def Extent.move (dy : Rat) (b : Extent) : Extent := ⟨b.left, b.top + dy, b.right, b.bottom + dy⟩

theorem Extent.translate_zero (dy : Rat) (b : Extent) : b.translate 0 dy = b.move dy := by
  rw [translate, move, add_zero, add_zero]

/-- The points inside, without the border. -/
def Extent.interior (b : Extent) : Set (Point Rat) :=
  {p | (b.left < p.x ∧ p.x < b.right) ∧ b.top < p.y ∧ p.y < b.bottom}

theorem Extent.disjoint_interior {a b : Extent}
    (h : a.right ≤ b.left ∨ b.right ≤ a.left ∨ a.bottom ≤ b.top ∨ b.bottom ≤ a.top) :
    a.interior ∩ b.interior = ∅ := by
  apply Set.eq_empty_iff_forall_notMem.mpr
  intro p hp
  obtain ⟨ha, hb⟩ := hp
  obtain ⟨⟨hal, har⟩, hat, hab⟩ := ha
  obtain ⟨⟨hbl, hbr⟩, hbt, hbb⟩ := hb
  obtain h | h | h | h := h <;> linarith

def PlacedNode.extent (n : PlacedNode Rat) : Extent := ⟨n.left, n.top, n.right, n.bottom⟩

def Point.extent (p : Point Rat) : Extent := ⟨p.x, p.y, p.x, p.y⟩

/-- The estimated box of a label around its center. -/
def Route.labelExtent (label : String) (p : Point Rat) : Extent :=
  ⟨p.x - Scalar.half (labelWidth label), p.y - Scalar.half (labelHeight label),
    p.x + Scalar.half (labelWidth label), p.y + Scalar.half (labelHeight label)⟩

def RoutedEdge.extents (e : RoutedEdge Rat) : List Extent :=
  e.path.map Point.extent ++ (e.anchor.map (Route.labelExtent e.label)).toList

namespace Canvas

def extents (nodes : List (PlacedNode Rat)) (edges : List (RoutedEdge Rat)) : List Extent :=
  nodes.map PlacedNode.extent ++ edges.flatMap RoutedEdge.extents

variable (dx dy : Rat)

theorem extent_translate (n : PlacedNode Rat) :
    (n.translate dx dy).extent = n.extent.translate dx dy := by
  rw [PlacedNode.extent, PlacedNode.left_translate, PlacedNode.right_translate,
    PlacedNode.top_translate, PlacedNode.bottom_translate]
  rfl

theorem labelExtent_translate (label : String) (p : Point Rat) :
    Route.labelExtent label (p.translate dx dy) = (Route.labelExtent label p).translate dx dy := by
  have hleft : p.x + dx - Scalar.half (Route.labelWidth label) =
      p.x - Scalar.half (Route.labelWidth label) + dx := by ring
  have hright : p.x + dx + Scalar.half (Route.labelWidth label) =
      p.x + Scalar.half (Route.labelWidth label) + dx := by ring
  have htop : p.y + dy - Scalar.half (Route.labelHeight label) =
      p.y - Scalar.half (Route.labelHeight label) + dy := by ring
  have hbottom : p.y + dy + Scalar.half (Route.labelHeight label) =
      p.y + Scalar.half (Route.labelHeight label) + dy := by ring
  rw [Route.labelExtent, Point.translate, hleft, hright, htop, hbottom]
  rfl

theorem extents_translateEdge (e : RoutedEdge Rat) :
    (e.translate dx dy).extents = e.extents.map (.translate dx dy) := by
  rw [RoutedEdge.extents, RoutedEdge.extents, List.map_append]
  congr 1
  · simp only [RoutedEdge.translate, List.map_map]
    rfl
  · cases h : e.anchor with
    | none => simp [RoutedEdge.translate, h]
    | some p => simp [RoutedEdge.translate, h, labelExtent_translate]

theorem extents_translate (nodes : List (PlacedNode Rat)) (edges : List (RoutedEdge Rat)) :
    extents (nodes.map (.translate dx dy)) (edges.map (.translate dx dy)) =
      (extents nodes edges).map (.translate dx dy) := by
  rw [extents, extents, List.map_append, List.map_map, List.map_map, List.flatMap_map,
    List.map_flatMap]
  congr 1
  · apply List.map_congr_left
    intro n _
    exact extent_translate dx dy n
  · congr 1
    funext e
    exact extents_translateEdge dx dy e

theorem extents_move (nodes : List (PlacedNode Rat)) (edges : List (RoutedEdge Rat)) :
    extents (nodes.map (moveNode dy)) (edges.map (moveEdge dy)) =
      (extents nodes edges).map (Extent.move dy) := by
  have hnode : PlacedNode.translate 0 dy = moveNode dy := funext (PlacedNode.translate_zero dy)
  have hedge : RoutedEdge.translate 0 dy = moveEdge dy := funext (RoutedEdge.translate_zero dy)
  have hextent : Extent.translate 0 dy = Extent.move dy := funext (Extent.translate_zero dy)
  rw [← hnode, ← hedge, ← hextent, extents_translate]

theorem tops_extents (nodes : List (PlacedNode Rat)) (edges : List (RoutedEdge Rat)) :
    tops nodes edges = (extents nodes edges).map Extent.top := by
  have hedge : edgeTops = fun e : RoutedEdge Rat => e.extents.map Extent.top := by
    funext e
    rw [edgeTops, RoutedEdge.extents, List.map_append, List.map_map]
    cases e.anchor <;> rfl
  rw [tops, extents, List.map_append, List.map_map, List.map_flatMap, hedge]
  rfl

theorem corners_extents (nodes : List (PlacedNode Rat)) (edges : List (RoutedEdge Rat)) :
    corners nodes edges = (extents nodes edges).map fun b => ⟨b.right, b.bottom⟩ := by
  have hedge : edgeCorners = fun e : RoutedEdge Rat =>
      e.extents.map fun b => (⟨b.right, b.bottom⟩ : Point Rat) := by
    funext e
    have hpoint : (fun b : Extent => (⟨b.right, b.bottom⟩ : Point Rat)) ∘ Point.extent = id := rfl
    rw [edgeCorners, RoutedEdge.extents, List.map_append, List.map_map, hpoint, List.map_id]
    cases e.anchor <;> rfl
  rw [corners, extents, List.map_append, List.map_map, List.map_flatMap, hedge]
  rfl

end Canvas

namespace Route

theorem extents_left {leftMargin : Rat} {nodes : List (PlacedNode Rat)} (edges : List Edge)
    (hids : (nodes.map (·.id)).Nodup) (h : ∀ n ∈ nodes, leftMargin ≤ n.left) :
    ∀ e ∈ all leftMargin nodes edges, ∀ b ∈ e.extents, leftMargin ≤ b.left := by
  intro e he b hb
  obtain ⟨e, -, rfl⟩ := List.mem_map.mp he
  rw [edge] at hb
  split at hb
  · rename_i m n hm hn
    obtain ⟨hm, -⟩ := (get?_nodes hids e.source m).mp hm
    obtain ⟨hn, -⟩ := (get?_nodes hids e.target n).mp hn
    obtain hb | hb := List.mem_append.mp hb
    · obtain ⟨p, hp, rfl⟩ := List.mem_map.mp hb
      exact path_left (h m hm) (h n hn) p hp
    · rw [between] at hb
      split at hb
      · cases hb
      · obtain rfl := List.mem_singleton.mp hb
        exact anchor_left leftMargin e.label (course m n)
  · cases hb

end Route

end FlowDiagram
