import FlowDiagram.Layout.Run
import FlowDiagram.Proofs.Layout.Extent

namespace FlowDiagram

namespace Canvas

theorem overflow_eq (margin : Rat) {nodes : List (PlacedNode Rat)} {edges : List (RoutedEdge Rat)} {y : Rat}
    {ys : List Rat} (h : tops nodes edges = y :: ys) :
    overflow margin nodes edges = max 0 (margin - Scalar.least y ys) := by
  rw [overflow, h, ← Scalar.max_rat]
  rfl

theorem overflow_spec (margin : Rat) {nodes : List (PlacedNode Rat)} (edges : List (RoutedEdge Rat))
    (h : nodes ≠ []) :
    (∀ b ∈ extents nodes edges, margin ≤ b.top + overflow margin nodes edges) ∧
      (0 < overflow margin nodes edges →
        ∃ b ∈ extents nodes edges, b.top + overflow margin nodes edges = margin) := by
  have hne : tops nodes edges ≠ [] := by simp [tops, h]
  have htops := tops_extents nodes edges
  cases ht : tops nodes edges with
  | nil => exact absurd ht hne
  | cons y ys =>
    have ho := overflow_eq margin ht
    obtain ⟨hmem, hle⟩ := Scalar.least_spec y ys
    rw [← ht, htops] at hmem hle
    rw [ho]
    constructor
    · intro b hb
      have hb' := hle b.top (List.mem_map_of_mem hb)
      have hmax := le_max_right 0 (margin - Scalar.least y ys)
      linarith
    · intro hpos
      have hsub : 0 < margin - Scalar.least y ys := by
        by_contra hneg
        rw [max_eq_left (not_lt.mp hneg)] at hpos
        exact lt_irrefl 0 hpos
      obtain ⟨b, hb, heq⟩ := List.mem_map.mp hmem
      refine ⟨b, hb, ?_⟩
      rw [max_eq_right hsub.le, heq]
      ring

theorem overflow_eq_zero {margin : Rat} {nodes : List (PlacedNode Rat)} {edges : List (RoutedEdge Rat)}
    (h : ∀ b ∈ extents nodes edges, margin ≤ b.top) : overflow margin nodes edges = 0 := by
  cases ht : tops nodes edges with
  | nil =>
    rw [overflow, ht]
    exact Nat.cast_zero
  | cons y ys =>
    have ho := overflow_eq margin ht
    have hmem := (Scalar.least_spec y ys).1
    rw [← ht, tops_extents] at hmem
    obtain ⟨b, hb, heq⟩ := List.mem_map.mp hmem
    have hle := h b hb
    rw [ho, ← heq]
    exact max_eq_left (by linarith)

theorem extent_spec (margin : Rat) {xs : List Rat} (h : ∃ x ∈ xs, 0 ≤ x) :
    (∀ x ∈ xs, x ≤ extent margin xs - margin) ∧ ∃ x ∈ xs, x = extent margin xs - margin := by
  have he : extent margin xs - margin = xs.foldl max 0 := by
    have hmax : (Scalar.max : Rat → Rat → Rat) = max := by
      funext a b
      exact Scalar.max_rat a b
    rw [extent, hmax]
    exact add_sub_cancel_right _ _
  have hmax : (0 :: xs).max? = some (xs.foldl max 0) := List.max?_cons'
  obtain ⟨hmem, hle⟩ := List.max?_eq_some_iff.mp hmax
  have hle' : ∀ x ∈ xs, x ≤ xs.foldl max 0 := by
    intro x hx
    exact hle x (List.mem_cons_of_mem _ hx)
  rw [he]
  refine ⟨hle', ?_⟩
  obtain hzero | hmem := List.mem_cons.mp hmem
  · obtain ⟨x, hx, hpos⟩ := h
    refine ⟨x, hx, le_antisymm (hle' x hx) ?_⟩
    rw [hzero]
    exact hpos
  · exact ⟨_, hmem, rfl⟩

theorem size_spec (margin : Rat) {nodes : List (PlacedNode Rat)} {edges : List (RoutedEdge Rat)}
    (h : ∃ b ∈ extents nodes edges, 0 ≤ b.right ∧ 0 ≤ b.bottom) :
    (∀ b ∈ extents nodes edges, b.right ≤ (size margin nodes edges).1 - margin ∧
      b.bottom ≤ (size margin nodes edges).2 - margin) ∧
    (∃ b ∈ extents nodes edges, b.right = (size margin nodes edges).1 - margin) ∧
    ∃ b ∈ extents nodes edges, b.bottom = (size margin nodes edges).2 - margin := by
  obtain ⟨b, hb, hright, hbottom⟩ := h
  obtain ⟨hxs, hx⟩ := extent_spec margin ⟨_, List.mem_map_of_mem (f := Extent.right) hb, hright⟩
  obtain ⟨hys, hy⟩ := extent_spec margin ⟨_, List.mem_map_of_mem (f := Extent.bottom) hb, hbottom⟩
  have hw : (size margin nodes edges).1 =
      extent margin ((extents nodes edges).map Extent.right) := by
    rw [size, corners_extents, List.map_map]
    rfl
  have hh : (size margin nodes edges).2 =
      extent margin ((extents nodes edges).map Extent.bottom) := by
    rw [size, corners_extents, List.map_map, List.map_map]
    rfl
  rw [hw, hh]
  refine ⟨?_, ?_, ?_⟩
  · intro b hb
    exact ⟨hxs _ (List.mem_map_of_mem hb), hys _ (List.mem_map_of_mem hb)⟩
  · obtain ⟨x, hmem, rfl⟩ := hx
    obtain ⟨b, hb, heq⟩ := List.mem_map.mp hmem
    exact ⟨b, hb, heq⟩
  · obtain ⟨y, hmem, rfl⟩ := hy
    obtain ⟨b, hb, heq⟩ := List.mem_map.mp hmem
    exact ⟨b, hb, heq⟩

/-- All elements lie inside the margins. On the right and at the bottom they reach them, and if the
diagram was moved down, at the top as well. -/
structure Fits (leftMargin canvasMargin shift : Rat) (d : Diagram Rat) : Prop where
  inside : ∀ b ∈ extents d.nodes d.edges,
    (leftMargin ≤ b.left ∧ b.right ≤ d.width - canvasMargin) ∧
      leftMargin ≤ b.top ∧ b.bottom ≤ d.height - canvasMargin
  right : ∃ b ∈ extents d.nodes d.edges, b.right = d.width - canvasMargin
  bottom : ∃ b ∈ extents d.nodes d.edges, b.bottom = d.height - canvasMargin
  top : 0 < shift → ∃ b ∈ extents d.nodes d.edges, b.top = leftMargin

end Canvas

/-- The diagram is the plan moved down clear of the top margin, on a canvas of its size. -/
structure Settings.Framed (s : Settings Rat) (p : Plan Rat) (shift : Rat) (d : Diagram Rat) : Prop where
  clear : shift = Canvas.overflow s.leftMargin.exact p.nodes p.edges
  nodes : d.nodes = p.nodes.map (Canvas.moveNode shift)
  edges : d.edges = p.edges.map (Canvas.moveEdge shift)
  size : (d.width, d.height) = Canvas.size s.canvasMargin.exact d.nodes d.edges

namespace Canvas

theorem moveNode_zero : moveNode (0 : Rat) = id := by
  funext n
  rw [moveNode, add_zero]
  rfl

theorem movePoint_zero : movePoint (0 : Rat) = id := by
  funext p
  rw [movePoint, add_zero]
  rfl

theorem moveEdge_zero : moveEdge (0 : Rat) = id := by
  funext e
  rw [moveEdge, movePoint_zero, List.map_id, Option.map_id]
  rfl

theorem map_move_or_still {β : Type} {move : Rat → β → β} (h : move 0 = id) (shift : Rat)
    (xs : List β) :
    (if Scalar.eq shift ((0 : Nat) : Rat) then xs else xs.map (move shift)) =
      xs.map (move shift) := by
  by_cases hs : shift = 0
  · rw [hs, h, List.map_id, ite_self]
  · have hz : ((0 : Nat) : Rat) = 0 := Nat.cast_zero
    rw [Scalar.eq_rat, hz, if_neg (by simpa using hs)]

end Canvas

namespace Settings

variable {s : Settings Rat} {p : Plan Rat}

theorem frame_spec (s : Settings Rat) (p : Plan Rat) :
    ∃ shift d, s.frame p = .ok (shift, d) ∧ s.Framed p shift d := by
  let shift := Canvas.overflow s.leftMargin.exact p.nodes p.edges
  let nodes := p.nodes.map (Canvas.moveNode shift)
  let edges := p.edges.map (Canvas.moveEdge shift)
  let size := Canvas.size s.canvasMargin.exact nodes edges
  refine ⟨shift, ⟨nodes, edges, size.1, size.2⟩, ?_, ⟨rfl, rfl, rfl, rfl⟩⟩
  rw [frame, Quantity.value_rat, Quantity.value_rat]
  simp only [bind, Except.bind, pure, Except.pure, Canvas.map_move_or_still Canvas.moveNode_zero,
    Canvas.map_move_or_still Canvas.moveEdge_zero]
  rfl

theorem Framed.fits {shift : Rat} {d : Diagram Rat} (h : s.Framed p shift d) (hne : p.nodes ≠ [])
    (hm : 0 ≤ s.leftMargin.exact)
    (hleft : ∀ b ∈ Canvas.extents p.nodes p.edges, s.leftMargin.exact ≤ b.left) :
    Canvas.Fits s.leftMargin.exact s.canvasMargin.exact shift d := by
  have hext : Canvas.extents d.nodes d.edges =
      (Canvas.extents p.nodes p.edges).map (Extent.move shift) := by
    rw [h.nodes, h.edges, Canvas.extents_move]
  obtain ⟨hclear, hreach⟩ := Canvas.overflow_spec s.leftMargin.exact p.edges hne
  rw [← h.clear] at hclear hreach
  have hcorner : ∃ b ∈ Canvas.extents d.nodes d.edges, 0 ≤ b.right ∧ 0 ≤ b.bottom := by
    obtain ⟨n, hn⟩ := List.exists_mem_of_ne_nil _ hne
    have hmem : n.extent ∈ Canvas.extents p.nodes p.edges :=
      List.mem_append_left _ (List.mem_map_of_mem hn)
    have hl : s.leftMargin.exact ≤ n.left := hleft _ hmem
    have ht : s.leftMargin.exact ≤ n.top + shift := hclear _ hmem
    have hw : n.left ≤ n.right := n.left_le_right
    have hh : n.top ≤ n.bottom := n.top_le_bottom
    refine ⟨n.extent.move shift, ?_, ?_, ?_⟩
    · rw [hext]
      exact List.mem_map_of_mem hmem
    · change 0 ≤ n.right
      linarith
    · change 0 ≤ n.bottom + shift
      linarith
  obtain ⟨hin, hright, hbottom⟩ := Canvas.size_spec s.canvasMargin.exact hcorner
  rw [← h.size] at hin hright hbottom
  refine ⟨?_, hright, hbottom, ?_⟩
  · intro b hb
    obtain ⟨hr, hbot⟩ := hin b hb
    rw [hext] at hb
    obtain ⟨c, hc, rfl⟩ := List.mem_map.mp hb
    exact ⟨⟨hleft c hc, hr⟩, hclear c hc, hbot⟩
  · intro hpos
    obtain ⟨b, hb, heq⟩ := hreach hpos
    refine ⟨b.move shift, ?_, heq⟩
    rw [hext]
    exact List.mem_map_of_mem hb

end Settings

end FlowDiagram
