import FlowDiagram.Proofs.Layout.Route

namespace FlowDiagram

variable (dx dy : Rat)

def Point.translate (p : Point Rat) : Point Rat := ⟨p.x + dx, p.y + dy⟩

def PlacedNode.translate (n : PlacedNode Rat) : PlacedNode Rat :=
  { n with x := n.x + dx, y := n.y + dy }

def RoutedEdge.translate (e : RoutedEdge Rat) : RoutedEdge Rat :=
  { e with path := e.path.map (.translate dx dy), anchor := e.anchor.map (.translate dx dy) }

section Down

theorem Point.translate_zero (p : Point Rat) : p.translate 0 dy = Canvas.movePoint dy p := by
  rw [translate, Canvas.movePoint, add_zero]

theorem PlacedNode.translate_zero (n : PlacedNode Rat) : n.translate 0 dy = Canvas.moveNode dy n := by
  rw [translate, Canvas.moveNode, add_zero]

theorem RoutedEdge.translate_zero (e : RoutedEdge Rat) : e.translate 0 dy = Canvas.moveEdge dy e := by
  have hpoint : Point.translate 0 dy = Canvas.movePoint dy := funext (Point.translate_zero dy)
  rw [translate, Canvas.moveEdge, hpoint]

end Down

namespace PlacedNode

variable (n : PlacedNode Rat)

@[simp] theorem left_translate : (n.translate dx dy).left = n.left + dx :=
  add_sub_right_comm n.x dx _

@[simp] theorem right_translate : (n.translate dx dy).right = n.right + dx :=
  add_right_comm n.x dx _

@[simp] theorem top_translate : (n.translate dx dy).top = n.top + dy :=
  add_sub_right_comm n.y dy _

@[simp] theorem bottom_translate : (n.translate dx dy).bottom = n.bottom + dy :=
  add_right_comm n.y dy _

theorem exit_translate : (n.translate dx dy).exit = n.exit.translate dx dy := by
  rw [exit, bottom_translate]
  rfl

end PlacedNode

namespace Route

def Leg.translate : Leg Rat → Leg Rat
  | .toX x => .toX (x + dx)
  | .toY y => .toY (y + dy)

def Course.translate (c : Course Rat) : Course Rat :=
  ⟨c.legs.map (Leg.translate dx dy), c.runStart.translate dx dy, c.runEnd + dx⟩

theorem eq_add_right (a b d : Rat) : Scalar.eq (a + d) (b + d) = Scalar.eq a b := by
  rw [Scalar.eq_rat, Scalar.eq_rat]
  simp

theorem corners_translate (p : Point Rat) (legs : List (Leg Rat)) :
    corners (p.translate dx dy) (legs.map (Leg.translate dx dy)) =
      (corners p legs).map (.translate dx dy) := by
  induction legs generalizing p with
  | nil => rfl
  | cons leg legs ih =>
    cases leg with
    | toX x =>
      have hx := ih ⟨x, p.y⟩
      have he : Scalar.eq (p.translate dx dy).x (x + dx) = Scalar.eq p.x x := eq_add_right ..
      simp only [List.map_cons, Leg.translate, corners, he]
      by_cases h : Scalar.eq p.x x = true
      · rw [if_pos h, if_pos h]
        exact hx
      · rw [if_neg h, if_neg h, List.map_cons]
        exact congrArg _ hx
    | toY y =>
      have hy := ih ⟨p.x, y⟩
      have he : Scalar.eq (p.translate dx dy).y (y + dy) = Scalar.eq p.y y := eq_add_right ..
      simp only [List.map_cons, Leg.translate, corners, he]
      by_cases h : Scalar.eq p.y y = true
      · rw [if_pos h, if_pos h]
        exact hy
      · rw [if_neg h, if_neg h, List.map_cons]
        exact congrArg _ hy

theorem aligned_translate (a b c : Point Rat) :
    aligned (a.translate dx dy) (b.translate dx dy) (c.translate dx dy) = aligned a b c := by
  simp only [aligned, Point.translate, eq_add_right]

theorem straightenFrom_translate (a b : Point Rat) (ps : List (Point Rat)) :
    straightenFrom (a.translate dx dy) (b.translate dx dy) (ps.map (.translate dx dy)) =
      (straightenFrom a b ps).map (.translate dx dy) := by
  induction ps generalizing a b with
  | nil => rfl
  | cons c ps ih =>
    rw [List.map_cons, straightenFrom, straightenFrom, aligned_translate]
    split
    · exact ih a c
    · rw [ih b c, List.map_cons]

theorem straighten_translate (ps : List (Point Rat)) :
    straighten (ps.map (.translate dx dy)) = (straighten ps).map (.translate dx dy) := by
  match ps with
  | [] => rfl
  | [a] => rfl
  | a :: b :: ps => exact straightenFrom_translate dx dy a b ps

variable (m n : PlacedNode Rat)

theorem course_translate :
    course (m.translate dx dy) (n.translate dx dy) = (course m n).translate dx dy := by
  have hf : (m.translate dx dy).bottom < (n.translate dx dy).top ↔ m.bottom < n.top := by
    rw [PlacedNode.top_translate, PlacedNode.bottom_translate]
    exact add_lt_add_iff_right dy
  by_cases h : m.bottom < n.top
  · rw [course_of_below h, course_of_below (hf.mpr h)]
    have hmid : (m.bottom + dy + (n.top + dy)) / 2 = (m.bottom + n.top) / 2 + dy := by ring
    rw [forward_rat, forward_rat, PlacedNode.bottom_translate, PlacedNode.top_translate, hmid]
    rfl
  · rw [course_of_not_below h, course_of_not_below (hf.not.mpr h)]
    have hbelow : m.bottom + dy + 20 = m.bottom + 20 + dy := by ring
    have habove : n.top + dy - 20 = n.top - 20 + dy := by ring
    have hchannel : max (m.right + dx) (n.right + dx) + 20 = max m.right n.right + 20 + dx := by
      rw [max_add_add_right]
      ring
    rw [around_rat, around_rat, PlacedNode.bottom_translate, PlacedNode.top_translate,
      PlacedNode.right_translate, PlacedNode.right_translate, hbelow, habove, hchannel]
    rfl

theorem path_translate :
    path (m.translate dx dy) (n.translate dx dy) = (path m n).map (.translate dx dy) := by
  rw [path, path, PlacedNode.exit_translate, course_translate]
  change straighten (m.exit.translate dx dy :: corners (m.exit.translate dx dy)
    ((course m n).legs.map (Leg.translate dx dy))) = _
  rw [corners_translate, ← List.map_cons, straighten_translate]

theorem labelMiddle_translate (label : String) (c : Course Rat) :
    labelMiddle label (c.translate dx dy) = labelMiddle label c + dx := by
  have hroom : c.runEnd + dx - (c.runStart.x + dx) = c.runEnd - c.runStart.x := by ring
  have hmiddle : (c.runStart.x + dx + (c.runEnd + dx)) / 2 = (c.runStart.x + c.runEnd) / 2 + dx := by
    ring
  have hbeside : c.runStart.x + dx + 8 + (labelWidth label : Rat) / 2 =
      c.runStart.x + 8 + (labelWidth label : Rat) / 2 + dx := by ring
  rw [labelMiddle, labelMiddle, Course.translate, Point.translate, hroom, hmiddle, hbeside]
  split <;> rfl

theorem anchor_translate (leftMargin : Rat) (label : String) (c : Course Rat) :
    anchor (leftMargin + dx) label (c.translate dx dy) =
      (anchor leftMargin label c).translate dx dy := by
  have hx : max (labelMiddle label c + dx) (leftMargin + dx + (labelWidth label : Rat) / 2) =
      max (labelMiddle label c) (leftMargin + (labelWidth label : Rat) / 2) + dx := by
    rw [add_right_comm leftMargin, max_add_add_right]
  have hy : c.runStart.y + dy - 8 - (labelHeight label : Rat) / 2 =
      c.runStart.y - 8 - (labelHeight label : Rat) / 2 + dy := by ring
  rw [anchor_rat, anchor_rat, labelMiddle_translate, hx]
  exact congrArg (Point.mk _) hy

theorem between_translate (leftMargin : Rat) (e : Edge) :
    between (leftMargin + dx) e (m.translate dx dy) (n.translate dx dy) =
      (between leftMargin e m n).translate dx dy := by
  rw [between, between, path_translate, course_translate, anchor_translate]
  by_cases h : e.label = "" <;> simp [RoutedEdge.translate, h]

theorem all_translate (leftMargin : Rat) (nodes : List (PlacedNode Rat)) (edges : List Edge) :
    all (leftMargin + dx) (nodes.map (.translate dx dy)) edges =
      (all leftMargin nodes edges).map (.translate dx dy) := by
  have hget (id : String) :
      (Table.ofList ((nodes.map (PlacedNode.translate dx dy)).map fun n => (n.id, n))).get? id =
        ((Table.ofList (nodes.map fun n => (n.id, n))).get? id).map (.translate dx dy) := by
    rw [← Table.get?_ofList_map, List.map_map, List.map_map]
    rfl
  rw [all, all, List.map_map (l := edges)]
  apply List.map_congr_left
  intro e _
  change edge _ _ e = (edge _ _ e).translate dx dy
  rw [edge, edge, hget, hget]
  cases (Table.ofList (nodes.map fun n => (n.id, n))).get? e.source with
  | none => rfl
  | some m =>
    cases (Table.ofList (nodes.map fun n => (n.id, n))).get? e.target with
    | none => rfl
    | some n => exact between_translate dx dy m n leftMargin e

theorem all_move (leftMargin : Rat) (nodes : List (PlacedNode Rat)) (edges : List Edge) :
    all leftMargin (nodes.map (Canvas.moveNode dy)) edges =
      (all leftMargin nodes edges).map (Canvas.moveEdge dy) := by
  have hnode : PlacedNode.translate 0 dy = Canvas.moveNode dy := funext (PlacedNode.translate_zero dy)
  have hedge : RoutedEdge.translate 0 dy = Canvas.moveEdge dy := funext (RoutedEdge.translate_zero dy)
  have hmove := all_translate 0 dy leftMargin nodes edges
  rwa [add_zero, hnode, hedge] at hmove

/-- Two margins that all boxes keep give the same routes. -/
theorem all_margin {left left' : Rat} {nodes : List (PlacedNode Rat)}
    (hids : (nodes.map (·.id)).Nodup) (h : ∀ n ∈ nodes, left ≤ n.left) (h' : ∀ n ∈ nodes, left' ≤ n.left)
    (edges : List Edge) : all left' nodes edges = all left nodes edges := by
  rw [all, all]
  apply List.map_congr_left
  intro e _
  rw [edge, edge]
  split
  · rename_i m n hm hn
    obtain ⟨hm, -⟩ := (get?_nodes hids e.source m).mp hm
    obtain ⟨hn, -⟩ := (get?_nodes hids e.target n).mp hn
    obtain ⟨hstart, hend⟩ := run_left (h m hm) (h n hn)
    obtain ⟨hstart', hend'⟩ := run_left (h' m hm) (h' n hn)
    rw [between, between, anchor_of_left hstart hend, anchor_of_left hstart' hend']
  · rfl

end Route

end FlowDiagram
