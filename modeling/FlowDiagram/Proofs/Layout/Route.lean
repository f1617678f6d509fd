import FlowDiagram.Proofs.Layout.Exact
import FlowDiagram.Proofs.Table
import FlowDiagram.Layout.Canvas

namespace FlowDiagram.Route

variable (m n : PlacedNode Rat)

theorem isForward_rat : isForward m n = decide (m.bottom < n.top) := rfl

theorem forward_rat : forward m n =
    ⟨[.toY ((m.bottom + n.top) / 2), .toX n.x, .toY n.top],
      ⟨m.x, (m.bottom + n.top) / 2⟩, n.x⟩ := rfl

theorem around_rat : around m n =
    ⟨[.toY (m.bottom + 20), .toX (max m.right n.right + 20), .toY (n.top - 20), .toX n.x,
      .toY n.top], ⟨max m.right n.right + 20, n.top - 20⟩, n.x⟩ := by
  rw [← Scalar.max_rat]
  rfl

theorem course_of_below {m n : PlacedNode Rat} (h : m.bottom < n.top) :
    course m n = forward m n := if_pos (decide_eq_true h)

theorem course_of_not_below {m n : PlacedNode Rat} (h : ¬ m.bottom < n.top) :
    course m n = around m n := by
  have hf : ¬ isForward m n = true := by
    rw [isForward_rat, decide_eq_true_iff]
    exact h
  exact if_neg hf

section Points

variable {α : Type} [Scalar α]

theorem straightenFrom_sublist (a b : Point α) (ps : List (Point α)) :
    (straightenFrom a b ps).Sublist (a :: b :: ps) := by
  induction ps generalizing a b with
  | nil => exact List.Sublist.refl _
  | cons c ps ih =>
    rw [straightenFrom]
    split
    · exact (ih a c).trans (((List.Sublist.refl _).cons b).cons_cons a)
    · exact (ih b c).cons_cons a

theorem straighten_sublist (ps : List (Point α)) : (straighten ps).Sublist ps := by
  match ps with
  | [] => exact List.Sublist.refl _
  | [a] => exact List.Sublist.refl _
  | a :: b :: ps => exact straightenFrom_sublist a b ps

theorem exists_straightenFrom (a b : Point α) (ps : List (Point α)) :
    ∃ c cs, straightenFrom a b ps = a :: c :: cs := by
  induction ps generalizing a b with
  | nil => exact ⟨b, [], rfl⟩
  | cons c ps ih =>
    rw [straightenFrom]
    split
    · exact ih a c
    · obtain ⟨d, ds, hrest⟩ := ih b c
      exact ⟨b, d :: ds, by rw [hrest]⟩

theorem corners_forall {P Q : α → Prop} {p : Point α} {legs : List (Leg α)} (hp : P p.x ∧ Q p.y)
    (hx : ∀ x, Leg.toX x ∈ legs → P x) (hy : ∀ y, Leg.toY y ∈ legs → Q y) :
    ∀ q ∈ corners p legs, P q.x ∧ Q q.y := by
  induction legs generalizing p with
  | nil => simp [corners]
  | cons leg legs ih =>
    have hlegs {r : Point α} (hr : P r.x ∧ Q r.y) : ∀ q ∈ corners r legs, P q.x ∧ Q q.y :=
      ih hr (fun x h => hx x (List.mem_cons_of_mem _ h)) fun y h => hy y (List.mem_cons_of_mem _ h)
    cases leg with
    | toX x =>
      have hr : P x ∧ Q p.y := ⟨hx x (List.mem_cons_self ..), hp.2⟩
      rw [corners]
      split
      · exact hlegs hr
      · exact List.forall_mem_cons.mpr ⟨hr, hlegs hr⟩
    | toY y =>
      have hr : P p.x ∧ Q y := ⟨hp.1, hy y (List.mem_cons_self ..)⟩
      rw [corners]
      split
      · exact hlegs hr
      · exact List.forall_mem_cons.mpr ⟨hr, hlegs hr⟩

end Points

theorem corners_left {left : Rat} {p : Point Rat} {legs : List (Leg Rat)} (hp : left ≤ p.x)
    (h : ∀ x, Leg.toX x ∈ legs → left ≤ x) : ∀ q ∈ corners p legs, left ≤ q.x := by
  intro q hq
  have hforall := corners_forall (P := fun x => left ≤ x) (Q := fun _ => True) ⟨hp, trivial⟩ h fun _ _ => trivial
  exact (hforall q hq).1

variable {m n}

theorem path_left {left : Rat} (hm : left ≤ m.left) (hn : left ≤ n.left) :
    ∀ p ∈ path m n, left ≤ p.x := by
  have hsource : left ≤ m.x := hm.trans m.left_le_x
  have htarget : left ≤ n.x := hn.trans n.left_le_x
  have hlegs : ∀ x, Leg.toX x ∈ (course m n).legs → left ≤ x := by
    intro x hx
    by_cases hbelow : m.bottom < n.top
    · rw [course_of_below hbelow, forward_rat] at hx
      simp only [List.mem_cons, Leg.toX.injEq, reduceCtorEq, List.not_mem_nil, false_or,
        or_false] at hx
      rw [hx]
      exact htarget
    · rw [course_of_not_below hbelow, around_rat] at hx
      simp only [List.mem_cons, Leg.toX.injEq, reduceCtorEq, List.not_mem_nil, false_or,
        or_false] at hx
      obtain hx | hx := hx
      · have hmax := le_max_left m.right n.right
        have hright := m.x_le_right
        linarith
      · rw [hx]
        exact htarget
  intro p hp
  obtain rfl | hp := List.mem_cons.mp ((straighten_sublist _).subset hp)
  · exact hsource
  · exact corners_left hsource hlegs p hp

theorem anchor_left (leftMargin : Rat) (label : String) (c : Course Rat) :
    leftMargin ≤ (anchor leftMargin label c).x - (labelWidth label : Rat) / 2 := by
  have hx : leftMargin + (labelWidth label : Rat) / 2 ≤ (anchor leftMargin label c).x := by
    rw [anchor, Scalar.max_rat]
    exact le_max_right ..
  linarith

/-- The middle of a label on its run, as long as no margin is in the way. -/
def labelMiddle (label : String) (c : Course Rat) : Rat :=
  if (labelWidth label : Rat) + 16 ≤ |c.runEnd - c.runStart.x| then (c.runStart.x + c.runEnd) / 2
  else c.runStart.x + 8 + (labelWidth label : Rat) / 2

theorem anchor_rat (leftMargin : Rat) (label : String) (c : Course Rat) :
    anchor leftMargin label c =
      ⟨max (labelMiddle label c) (leftMargin + (labelWidth label : Rat) / 2),
        c.runStart.y - 8 - (labelHeight label : Rat) / 2⟩ := by
  have hroom : ((labelWidth label + 2 * labelGap : Nat) : Rat) = (labelWidth label : Rat) + 16 :=
    Nat.cast_add _ _
  simp only [anchor, Scalar.max_rat, Scalar.le_rat, Scalar.abs_rat, hroom, decide_eq_true_eq]
  rfl

theorem labelMiddle_left {left : Rat} {c : Course Rat} (hstart : left ≤ c.runStart.x)
    (hend : left ≤ c.runEnd) (label : String) :
    left + 8 + (labelWidth label : Rat) / 2 ≤ labelMiddle label c := by
  rw [labelMiddle]
  split
  · rename_i hroom
    obtain hright | hleft := le_abs.mp hroom <;> linarith
  · linarith

theorem anchor_of_left {left : Rat} {c : Course Rat} (hstart : left ≤ c.runStart.x)
    (hend : left ≤ c.runEnd) (label : String) :
    anchor left label c =
      ⟨labelMiddle label c, c.runStart.y - 8 - (labelHeight label : Rat) / 2⟩ := by
  have hle := labelMiddle_left hstart hend label
  rw [anchor_rat, max_eq_left (by linarith)]

theorem run_left {left : Rat} (hm : left ≤ m.left) (hn : left ≤ n.left) :
    left ≤ (course m n).runStart.x ∧ left ≤ (course m n).runEnd := by
  have hsource : left ≤ m.x := hm.trans m.left_le_x
  have htarget : left ≤ n.x := hn.trans n.left_le_x
  by_cases hbelow : m.bottom < n.top
  · rw [course_of_below hbelow, forward_rat]
    exact ⟨hsource, htarget⟩
  · rw [course_of_not_below hbelow, around_rat]
    have hmax := le_max_left m.right n.right
    have hright := m.x_le_right
    refine ⟨?_, htarget⟩
    change left ≤ max m.right n.right + 20
    linarith

section Lookup

variable {α : Type} [Scalar α]

omit [Scalar α] in
theorem get?_nodes {nodes : List (PlacedNode α)} (h : (nodes.map (·.id)).Nodup) (id : String)
    (n : PlacedNode α) :
    (Table.ofList (nodes.map fun n => (n.id, n))).get? id = some n ↔ n ∈ nodes ∧ n.id = id := by
  have hkeys : ((nodes.map fun n => (n.id, n)).map (·.1)).Nodup := by
    rw [List.map_map]
    exact h
  rw [Table.get?_ofList hkeys]
  constructor
  · intro hmem
    obtain ⟨m, hm, heq⟩ := List.mem_map.mp hmem
    obtain ⟨rfl, rfl⟩ := Prod.mk.inj heq
    exact ⟨hm, rfl⟩
  · intro hmem
    obtain ⟨hm, rfl⟩ := hmem
    exact List.mem_map_of_mem hm

theorem toEdge_edge (leftMargin : α) (nodes : Table String (PlacedNode α)) (e : Edge) :
    (edge leftMargin nodes e).toEdge = e := by
  rw [edge]
  split <;> rfl

theorem toEdge_all (leftMargin : α) (nodes : List (PlacedNode α)) (edges : List Edge) :
    (all leftMargin nodes edges).map (·.toEdge) = edges := by
  rw [all, List.map_map]
  apply (List.map_congr_left _).trans (List.map_id edges)
  intro e _
  exact toEdge_edge leftMargin _ e

end Lookup

theorem mem_all {leftMargin : Rat} {nodes : List (PlacedNode Rat)} {edges : List Edge}
    (h : (nodes.map (·.id)).Nodup) {e : RoutedEdge Rat} (he : e ∈ all leftMargin nodes edges)
    (hm : m ∈ nodes) (hn : n ∈ nodes) (hsource : m.id = e.source) (htarget : n.id = e.target) :
    e.toEdge ∈ edges ∧ e = between leftMargin e.toEdge m n := by
  obtain ⟨e, hmem, rfl⟩ := List.mem_map.mp he
  rw [toEdge_edge] at hsource htarget ⊢
  refine ⟨hmem, ?_⟩
  rw [edge, (get?_nodes h e.source m).mpr ⟨hm, hsource⟩, (get?_nodes h e.target n).mpr ⟨hn, htarget⟩]

/-- Every edge is routed between two of the nodes, or has neither a path nor a label. -/
theorem between_or_bare {leftMargin : Rat} {nodes : List (PlacedNode Rat)} {edges : List Edge}
    (h : (nodes.map (·.id)).Nodup) {e : RoutedEdge Rat} (he : e ∈ all leftMargin nodes edges) :
    (∃ m ∈ nodes, ∃ n ∈ nodes, m.id = e.source ∧ n.id = e.target ∧ e = between leftMargin e.toEdge m n) ∨
      (e.path = [] ∧ e.anchor = none) := by
  obtain ⟨e, -, rfl⟩ := List.mem_map.mp he
  rw [toEdge_edge, edge]
  split
  · rename_i m n hm hn
    obtain ⟨hm, hsource⟩ := (get?_nodes h e.source m).mp hm
    obtain ⟨hn, htarget⟩ := (get?_nodes h e.target n).mp hn
    exact .inl ⟨m, hm, n, hn, hsource, htarget, rfl⟩
  · exact .inr ⟨rfl, rfl⟩

/-- An edge runs from its source along a course, and its label stands on the run of the course. -/
structure Follows (leftMargin : Rat) (e : RoutedEdge Rat) (source : PlacedNode Rat)
    (c : Course Rat) : Prop where
  path : e.path = straighten (source.exit :: corners source.exit c.legs)
  anchor : e.anchor = if e.label = "" then none else some (anchor leftMargin e.label c)

theorem follows_between (leftMargin : Rat) (e : Edge) (m n : PlacedNode Rat) :
    Follows leftMargin (between leftMargin e m n) m (course m n) := ⟨rfl, rfl⟩

end FlowDiagram.Route
