import FlowDiagram.Proofs.Layout.Line

namespace FlowDiagram

namespace Point

theorem right_mem_segment (p q : Point Rat) : q ∈ p.segment q := by
  refine ⟨1, by norm_num, (eq_mk ?_ ?_).symm⟩ <;> ring

theorem exists_share {s t : Rat} (hs : 0 ≤ s) (hst : s ≤ t) : ∃ u, (0 ≤ u ∧ u ≤ 1) ∧ u * t = s := by
  have ht : 0 ≤ t := hs.trans hst
  refine ⟨s / t, ⟨div_nonneg hs ht, div_le_one_of_le₀ hst ht⟩, div_mul_cancel_of_imp ?_⟩
  rintro rfl
  exact le_antisymm hst hs

theorem segment_split {p q r : Point Rat} (h : q ∈ p.segment r) :
    p.segment q ∪ q.segment r = p.segment r := by
  obtain ⟨t, ⟨hzero, hone⟩, rfl⟩ := h
  apply Set.Subset.antisymm
  · apply Set.union_subset
    · rintro _ ⟨s, ⟨hs, hs'⟩, rfl⟩
      refine ⟨s * t, ⟨mul_nonneg hs hzero, mul_le_one₀ hs' hzero hone⟩, eq_mk ?_ ?_⟩ <;> ring
    · rintro _ ⟨s, ⟨hs, hs'⟩, rfl⟩
      obtain ⟨hlow, hhigh⟩ := between_mix (q := 1) ⟨hzero, hone⟩ ⟨zero_le_one, le_rfl⟩ ⟨hs, hs'⟩
      refine ⟨t + s * (1 - t), ⟨hlow, hhigh⟩, eq_mk ?_ ?_⟩ <;> ring
  · rintro _ ⟨s, ⟨hs, hs'⟩, rfl⟩
    obtain hbefore | hafter := le_total s t
    · obtain ⟨u, hu, rfl⟩ := exists_share hs hbefore
      refine .inl ⟨u, hu, eq_mk ?_ ?_⟩ <;> ring
    · obtain ⟨u, hu, hut⟩ := exists_share (sub_nonneg.mpr hafter) (sub_le_sub_right hs' t)
      obtain rfl : t + u * (1 - t) = s := by rw [hut, add_sub_cancel]
      refine .inr ⟨u, hu, eq_mk ?_ ?_⟩ <;> ring

end Point

namespace Route

section Stops

variable {α : Type} [Scalar α]

/-- The points that the legs lead to, also where a leg has no length. -/
def stops (p : Point α) : List (Leg α) → List (Point α)
  | [] => []
  | .toX x :: legs => ⟨x, p.y⟩ :: stops ⟨x, p.y⟩ legs
  | .toY y :: legs => ⟨p.x, y⟩ :: stops ⟨p.x, y⟩ legs

/-- The whole way of an edge: from the exit of its source along all legs of its course. -/
def waypoints (source target : PlacedNode α) : List (Point α) :=
  source.exit :: stops source.exit (course source target).legs

end Stops

theorem dropRepeats_stops (p : Point Rat) (legs : List (Leg Rat)) :
    dropRepeats p (stops p legs) = corners p legs := by
  induction legs generalizing p with
  | nil => rfl
  | cons leg legs ih =>
    cases leg with
    | toX x =>
      by_cases hx : p.x = x
      · subst hx
        simp [stops, corners, dropRepeats, samePlace, ih]
      · simp [stops, corners, dropRepeats, samePlace, hx, ih]
    | toY y =>
      by_cases hy : p.y = y
      · subst hy
        simp [stops, corners, dropRepeats, samePlace, ih]
      · simp [stops, corners, dropRepeats, samePlace, hy, ih]

variable (m n : PlacedNode Rat)

theorem simplify_waypoints : simplify (waypoints m n) = path m n := by
  rw [waypoints, simplify, dropRepeats_stops]
  rfl

theorem line_straight {p q r : Point Rat} (h : q ∈ p.segment r) (ps : List (Point Rat)) :
    line (p :: q :: r :: ps) = line (p :: r :: ps) := by
  change p.segment q ∪ (q.segment r ∪ line (r :: ps)) = p.segment r ∪ line (r :: ps)
  rw [← Set.union_assoc, Point.segment_split h]

variable {m n}

theorem waypoints_forward (h : m.bottom < n.top) :
    waypoints m n = [m.exit, ⟨m.x, middle m n⟩, ⟨n.x, middle m n⟩, n.entry] := by
  rw [waypoints, course_of_below h, forward_rat]
  rfl

theorem waypoints_around (h : ¬ m.bottom < n.top) :
    waypoints m n = [m.exit, ⟨m.x, m.bottom + 20⟩, ⟨channel m n, m.bottom + 20⟩, ⟨channel m n, n.top - 20⟩,
      ⟨n.x, n.top - 20⟩, n.entry] := by
  rw [waypoints, course_of_not_below h, around_rat]
  rfl

/-- The path covers the whole way: of the stops it leaves out those on a straight line down. -/
theorem line_path (m n : PlacedNode Rat) : line (path m n) = line (waypoints m n) := by
  obtain ⟨h, hx, hpath⟩ | ⟨h, -, hpath⟩ | ⟨h, hpath⟩ := path_cases m n
  · have hmiddle : (⟨n.x, middle m n⟩ : Point Rat) ∈ m.exit.segment n.entry := by
      refine ⟨1 / 2, by norm_num, (Point.eq_mk ?_ ?_).symm⟩
      · change m.x + 1 / 2 * (n.x - m.x) = n.x
        rw [hx, sub_self, mul_zero, add_zero]
      · change m.bottom + 1 / 2 * (n.top - m.bottom) = middle m n
        rw [middle]
        ring
    rw [waypoints_forward h, hpath, hx, line_straight (Point.right_mem_segment ..), line_straight hmiddle]
  · rw [waypoints_forward h, hpath]
  · rw [waypoints_around h, hpath]

inductive Axis where
  | vertical
  | horizontal

def Axis.turn : Axis → Axis
  | vertical => horizontal
  | horizontal => vertical

/-- Two points that differ along this axis and not along the other. -/
def Axis.Parts : Axis → Point Rat → Point Rat → Prop
  | vertical, p, q => p.x = q.x ∧ p.y ≠ q.y
  | horizontal, p, q => p.x ≠ q.x ∧ p.y = q.y

/-- Each point differs from the next along one axis only. The axes take turns, and this one is the first. -/
def Alternates : Axis → List (Point Rat) → Prop
  | a, p :: q :: ps => a.Parts p q ∧ Alternates a.turn (q :: ps)
  | _, _ => True

theorem path_alternates (m n : PlacedNode Rat) : Alternates .vertical (path m n) := by
  obtain ⟨h, hx, hpath⟩ | ⟨h, hx, hpath⟩ | ⟨h, hpath⟩ := path_cases m n
  · rw [hpath]
    exact ⟨⟨hx, h.ne⟩, trivial⟩
  · obtain ⟨hdown, hup⟩ := middle_between h
    rw [hpath]
    exact ⟨⟨rfl, hdown.ne⟩, ⟨hx, rfl⟩, ⟨rfl, hup.ne⟩, trivial⟩
  · obtain ⟨hm, hn⟩ := channel_right (m := m) (n := n)
    have hfirst : m.bottom ≠ m.bottom + 20 := by linarith
    have hclimb : m.bottom + 20 ≠ n.top - 20 := by linarith
    have hlast : n.top - 20 ≠ n.top := by linarith
    rw [hpath]
    exact ⟨⟨rfl, hfirst⟩, ⟨hm.ne, rfl⟩, ⟨rfl, hclimb⟩, ⟨hn.ne', rfl⟩, ⟨rfl, hlast⟩, trivial⟩

theorem head?_path (m n : PlacedNode Rat) : (path m n).head? = some m.exit := by
  obtain ⟨-, -, hpath⟩ | ⟨-, -, hpath⟩ | ⟨-, hpath⟩ := path_cases m n <;> rw [hpath] <;> rfl

theorem path_leaves_down (m n : PlacedNode Rat) :
    ∃ q, [m.exit, q] <+: path m n ∧ q.x = m.x ∧ m.bottom < q.y := by
  obtain ⟨h, hx, hpath⟩ | ⟨h, -, hpath⟩ | ⟨-, hpath⟩ := path_cases m n
  · rw [hpath]
    exact ⟨n.entry, List.prefix_rfl, hx.symm, h⟩
  · rw [hpath]
    exact ⟨⟨m.x, middle m n⟩, ⟨_, rfl⟩, rfl, (middle_between h).1⟩
  · have hdown : m.bottom < m.bottom + 20 := by linarith
    rw [hpath]
    exact ⟨⟨m.x, m.bottom + 20⟩, ⟨_, rfl⟩, rfl, hdown⟩

theorem path_enters_down (m n : PlacedNode Rat) :
    ∃ p, [p, n.entry] <:+ path m n ∧ p.x = n.x ∧ p.y < n.top := by
  obtain ⟨h, hx, hpath⟩ | ⟨h, -, hpath⟩ | ⟨-, hpath⟩ := path_cases m n
  · rw [hpath]
    exact ⟨m.exit, List.suffix_rfl, hx, h⟩
  · rw [hpath]
    exact ⟨⟨n.x, middle m n⟩, ⟨[_, _], rfl⟩, rfl, (middle_between h).2⟩
  · have hup : n.top - 20 < n.top := by linarith
    rw [hpath]
    exact ⟨⟨n.x, n.top - 20⟩, ⟨[_, _, _, _], rfl⟩, rfl, hup⟩

theorem length_path (m n : PlacedNode Rat) :
    (path m n).length = if m.bottom < n.top then if m.x = n.x then 2 else 4 else 6 := by
  obtain ⟨h, hx, hpath⟩ | ⟨h, hx, hpath⟩ | ⟨h, hpath⟩ := path_cases m n
  · rw [hpath, if_pos h, if_pos hx]
    rfl
  · rw [hpath, if_pos h, if_neg hx]
    rfl
  · rw [hpath, if_neg h]
    rfl

/-- A route leads from the middle of the lower side of its source to the middle of the upper side of its
target. Its legs are vertical and horizontal by turns, the first and the last of them down. It is the whole
way of the edge without repeated points and points inside straight runs, and covers all of it. A forward
edge has one leg in one column and three otherwise; every other edge has five. -/
theorem between_alternates (leftMargin : Rat) (e : Edge) (m n : PlacedNode Rat) :
    let ps := (between leftMargin e m n).path
    (ps.head? = some ⟨m.x, m.bottom⟩ ∧ ps.getLast? = some ⟨n.x, n.top⟩) ∧
      Alternates .vertical ps ∧
      (∃ q, [⟨m.x, m.bottom⟩, q] <+: ps ∧ q.x = m.x ∧ m.bottom < q.y) ∧
      (∃ p, [p, ⟨n.x, n.top⟩] <:+ ps ∧ p.x = n.x ∧ p.y < n.top) ∧
      (ps = simplify (waypoints m n) ∧ line ps = line (waypoints m n)) ∧
      ps.length = if m.bottom < n.top then if m.x = n.x then 2 else 4 else 6 := by
  intro ps
  exact ⟨⟨head?_path m n, getLast?_path m n⟩, path_alternates m n, path_leaves_down m n, path_enters_down m n,
    ⟨(simplify_waypoints m n).symm, line_path m n⟩, length_path m n⟩

end Route

end FlowDiagram
