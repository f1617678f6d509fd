import FlowDiagram.Proofs.Layout.Extent

namespace FlowDiagram

/-- The points inside a space and on its border. -/
def Extent.box (b : Extent) : Set (Point Rat) :=
  {p | (b.left ≤ p.x ∧ p.x ≤ b.right) ∧ b.top ≤ p.y ∧ p.y ≤ b.bottom}

/-- The points of the straight line from one point to another. -/
def Point.segment (p q : Point Rat) : Set (Point Rat) :=
  {r | ∃ t, (0 ≤ t ∧ t ≤ 1) ∧ r = ⟨p.x + t * (q.x - p.x), p.y + t * (q.y - p.y)⟩}

theorem between_mix {a b p q t : Rat} (hp : a ≤ p ∧ p ≤ b) (hq : a ≤ q ∧ q ≤ b) (ht : 0 ≤ t ∧ t ≤ 1) :
    a ≤ p + t * (q - p) ∧ p + t * (q - p) ≤ b := by
  have hlow := mul_nonneg ht.1 (sub_nonneg.mpr hq.1)
  have hlow' := mul_nonneg (sub_nonneg.mpr ht.2) (sub_nonneg.mpr hp.1)
  have hhigh := mul_nonneg ht.1 (sub_nonneg.mpr hq.2)
  have hhigh' := mul_nonneg (sub_nonneg.mpr ht.2) (sub_nonneg.mpr hp.2)
  constructor <;> linarith

namespace Point

theorem eq_mk {p : Point Rat} {x y : Rat} (hx : p.x = x) (hy : p.y = y) : p = ⟨x, y⟩ := by
  rw [← hx, ← hy]

theorem left_mem_segment (p q : Point Rat) : p ∈ p.segment q := by
  refine ⟨0, by norm_num, ?_⟩
  rw [zero_mul, zero_mul, add_zero, add_zero]

theorem segment_subset_box {b : Extent} {p q : Point Rat} (hp : p ∈ b.box) (hq : q ∈ b.box) :
    p.segment q ⊆ b.box := by
  intro r hr
  obtain ⟨t, ht, rfl⟩ := hr
  exact ⟨between_mix hp.1 hq.1 ht, between_mix hp.2 hq.2 ht⟩

variable {a b : Rat}

theorem segment_subset_column (x : Rat) {y₁ y₂ : Rat} (h₁ : a ≤ y₁ ∧ y₁ ≤ b) (h₂ : a ≤ y₂ ∧ y₂ ≤ b) :
    Point.segment ⟨x, y₁⟩ ⟨x, y₂⟩ ⊆ Extent.box ⟨x, a, x, b⟩ :=
  segment_subset_box ⟨⟨le_rfl, le_rfl⟩, h₁⟩ ⟨⟨le_rfl, le_rfl⟩, h₂⟩

theorem segment_subset_row (y : Rat) {x₁ x₂ : Rat} (h₁ : a ≤ x₁ ∧ x₁ ≤ b) (h₂ : a ≤ x₂ ∧ x₂ ≤ b) :
    Point.segment ⟨x₁, y⟩ ⟨x₂, y⟩ ⊆ Extent.box ⟨a, y, b, y⟩ :=
  segment_subset_box ⟨h₁, le_rfl, le_rfl⟩ ⟨h₂, le_rfl, le_rfl⟩

end Point

namespace Route

/-- The points that a path with these corners runs through. -/
def line : List (Point Rat) → Set (Point Rat)
  | [] => ∅
  | [p] => {p}
  | p :: q :: ps => p.segment q ∪ line (q :: ps)

theorem mem_line {p : Point Rat} {ps : List (Point Rat)} (h : p ∈ ps) : p ∈ line ps := by
  induction ps with
  | nil => cases h
  | cons q ps ih =>
    cases ps with
    | nil => exact List.mem_singleton.mp h
    | cons r ps =>
      obtain rfl | h := List.mem_cons.mp h
      · exact .inl (p.left_mem_segment r)
      · exact .inr (ih h)

variable {m n : PlacedNode Rat}

def middle (m n : PlacedNode Rat) : Rat := (m.bottom + n.top) / 2

theorem middle_between (h : m.bottom < n.top) : m.bottom < middle m n ∧ middle m n < n.top := by
  rw [middle]
  constructor <;> linarith

theorem path_forward (h : m.bottom < n.top) :
    path m n = if m.x = n.x then [m.exit, n.entry]
      else [m.exit, ⟨m.x, middle m n⟩, ⟨n.x, middle m n⟩, n.entry] := by
  obtain ⟨hdown, hup⟩ := middle_between h
  have hlegs : (course m n).legs = [.toY (middle m n), .toX n.x, .toY n.top] := by
    rw [course_of_below h, forward_rat]
    rfl
  rw [path, hlegs]
  by_cases hx : m.x = n.x
  · simp [corners, straighten, straightenFrom, aligned, PlacedNode.exit, PlacedNode.entry, hx,
      hdown.ne, hup.ne]
  · simp [corners, straighten, straightenFrom, aligned, PlacedNode.exit, PlacedNode.entry, hx,
      hdown.ne, hup.ne]

def channel (m n : PlacedNode Rat) : Rat := max m.right n.right + 20

theorem channel_right : m.x < channel m n ∧ n.x < channel m n := by
  have hm := m.x_le_right.trans (le_max_left m.right n.right)
  have hn := n.x_le_right.trans (le_max_right m.right n.right)
  rw [channel]
  constructor <;> linarith

theorem path_around (h : ¬ m.bottom < n.top) :
    path m n = [m.exit, ⟨m.x, m.bottom + 20⟩, ⟨channel m n, m.bottom + 20⟩, ⟨channel m n, n.top - 20⟩,
      ⟨n.x, n.top - 20⟩, n.entry] := by
  obtain ⟨hm, hn⟩ := channel_right (m := m) (n := n)
  have hlegs : (course m n).legs =
      [.toY (m.bottom + 20), .toX (channel m n), .toY (n.top - 20), .toX n.x, .toY n.top] := by
    rw [course_of_not_below h, around_rat]
    rfl
  have hclimb : m.bottom + 20 ≠ n.top - 20 := by linarith
  have hlast : n.top - 20 ≠ n.top := by linarith
  rw [path, hlegs]
  simp [corners, straighten, straightenFrom, aligned, PlacedNode.exit, PlacedNode.entry, hm.ne, hn.ne',
    hclimb, hlast]

theorem path_cases (m n : PlacedNode Rat) :
    (m.bottom < n.top ∧ m.x = n.x ∧ path m n = [m.exit, n.entry]) ∨
      (m.bottom < n.top ∧ m.x ≠ n.x ∧
        path m n = [m.exit, ⟨m.x, middle m n⟩, ⟨n.x, middle m n⟩, n.entry]) ∨
      (¬ m.bottom < n.top ∧ path m n = [m.exit, ⟨m.x, m.bottom + 20⟩, ⟨channel m n, m.bottom + 20⟩,
        ⟨channel m n, n.top - 20⟩, ⟨n.x, n.top - 20⟩, n.entry]) := by
  by_cases h : m.bottom < n.top
  · by_cases hx : m.x = n.x
    · exact .inl ⟨h, hx, (path_forward h).trans (if_pos hx)⟩
    · exact .inr (.inl ⟨h, hx, (path_forward h).trans (if_neg hx)⟩)
  · exact .inr (.inr ⟨h, path_around h⟩)

theorem getLast?_path (m n : PlacedNode Rat) : (path m n).getLast? = some n.entry := by
  obtain ⟨-, -, hpath⟩ | ⟨-, -, hpath⟩ | ⟨-, hpath⟩ := path_cases m n <;> rw [hpath] <;> rfl

theorem exit_mem_line (h : m.bottom < n.top) : m.exit ∈ line (path m n) := by
  apply mem_line
  rw [path_forward h]
  split <;> exact List.mem_cons_self ..

theorem entry_mem_line (h : m.bottom < n.top) : n.entry ∈ line (path m n) := by
  apply mem_line
  rw [path_forward h]
  split <;> simp

/-- A forward path drops below its source, runs along the middle line, and drops onto its target. -/
theorem line_forward (h : m.bottom < n.top) {p : Point Rat} (hp : p ∈ line (path m n)) :
    p ∈ Extent.box ⟨m.x, m.bottom, m.x, middle m n⟩ ∨
      p ∈ Extent.box ⟨min m.x n.x, middle m n, max m.x n.x, middle m n⟩ ∨
      p ∈ Extent.box ⟨n.x, middle m n, n.x, n.top⟩ := by
  obtain ⟨hdown, hup⟩ := middle_between h
  rw [path_forward h] at hp
  split at hp
  · rename_i hx
    have hbox : p ∈ Extent.box ⟨m.x, m.bottom, m.x, n.top⟩ := by
      rw [PlacedNode.entry, ← hx] at hp
      obtain hp | rfl := hp
      · exact Point.segment_subset_column m.x ⟨le_rfl, h.le⟩ ⟨h.le, le_rfl⟩ hp
      · exact ⟨⟨le_rfl, le_rfl⟩, h.le, le_rfl⟩
    obtain ⟨hcolumn, htop, hbottom⟩ := hbox
    obtain hle | hle := le_total p.y (middle m n)
    · exact .inl ⟨hcolumn, htop, hle⟩
    · rw [hx] at hcolumn
      exact .inr (.inr ⟨hcolumn, hle, hbottom⟩)
  · obtain hp | hp | hp | rfl := hp
    · exact .inl (Point.segment_subset_column m.x ⟨le_rfl, hdown.le⟩ ⟨hdown.le, le_rfl⟩ hp)
    · exact .inr (.inl (Point.segment_subset_row (middle m n) ⟨min_le_left .., le_max_left ..⟩
        ⟨min_le_right .., le_max_right ..⟩ hp))
    · exact .inr (.inr (Point.segment_subset_column n.x ⟨le_rfl, hup.le⟩ ⟨hup.le, le_rfl⟩ hp))
    · exact .inr (.inr ⟨⟨le_rfl, le_rfl⟩, hup.le, le_rfl⟩)

/-- A path that goes around drops below its source, goes out to the channel, up along it, back above its
target, and drops onto it. -/
theorem line_around (h : ¬ m.bottom < n.top) {p : Point Rat} (hp : p ∈ line (path m n)) :
    p ∈ Extent.box ⟨m.x, m.bottom, m.x, m.bottom + 20⟩ ∨
      p ∈ Extent.box ⟨m.x, m.bottom + 20, channel m n, m.bottom + 20⟩ ∨
      p ∈ Extent.box ⟨channel m n, n.top - 20, channel m n, m.bottom + 20⟩ ∨
      p ∈ Extent.box ⟨n.x, n.top - 20, channel m n, n.top - 20⟩ ∨
      p ∈ Extent.box ⟨n.x, n.top - 20, n.x, n.top⟩ := by
  obtain ⟨hm, hn⟩ := channel_right (m := m) (n := n)
  have hdrop : m.bottom ≤ m.bottom + 20 := by linarith
  have hclimb : n.top - 20 ≤ m.bottom + 20 := by linarith
  have hlast : n.top - 20 ≤ n.top := by linarith
  rw [path_around h] at hp
  obtain hp | hp | hp | hp | hp | rfl := hp
  · exact .inl (Point.segment_subset_column m.x ⟨le_rfl, hdrop⟩ ⟨hdrop, le_rfl⟩ hp)
  · exact .inr (.inl (Point.segment_subset_row (m.bottom + 20) ⟨le_rfl, hm.le⟩ ⟨hm.le, le_rfl⟩ hp))
  · exact .inr (.inr (.inl
      (Point.segment_subset_column (channel m n) ⟨hclimb, le_rfl⟩ ⟨le_rfl, hclimb⟩ hp)))
  · exact .inr (.inr (.inr (.inl
      (Point.segment_subset_row (n.top - 20) ⟨hn.le, le_rfl⟩ ⟨le_rfl, hn.le⟩ hp))))
  · exact .inr (.inr (.inr (.inr (Point.segment_subset_column n.x ⟨le_rfl, hlast⟩ ⟨hlast, le_rfl⟩ hp))))
  · exact .inr (.inr (.inr (.inr ⟨⟨le_rfl, le_rfl⟩, hlast, le_rfl⟩)))

section Avoids

variable {b : Extent}

theorem line_avoids_above (h : m.bottom < n.top) (hb : b.bottom ≤ m.bottom) :
    line (path m n) ∩ b.interior = ∅ := by
  obtain ⟨hdown, -⟩ := middle_between h
  apply Set.eq_empty_iff_forall_notMem.mpr
  intro p hp
  obtain ⟨hline, -, -, hbottom⟩ := hp
  obtain hfirst | hrun | hlast := line_forward h hline
  · exact absurd (hb.trans hfirst.2.1) (not_le.mpr hbottom)
  · exact absurd (hb.trans (hdown.le.trans hrun.2.1)) (not_le.mpr hbottom)
  · exact absurd (hb.trans (hdown.le.trans hlast.2.1)) (not_le.mpr hbottom)

theorem line_avoids_below (h : m.bottom < n.top) (hb : n.top ≤ b.top) :
    line (path m n) ∩ b.interior = ∅ := by
  obtain ⟨-, hup⟩ := middle_between h
  apply Set.eq_empty_iff_forall_notMem.mpr
  intro p hp
  obtain ⟨hline, -, htop, -⟩ := hp
  obtain hfirst | hrun | hlast := line_forward h hline
  · exact absurd ((hfirst.2.2.trans hup.le).trans hb) (not_le.mpr htop)
  · exact absurd ((hrun.2.2.trans hup.le).trans hb) (not_le.mpr htop)
  · exact absurd (hlast.2.2.trans hb) (not_le.mpr htop)

theorem line_avoids_source (h : m.bottom < n.top) (hb : b.bottom ≤ middle m n)
    (hbeside : ¬ (b.left < m.x ∧ m.x < b.right)) : line (path m n) ∩ b.interior = ∅ := by
  apply Set.eq_empty_iff_forall_notMem.mpr
  intro p hp
  obtain ⟨hline, hcolumn, -, hbottom⟩ := hp
  obtain hfirst | hrun | hlast := line_forward h hline
  · have hx : p.x = m.x := le_antisymm hfirst.1.2 hfirst.1.1
    exact hbeside (hx ▸ hcolumn)
  · exact absurd (hb.trans hrun.2.1) (not_le.mpr hbottom)
  · exact absurd (hb.trans hlast.2.1) (not_le.mpr hbottom)

theorem line_avoids_target (h : m.bottom < n.top) (hb : middle m n ≤ b.top)
    (hbeside : ¬ (b.left < n.x ∧ n.x < b.right)) : line (path m n) ∩ b.interior = ∅ := by
  apply Set.eq_empty_iff_forall_notMem.mpr
  intro p hp
  obtain ⟨hline, hcolumn, htop, -⟩ := hp
  obtain hfirst | hrun | hlast := line_forward h hline
  · exact absurd (hfirst.2.2.trans hb) (not_le.mpr htop)
  · exact absurd (hrun.2.2.trans hb) (not_le.mpr htop)
  · have hx : p.x = n.x := le_antisymm hlast.1.2 hlast.1.1
    exact hbeside (hx ▸ hcolumn)

end Avoids

end Route

namespace PlacedNode

variable (n : PlacedNode Rat)

theorem exit_mem_box : n.exit ∈ n.extent.box :=
  ⟨⟨n.left_le_x, n.x_le_right⟩, n.top_le_bottom, le_rfl⟩

theorem entry_mem_box : n.entry ∈ n.extent.box :=
  ⟨⟨n.left_le_x, n.x_le_right⟩, le_rfl, n.top_le_bottom⟩

end PlacedNode

namespace Route

variable {m n : PlacedNode Rat}

theorem line_inter_source (h : m.bottom < n.top) : line (path m n) ∩ m.extent.box = {m.exit} := by
  obtain ⟨hdown, -⟩ := middle_between h
  apply Set.eq_singleton_iff_unique_mem.mpr
  refine ⟨⟨exit_mem_line h, m.exit_mem_box⟩, ?_⟩
  intro p hp
  obtain ⟨hline, -, -, hbottom⟩ := hp
  have hy : p.y ≤ m.bottom := hbottom
  obtain hfirst | hrun | hlast := line_forward h hline
  · have hx : p.x = m.x := le_antisymm hfirst.1.2 hfirst.1.1
    have hy' : p.y = m.bottom := le_antisymm hy hfirst.2.1
    exact Point.eq_mk hx hy'
  · have hle : middle m n ≤ p.y := hrun.2.1
    linarith
  · have hle : middle m n ≤ p.y := hlast.2.1
    linarith

theorem line_inter_target (h : m.bottom < n.top) : line (path m n) ∩ n.extent.box = {n.entry} := by
  obtain ⟨-, hup⟩ := middle_between h
  apply Set.eq_singleton_iff_unique_mem.mpr
  refine ⟨⟨entry_mem_line h, n.entry_mem_box⟩, ?_⟩
  intro p hp
  obtain ⟨hline, -, htop, -⟩ := hp
  have hy : n.top ≤ p.y := htop
  obtain hfirst | hrun | hlast := line_forward h hline
  · have hle : p.y ≤ middle m n := hfirst.2.2
    linarith
  · have hle : p.y ≤ middle m n := hrun.2.2
    linarith
  · have hx : p.x = n.x := le_antisymm hlast.1.2 hlast.1.1
    have hy' : p.y = n.top := le_antisymm hlast.2.2 hy
    exact Point.eq_mk hx hy'

theorem adjacent_cons {β : Type} {p q a b : β} {ps : List β} :
    [p, q] <:+: a :: b :: ps ↔ (p = a ∧ q = b) ∨ [p, q] <:+: b :: ps := by
  rw [List.infix_cons_iff, List.cons_prefix_cons, List.cons_prefix_cons]
  simp

theorem not_adjacent_singleton {β : Type} {p q a : β} : ¬ [p, q] <:+: [a] := fun h => by simpa using h.length_le

theorem run_forward (h : m.bottom < n.top) (p q : Point Rat) :
    [p, q] <:+: path m n ∧ p.y = q.y ↔
      m.x ≠ n.x ∧ p = ⟨m.x, middle m n⟩ ∧ q = ⟨n.x, middle m n⟩ := by
  obtain ⟨hdown, hup⟩ := middle_between h
  rw [path_forward h]
  constructor
  · intro hrun
    obtain ⟨hpq, hy⟩ := hrun
    split at hpq
    · obtain hpq | hpq := adjacent_cons.mp hpq
      · obtain ⟨rfl, rfl⟩ := hpq
        exact absurd hy h.ne
      · exact absurd hpq not_adjacent_singleton
    · rename_i hx
      obtain hpq | hpq := adjacent_cons.mp hpq
      · obtain ⟨rfl, rfl⟩ := hpq
        exact absurd hy hdown.ne
      obtain hpq | hpq := adjacent_cons.mp hpq
      · exact ⟨hx, hpq⟩
      obtain hpq | hpq := adjacent_cons.mp hpq
      · obtain ⟨rfl, rfl⟩ := hpq
        exact absurd hy hup.ne
      · exact absurd hpq not_adjacent_singleton
  · intro hrun
    obtain ⟨hx, rfl, rfl⟩ := hrun
    rw [if_neg hx]
    exact ⟨adjacent_cons.mpr (.inr (adjacent_cons.mpr (.inl ⟨rfl, rfl⟩))), rfl⟩

end Route

end FlowDiagram
