import FlowDiagram.Proofs.Layout.Extent
import FlowDiagram.Proofs.Layout.Planning
import FlowDiagram.Proofs.Layout.Positions
import Mathlib.Data.List.Pairwise

namespace FlowDiagram

namespace Settings

variable {s : Settings Rat} {doc : Document} {p : Plan Rat}

namespace Planned

theorem rows (h : s.Planned doc p) (hs : 0 ≤ s.spacing.minSpacing) (hne : doc.nodes ≠ [])
    (hn : (doc.nodes.map (·.id)).Nodup) : s.spacing.InRows p.levels.layers p.positions ∧
      ∀ n ∈ p.nodes, s.spacing.leftMargin ≤ n.left := by
  obtain ⟨reached, hsound⟩ := h.sound hne hn
  obtain ⟨t, ht, hrows, hleft⟩ := Spacing.positions_spec (s := s.spacing) hs p.graph.parents
    hsound.layered.nodup (Document.kinds_layers hn (hsound.perm hn))
  rw [h.positions] at ht
  obtain rfl := Except.ok.inj ht
  refine ⟨hrows, ?_⟩
  intro n hm
  exact hleft n.id ⟨n.x, n.y⟩ n.kind (h.place n hm) (Document.kinds_node hn (h.toNode_mem hm))

theorem height (h : s.Planned doc p) (hl : p.levels.Layered)
    (hrows : s.spacing.InRows p.levels.layers p.positions) {n : PlacedNode Rat} (hn : n ∈ p.nodes) :
    n.y = s.spacing.baseY + n.level * s.spacing.levelSpacing := by
  obtain ⟨k, hk, hlev⟩ := h.level n hn
  obtain ⟨layer, hlayer, hid⟩ := (hl.get?_eq_some_iff n.id k).mp hk
  obtain ⟨q, hq, hy⟩ := hrows.height k layer hlayer n.id hid
  rw [h.place n hn] at hq
  obtain rfl := Option.some.inj hq
  rw [hlev]
  exact_mod_cast hy

theorem apart (h : s.Planned doc p) (hl : p.levels.Layered)
    (hrows : s.spacing.InRows p.levels.layers p.positions) {m n : PlacedNode Rat}
    (hm : m ∈ p.nodes) (hn : n ∈ p.nodes) (hne : m.id ≠ n.id) (hlev : m.level = n.level) :
    s.spacing.minSpacing ≤ |m.x - n.x| := by
  obtain ⟨i, hi, hlevm⟩ := h.level m hm
  obtain ⟨j, hj, hlevn⟩ := h.level n hn
  obtain rfl : i = j := by omega
  obtain ⟨layer, hlayer, hidm⟩ := (hl.get?_eq_some_iff m.id i).mp hi
  obtain ⟨layer', hlayer', hidn⟩ := (hl.get?_eq_some_iff n.id i).mp hj
  obtain rfl := Option.some.inj (hlayer.symm.trans hlayer')
  have hapart := (hrows.apart layer (List.mem_of_getElem? hlayer)).forall hidm hidn hne
  exact hapart m.x n.x (congrArg (Option.map Point.x) (h.place m hm))
    (congrArg (Option.map Point.x) (h.place n hn))

theorem rise (h : s.Planned doc p) {reached : Ranking}
    (hsound : Levels.Sound p.graph (doc.nodes.map (·.id)) reached p.levels) {e : Edge}
    (he : e ∈ doc.edges) {m n : PlacedNode Rat} (hm : m ∈ p.nodes) (hn : n ∈ p.nodes)
    (hsource : m.id = e.source) (htarget : n.id = e.target) : n.level ≤ m.level + 1 := by
  obtain ⟨i, hi, hlevm⟩ := h.level m hm
  obtain ⟨j, hj, hlevn⟩ := h.level n hn
  have hjoin : p.graph.Joins m.id n.id := by
    rw [h.graph, Graph.joins_build]
    exact ⟨h.id_mem hm, h.id_mem hn, e, he, hsource.symm, htarget.symm⟩
  have hle := hsound.level_le_succ (h.id_mem hm) (h.id_mem hn) hjoin hi hj
  omega

end Planned

end Settings

/-- The nodes of a document in their places: each level has a height of its own, nodes of one level
keep their distance, no edge leads down by more than one level, and no box crosses the left margin. -/
structure Arranged (s : Spacing Rat) (doc : Document) (nodes : List (PlacedNode Rat)) : Prop where
  declared : nodes.map (·.toNode) = doc.nodes
  height : ∃ y₀, ∀ n ∈ nodes, n.y = y₀ + n.level * s.levelSpacing
  apart : ∀ m ∈ nodes, ∀ n ∈ nodes, m.id ≠ n.id → m.level = n.level → s.minSpacing ≤ |m.x - n.x|
  rise : ∀ e ∈ doc.edges, ∀ m ∈ nodes, ∀ n ∈ nodes, m.id = e.source → n.id = e.target →
    n.level ≤ m.level + 1
  left : ∀ n ∈ nodes, s.leftMargin ≤ n.left

theorem Settings.Planned.arranged {s : Settings Rat} {doc : Document} {p : Plan Rat}
    (h : s.Planned doc p) (hs : 0 ≤ s.spacing.minSpacing) (hne : doc.nodes ≠ [])
    (hn : (doc.nodes.map (·.id)).Nodup) : Arranged s.spacing doc p.nodes := by
  obtain ⟨reached, hsound⟩ := h.sound hne hn
  obtain ⟨hrows, hleft⟩ := h.rows hs hne hn
  refine ⟨h.declared, ⟨s.spacing.baseY, ?_⟩, ?_, ?_, hleft⟩
  · intro n hm
    exact h.height hsound.layered hrows hm
  · intro m hm n hm'
    exact h.apart hsound.layered hrows hm hm'
  · intro e he m hm n hm'
    exact h.rise hsound he hm hm'

namespace Arranged

variable {s : Spacing Rat} {doc : Document} {nodes : List (PlacedNode Rat)} {m n : PlacedNode Rat}

theorem y_sub (h : Arranged s doc nodes) (hm : m ∈ nodes) (hn : n ∈ nodes) :
    m.y - n.y = (m.level - n.level) * s.levelSpacing := by
  obtain ⟨y₀, hy⟩ := h.height
  rw [hy m hm, hy n hn]
  ring

theorem bottom_lt_top (h : Arranged s doc nodes) (hs : 80 < s.levelSpacing) (hm : m ∈ nodes)
    (hn : n ∈ nodes) : m.bottom < n.top ↔ m.level < n.level := by
  have hy := h.y_sub hn hm
  constructor
  · intro hlt
    by_contra hle
    have hlev : (n.level : Rat) - m.level ≤ 0 := by
      have hcast : (n.level : Rat) ≤ m.level := by exact_mod_cast not_lt.mp hle
      linarith
    have hneg : ((n.level : Rat) - m.level) * s.levelSpacing ≤ 0 :=
      mul_nonpos_of_nonpos_of_nonneg hlev (by linarith)
    have hbottom := m.y_le_bottom
    have htop := n.top_le_y
    linarith
  · intro hlt
    have hlev : 1 ≤ (n.level : Rat) - m.level := by
      have hcast : (m.level : Rat) + 1 ≤ n.level := by exact_mod_cast hlt
      linarith
    have hdist : s.levelSpacing ≤ ((n.level : Rat) - m.level) * s.levelSpacing :=
      le_mul_of_one_le_left (by linarith) hlev
    have hbottom := m.bottom_rat
    have htop := n.top_rat
    have hheightm := m.height_le_tallest
    have hheightn := n.height_le_tallest
    linarith

theorem disjoint_interior (h : Arranged s doc nodes) (hmin : 100 ≤ s.minSpacing)
    (hlevel : 80 < s.levelSpacing) (hm : m ∈ nodes) (hn : n ∈ nodes) (hne : m.id ≠ n.id) :
    m.extent.interior ∩ n.extent.interior = ∅ := by
  apply Extent.disjoint_interior
  obtain hlt | heq | hgt := lt_trichotomy m.level n.level
  · have habove := (h.bottom_lt_top hlevel hm hn).mpr hlt
    exact .inr (.inr (.inl habove.le))
  · have hright := m.right_rat
    have hleft := m.left_rat
    have hright' := n.right_rat
    have hleft' := n.left_rat
    have hwidth := m.width_le_widest
    have hwidth' := n.width_le_widest
    obtain hfar | hfar := le_abs.mp (h.apart m hm n hn hne heq)
    · refine .inr (.inl ?_)
      change n.right ≤ m.left
      linarith
    · refine .inl ?_
      change m.right ≤ n.left
      linarith
  · have habove := (h.bottom_lt_top hlevel hn hm).mpr hgt
    exact .inr (.inr (.inr habove.le))

end Arranged

theorem Arranged.move {s : Spacing Rat} {doc : Document} {nodes : List (PlacedNode Rat)}
    (h : Arranged s doc nodes) (dy : Rat) : Arranged s doc (nodes.map (Canvas.moveNode dy)) := by
  obtain ⟨y₀, hy⟩ := h.height
  refine ⟨?_, ⟨y₀ + dy, ?_⟩, ?_, ?_, ?_⟩
  · rw [← h.declared, List.map_map]
    rfl
  · intro n hn
    obtain ⟨a, ha, rfl⟩ := List.mem_map.mp hn
    change a.y + dy = y₀ + dy + a.level * s.levelSpacing
    rw [hy a ha]
    ring
  · intro m hm n hn
    obtain ⟨a, ha, rfl⟩ := List.mem_map.mp hm
    obtain ⟨b, hb, rfl⟩ := List.mem_map.mp hn
    exact h.apart a ha b hb
  · intro e he m hm n hn
    obtain ⟨a, ha, rfl⟩ := List.mem_map.mp hm
    obtain ⟨b, hb, rfl⟩ := List.mem_map.mp hn
    exact h.rise e he a ha b hb
  · intro n hn
    obtain ⟨a, ha, rfl⟩ := List.mem_map.mp hn
    exact h.left a ha

end FlowDiagram
