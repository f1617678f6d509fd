import FlowDiagram.Proofs.Layout.Diagram
import FlowDiagram.Proofs.Layout.Line

namespace FlowDiagram

/-- The space with as much again on all four sides. -/
def Extent.widen (gap : Rat) (b : Extent) : Extent := ⟨b.left - gap, b.top - gap, b.right + gap, b.bottom + gap⟩

namespace Route

variable {m n : PlacedNode Rat}

/-- Above its run a path is no more than the line that leads to the run. -/
theorem x_of_above_run {p : Point Rat} (hp : p ∈ line (path m n)) (habove : p.y < (course m n).runStart.y) :
    p.x = (course m n).runStart.x := by
  by_cases h : m.bottom < n.top
  · have hrun : (course m n).runStart = ⟨m.x, middle m n⟩ := by
      rw [course_of_below h, forward_rat]
      rfl
    rw [hrun] at habove ⊢
    obtain hfirst | hbelow | hlast := line_forward h hp
    · exact le_antisymm hfirst.1.2 hfirst.1.1
    · exact absurd hbelow.2.1 (not_le.mpr habove)
    · exact absurd hlast.2.1 (not_le.mpr habove)
  · have hrun : (course m n).runStart = ⟨channel m n, n.top - 20⟩ := by
      rw [course_of_not_below h, around_rat]
      rfl
    have hlow : n.top - 20 ≤ p.y := by
      obtain hfirst | hout | hclimb | hback | hlast := line_around h hp
      · have hy : m.bottom ≤ p.y := hfirst.2.1
        linarith
      · have hy : m.bottom + 20 ≤ p.y := hout.2.1
        linarith
      · exact hclimb.2.1
      · exact hback.2.1
      · exact hlast.2.1
    rw [hrun] at habove
    exact absurd hlow (not_le.mpr habove)

theorem labelMiddle_beside (label : String) (c : Course Rat) :
    c.runStart.x ≤ labelMiddle label c - (labelWidth label : Rat) / 2 - 8 ∨
      labelMiddle label c + (labelWidth label : Rat) / 2 + 8 ≤ c.runStart.x := by
  rw [labelMiddle]
  split
  · rename_i hroom
    obtain hright | hleft := le_abs.mp hroom
    · left
      linarith
    · right
      linarith
  · left
    linarith

theorem widen_label (label : String) (c : Course Rat) :
    (labelExtent label ⟨labelMiddle label c, c.runStart.y - 8 - (labelHeight label : Rat) / 2⟩).widen labelGap =
      ⟨labelMiddle label c - (labelWidth label : Rat) / 2 - 8, c.runStart.y - (labelHeight label : Rat) - 16,
        labelMiddle label c + (labelWidth label : Rat) / 2 + 8, c.runStart.y⟩ := by
  have htop : c.runStart.y - 8 - (labelHeight label : Rat) / 2 - (labelHeight label : Rat) / 2 - 8 =
      c.runStart.y - (labelHeight label : Rat) - 16 := by ring
  have hbottom : c.runStart.y - 8 - (labelHeight label : Rat) / 2 + (labelHeight label : Rat) / 2 + 8 =
      c.runStart.y := by ring
  exact (Extent.mk.injEq ..).mpr ⟨rfl, htop, rfl, hbottom⟩

/-- No point of a path is nearer to its label than the gap, if no box crosses the left margin. -/
theorem line_avoids_label {leftMargin : Rat} (hm : leftMargin ≤ m.left) (hn : leftMargin ≤ n.left) (label : String) :
    line (path m n) ∩
      ((labelExtent label (anchor leftMargin label (course m n))).widen labelGap).interior = ∅ := by
  obtain ⟨hstart, hend⟩ := run_left hm hn
  rw [anchor_of_left hstart hend, widen_label]
  apply Set.eq_empty_iff_forall_notMem.mpr
  intro p hp
  obtain ⟨hline, ⟨hleft, hright⟩, -, hbottom⟩ := hp
  have hx := x_of_above_run hline hbottom
  obtain hbeside | hbeside := labelMiddle_beside label (course m n)
  · exact absurd (hx.trans_le hbeside) (not_le.mpr hleft)
  · exact absurd (hbeside.trans_eq hx.symm) (not_le.mpr hright)

theorem label_left {leftMargin : Rat} (hm : leftMargin ≤ m.left) (hn : leftMargin ≤ n.left) (label : String) :
    leftMargin + labelGap ≤ (labelExtent label (anchor leftMargin label (course m n))).left := by
  obtain ⟨hstart, hend⟩ := run_left hm hn
  have hmiddle := labelMiddle_left hstart hend label
  rw [anchor_of_left hstart hend]
  change leftMargin + 8 ≤ labelMiddle label (course m n) - (labelWidth label : Rat) / 2
  linarith

/-- Where no box crosses the left margin, a label stands over the middle of its run or right of the line that
leads to it, and the margin does not move it. It keeps its gap to the margin and, on all sides, to its path. -/
theorem between_label_clear {leftMargin : Rat} (hm : leftMargin ≤ m.left) (hn : leftMargin ≤ n.left) (e : Edge)
    (hlabel : e.label ≠ "") :
    ∃ p, (between leftMargin e m n).anchor = some p ∧ p.x = labelMiddle e.label (course m n) ∧
      leftMargin + labelGap ≤ (labelExtent e.label p).left ∧
      line (between leftMargin e m n).path ∩ ((labelExtent e.label p).widen labelGap).interior = ∅ := by
  obtain ⟨hstart, hend⟩ := run_left hm hn
  refine ⟨_, if_neg hlabel, ?_, label_left hm hn e.label, line_avoids_label hm hn e.label⟩
  rw [anchor_of_left hstart hend]

/-- A path back to a node at the margin, with a run that is just long enough for the label. -/
theorem between_label_clear_back :
    let m : PlacedNode Rat := ⟨⟨"t", .task, "T", none⟩, 102, 220, 1⟩
    let n : PlacedNode Rat := ⟨⟨"s", .startEvent, "S", none⟩, 50, 100, 0⟩
    let e : Edge := ⟨"t", "s", "check it again"⟩
    20 ≤ m.left ∧ 20 ≤ n.left ∧ e.label ≠ "" ∧
      ∃ p, (between 20 e m n).anchor = some p ∧ p.x = labelMiddle e.label (course m n) ∧
        20 + (labelGap : Rat) ≤ (labelExtent e.label p).left ∧
        line (between 20 e m n).path ∩ ((labelExtent e.label p).widen labelGap).interior = ∅ := by
  intro m n e
  have hm : 20 ≤ m.left := by
    change (20 : Rat) ≤ 102 - (100 : Nat) / (2 : Nat)
    norm_num
  have hn : 20 ≤ n.left := by
    change (20 : Rat) ≤ 50 - (60 : Nat) / (2 : Nat)
    norm_num
  have hlabel : e.label ≠ "" := by decide
  exact ⟨hm, hn, hlabel, between_label_clear hm hn e hlabel⟩

end Route

/-- In every diagram all labels keep clear of the left margin and of the paths that they belong to. -/
theorem Settings.run_labels_clear {c : Config Rat} {s : Settings Rat} (h : ofConfig c = .ok s) (text : String) :
    ∃ r, (s.run text).result = .ok r ∧ ∀ d, r.picture.diagram? = some d → ∀ e ∈ d.edges, ∀ p, e.anchor = some p →
      c.leftMargin.exact + Route.labelGap ≤ (Route.labelExtent e.label p).left ∧
      Route.line e.path ∩ ((Route.labelExtent e.label p).widen Route.labelGap).interior = ∅ := by
  obtain ⟨r, hr, -, hsome⟩ := run_result h text
  refine ⟨r, hr, ?_⟩
  intro d hd e he p hp
  obtain ⟨shift, hdrawn⟩ := hsome d hd
  rw [hdrawn.edges] at he
  obtain hrouted | ⟨-, hnone⟩ := Route.between_or_bare hdrawn.nodup_ids he
  · obtain ⟨m, hm, n, hn, -, -, heq⟩ := hrouted
    have hleftm := hdrawn.arranged.left m hm
    have hleftn := hdrawn.arranged.left n hn
    have hfollows := Route.follows_between c.leftMargin.exact e.toEdge m n
    rw [← heq] at hfollows
    have hlabel : e.label ≠ "" := by
      intro hempty
      rw [hfollows.anchor, if_pos hempty] at hp
      cases hp
    rw [hfollows.anchor, if_neg hlabel] at hp
    obtain rfl := Option.some.inj hp
    rw [hfollows.path]
    exact ⟨Route.label_left hleftm hleftn e.label, Route.line_avoids_label hleftm hleftn e.label⟩
  · rw [hnone] at hp
    cases hp

end FlowDiagram
