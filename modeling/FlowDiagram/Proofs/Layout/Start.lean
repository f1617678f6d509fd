import FlowDiagram.Proofs.Float.Infinite
import FlowDiagram.Proofs.Layout.Range

namespace FlowDiagram

namespace Spacing

variable {α : Type} [Scalar α]

/-- The place of a node that is alone in the first row. -/
def start (s : Spacing α) : Point α :=
  ⟨s.baseX + ((0 : Nat) : α) * s.minSpacing - ((0 : Nat) : α) * s.minSpacing / ((2 : Nat) : α),
    s.baseY + ((0 : Nat) : α) * s.levelSpacing⟩

theorem placeLayer_start (s : Spacing α) (parents : Table String (List String)) (id : String) :
    s.placeLayer parents .empty ([id], 0) = .ok ⟨[(id, s.start)]⟩ := by
  have hdesired : desired? parents (.empty : Table String (Point α)) id = none := by
    have hxs : parentXs parents (.empty : Table String (Point α)) id = [] := by
      rw [parentXs, List.filterMap_eq_nil_iff]
      intro _ _
      rfl
    rw [desired?, hxs]
  have hinitial : s.initial parents .empty [id] = ⟨[(id, s.start.x)]⟩ := by
    rw [initial]
    simp only [List.filterMap_cons, List.filter_cons, hdesired]
    rfl
  have hfind : (⟨[(id, s.start.x)]⟩ : Table String α).find id = .ok s.start.x :=
    Table.find_eq_ok (by simp [Table.get?, Table.lookup])
  have hordered : ordered [id] (⟨[(id, s.start.x)]⟩ : Table String α) = .ok [id] := by
    rw [ordered, List.mapM_cons, List.mapM_nil, hfind]
    rfl
  have hpush : s.pushApart [id] (s.initial parents .empty [id]) = .ok ⟨[(id, s.start.x)]⟩ := by
    rw [hinitial]
    rfl
  rw [placeLayer_eq_ok (hinitial ▸ hordered) hpush]
  rfl

theorem foldlM_start (s : Spacing α) (parents : Table String (List String)) {id : String}
    {rest : List (List String)} (hn : ([id] :: rest).flatten.Nodup) :
    ∃ t, ([id] :: rest).zipIdx.foldlM (s.placeLayer parents) .empty = .ok t ∧
      t.keys.Perm ([id] :: rest).flatten ∧ t.get? id = some s.start := by
  induction rest using List.reverseRecOn with
  | nil =>
    refine ⟨⟨[(id, s.start)]⟩, ?_, .refl _, ?_⟩
    · rw [List.zipIdx_cons, List.foldlM_cons, placeLayer_start]
      rfl
    · simp [Table.get?, Table.lookup]
  | append_singleton rest layer ih =>
    rw [← List.cons_append, List.flatten_append, List.flatten_singleton, List.nodup_append'] at hn
    obtain ⟨hbefore, hlayer, hdisjoint⟩ := hn
    obtain ⟨t, ht, hkeys, hget⟩ := ih hbefore
    obtain ⟨order, xs, -, horder, -, hpush, hxs⟩ := s.row_found hlayer parents t
    -- A later row brings in new ids only.
    have hnew : ∀ other ∈ xs.keys, other ∉ t.keys :=
      fun other hmem hold => hdisjoint (hkeys.mem_iff.mp hold) (hxs.mem_iff.mp hmem)
    obtain ⟨hkeys', hget'⟩ := putAll_row (hxs.nodup_iff.mpr hlayer) hnew
      (s.baseY + (([id] :: rest).length : α) * s.levelSpacing)
    refine ⟨_, foldlM_zipIdx_concat ht (placeLayer_eq_ok horder hpush _), ?_, ?_⟩
    · rw [hkeys', ← List.cons_append, List.flatten_append, List.flatten_singleton]
      exact hkeys.append hxs
    · rw [hget', hget]
      rfl

theorem positions_start (s : Spacing α) (parents : Table String (List String)) {kinds : Table String Kind}
    {id : String} {rest : List (List String)} (hn : ([id] :: rest).flatten.Nodup)
    (hk : ∀ other ∈ ([id] :: rest).flatten, ∃ kind, kinds.get? other = some kind) :
    ∃ t dx, s.positions ([id] :: rest) parents kinds = .ok t ∧
      t.get? id = some ⟨s.start.x + dx, s.start.y⟩ := by
  obtain ⟨t, ht, hkeys, hget⟩ := s.foldlM_start parents hn
  obtain ⟨dx, hdx⟩ := s.deficit_ok fun other hmem => hk other (hkeys.mem_iff.mp hmem)
  refine ⟨_, dx, positions_eq_ok ht hdx, ?_⟩
  have hmoved := Table.get?_map (fun _ p => (⟨p.x + dx, p.y⟩ : Point α)) t id
  rw [hget] at hmoved
  exact hmoved

end Spacing

namespace Settings

section Planned

variable {α : Type} [Scalar α] {s : Settings α} {doc : Document} {p : Plan α}

theorem Planned.start (h : s.Planned doc p) (hne : doc.nodes ≠ []) (hn : (doc.nodes.map (·.id)).Nodup) :
    ∃ n ∈ p.nodes, ∃ dx, n.x = s.spacing.start.x + dx ∧ n.y = s.spacing.start.y := by
  obtain ⟨reached, hsound⟩ := h.sound hne hn
  obtain ⟨rest, hfirst⟩ := hsound.first
  have hperm := hsound.perm hn
  have hnodup := hsound.layered.nodup
  have hkinds := Document.kinds_layers hn hperm
  have hpositions := h.positions
  rw [hfirst] at hnodup hkinds hpositions hperm
  obtain ⟨t, dx, ht, hget⟩ := s.spacing.positions_start p.graph.parents hnodup hkinds
  obtain rfl := Except.ok.inj (hpositions.symm.trans ht)
  have hid : p.levels.start ∈ p.nodes.map (·.id) := by
    rw [ids_of_declared h.declared]
    exact hperm.mem_iff.mp (by simp)
  obtain ⟨n, hmem, hstart⟩ := List.mem_map.mp hid
  have hplace := h.place n hmem
  rw [hstart, hget] at hplace
  obtain ⟨hx, hy⟩ := Point.mk.inj (Option.some.inj hplace)
  exact ⟨n, hmem, dx, hx.symm, hy.symm⟩

end Planned

end Settings

open Binary64

/-- The settings that go into every diagram, whatever the text. -/
def Config.essential {α : Type} (c : Config α) : List (Quantity α) :=
  [c.minSpacing, c.levelSpacing, c.baseX, c.baseY, c.canvasMargin]

theorem Quantity.stray_value {q : Quantity Float} (h : q.number? = none) {x : Float} (hx : q.value = .ok x) :
    Stray x := by
  cases q with
  | int n => cases h
  | real y =>
    obtain rfl := Except.ok.inj hx
    exact h

/-- Terms that are zero in exact arithmetic pass a distance on to the place, if it is no finite number. -/
theorem Spacing.stray_start {s : Spacing Float} :
    (Stray s.minSpacing ∨ Stray s.baseX → ∀ dx, Stray (s.start.x + dx)) ∧
      (Stray s.levelSpacing ∨ Stray s.baseY → Stray s.start.y) := by
  constructor
  · rintro (hmin | hbase) dx
    · exact (((hmin.mul_left _).add_left _).sub_right _).add_right dx
    · exact ((hbase.add_right _).sub_right _).add_right dx
  · rintro (hlevel | hbase)
    · exact (hlevel.mul_left _).add_left _
    · exact hbase.add_right _

/-- A diagram with a number that is not finite: the place of a node, or the width of the canvas. -/
def Diagram.Stray (d : Diagram Float) : Prop :=
  (∃ n ∈ d.nodes, Binary64.Stray n.x ∨ Binary64.Stray n.y) ∨ Binary64.Stray d.width

namespace Settings

variable {c : Config Float} {s : Settings Float}

theorem ofConfig_stray (h : ofConfig c = .ok s) {q : Quantity Float} (hq : q ∈ c.essential)
    (hstray : q.number? = none) :
    Stray s.spacing.minSpacing ∨ Stray s.spacing.levelSpacing ∨ Stray s.spacing.baseX ∨ Stray s.spacing.baseY ∨
      s.canvasMargin.number? = none := by
  have hgiven := given h
  rw [hgiven.canvasMargin]
  simp only [Config.essential, List.mem_cons, List.not_mem_nil, or_false] at hq
  obtain rfl | rfl | rfl | rfl | rfl := hq
  · exact .inl (Quantity.stray_value hstray hgiven.minSpacing)
  · exact .inr (.inl (Quantity.stray_value hstray hgiven.levelSpacing))
  · exact .inr (.inr (.inl (Quantity.stray_value hstray hgiven.baseX)))
  · exact .inr (.inr (.inr (.inl (Quantity.stray_value hstray hgiven.baseY))))
  · exact .inr (.inr (.inr (.inr hstray)))

/-- One essential setting that is no finite number is enough to spoil every diagram. -/
theorem run_stray (h : ofConfig c = .ok s) (hm : c.canvasMargin.InRange) {text : String}
    (hne : (Document.read text).nodes ≠ []) {q : Quantity Float} (hq : q ∈ c.essential)
    (hstray : q.number? = none) :
    ∃ p shift d, s.run text = .framed (Document.read text) p shift d ∧ d.Stray := by
  obtain ⟨⟨left, hleft⟩, hmargin⟩ := ofConfig_margins h
  rw [← hmargin] at hm
  obtain ⟨margin, hmargin⟩ := hm
  obtain ⟨p, hp, hplanned⟩ := plan_spec s hne (Document.nodup_ids text)
  obtain ⟨shift, nodes, edges, -, hframe, hshifted⟩ := frame_eq hleft hmargin p
  have hrun : s.run text = .framed (Document.read text) p shift
      ⟨nodes, edges, (Canvas.size margin nodes edges).1, (Canvas.size margin nodes edges).2⟩ := by
    rw [run]
    simp only [if_neg hne, hp, hframe]
  refine ⟨p, shift, _, hrun, ?_⟩
  obtain ⟨n, hn, dx, hx, hy⟩ := hplanned.start hne (Document.nodup_ids text)
  obtain ⟨hstartX, hstartY⟩ := s.spacing.stray_start
  have hnode (hplace : Stray n.x ∨ Stray n.y) : ∃ n ∈ nodes, Stray n.x ∨ Stray n.y := by
    obtain ⟨rfl, -⟩ | ⟨rfl, -⟩ := hshifted
    · exact ⟨n, hn, hplace⟩
    · exact ⟨_, List.mem_map_of_mem hn, hplace.imp id fun hy => hy.add_right shift⟩
  obtain hmin | hlevel | hbaseX | hbaseY | hcanvas := ofConfig_stray h hq hstray
  · exact .inl (hnode (.inl (hx ▸ hstartX (.inl hmin) dx)))
  · exact .inl (hnode (.inr (hy ▸ hstartY (.inl hlevel))))
  · exact .inl (hnode (.inl (hx ▸ hstartX (.inr hbaseX) dx)))
  · exact .inl (hnode (.inr (hy ▸ hstartY (.inr hbaseY))))
  · exact .inr ((Quantity.stray_value hcanvas hmargin).add_left _)

end Settings

end FlowDiagram
