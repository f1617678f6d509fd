import FlowDiagram.Proofs.Table
import FlowDiagram.Graph.Levels

namespace FlowDiagram.Ranking

/-- No id stands twice in the layers, and each has the place of its layer as its level. -/
structure Layered (r : Ranking) : Prop where
  level : r.level.entries = r.layers.zipIdx.flatMap fun l => l.1.map fun id => (id, l.2)
  nodup : r.layers.flatten.Nodup

namespace Layered

variable {r : Ranking}

theorem keys (h : r.Layered) : r.level.keys = r.layers.flatten := by
  have hf (l : List String × Nat) : (l.1.map fun id => (id, l.2)).map (·.1) = l.1 := by
    rw [List.map_map]
    exact List.map_id l.1
  rw [Table.keys, h.level, List.map_flatMap]
  simp only [hf]
  rw [List.flatMap_def, List.zipIdx_map_fst]

theorem get?_eq_some_iff (h : r.Layered) (id : String) (k : Nat) :
    r.level.get? id = some k ↔ ∃ layer, r.layers[k]? = some layer ∧ id ∈ layer := by
  rw [Table.get?_eq_some_iff (by rw [h.keys]; exact h.nodup), h.level]
  simp only [List.mem_flatMap, List.mem_map, Prod.mk.injEq]
  constructor
  · intro hentry
    obtain ⟨⟨layer, i⟩, hl, id', hid, rfl, rfl⟩ := hentry
    exact ⟨layer, List.mem_zipIdx_iff_getElem?.mp hl, hid⟩
  · intro hlayer
    obtain ⟨layer, hl, hid⟩ := hlayer
    exact ⟨(layer, k), List.mem_zipIdx_iff_getElem?.mpr hl, id, hid, rfl, rfl⟩

theorem trail (h : r.Layered) {ids : List String} (hn : ids.Nodup)
    (hd : ∀ id ∈ ids, id ∉ r.layers.flatten) : (r.trail ids).Layered := by
  rw [Ranking.trail]
  split
  · exact h
  · have hm : (ids.map fun id => (id, r.layers.length)).map (·.1) = ids := by
      rw [List.map_map]
      exact List.map_id ids
    refine ⟨?_, ?_⟩
    · rw [Table.entries_putAll_new (by rwa [hm]), h.level, List.zipIdx_append, List.flatMap_append]
      · simp
      · intro e he
        obtain ⟨id, hid, rfl⟩ := List.mem_map.mp he
        rw [h.keys]
        exact hd id hid
    · rw [List.flatten_append, List.flatten_singleton]
      exact h.nodup.append hn fun id hid hid' => hd id hid' hid

end Layered

theorem layers_trail {ids : List String} (r : Ranking) (h : ids ≠ []) :
    (r.trail ids).layers = r.layers ++ [ids] := by
  rw [trail, if_neg h]

theorem flatten_layers_trail (r : Ranking) (ids : List String) :
    (r.trail ids).layers.flatten = r.layers.flatten ++ ids := by
  by_cases h : ids = []
  · simp [h, trail]
  · rw [layers_trail r h, List.flatten_append, List.flatten_singleton]

theorem modify_last {α : Type} (f : α → α) (as : List α) (a : α) :
    (as ++ [a]).modify as.length f = as ++ [f a] := by
  induction as with
  | nil => rfl
  | cons b as ih =>
    rw [List.cons_append, List.length_cons, List.modify_succ_cons, ih]
    rfl

theorem foldlM_descend_last (level : Table String Nat) (layers : List (List String))
    (ids : List String) (k : Nat) (arcs : List (String × String)) (hk : layers.length = k + 1)
    (hs : ∀ a ∈ arcs, level.get? a.1 = some k) (hf : ∀ a ∈ arcs, ∀ b ∈ arcs, a.1 ≠ b.2) :
    arcs.foldlM descend ⟨level, layers ++ [ids]⟩ = Except.ok
      ⟨level.putAll (arcs.map fun a => (a.2, k + 1)), layers ++ [ids ++ arcs.map (·.2)]⟩ := by
  induction arcs generalizing level ids with
  | nil => simp [Table.putAll, pure, Except.pure]
  | cons a arcs ih =>
    have hd : descend ⟨level, layers ++ [ids]⟩ a =
        .ok ⟨level.put a.2 (k + 1), layers ++ [ids ++ [a.2]]⟩ := by
      have hm : (layers ++ [ids]).modify (k + 1) (· ++ [a.2]) = layers ++ [ids ++ [a.2]] := by
        rw [← hk, modify_last]
      simp [descend, Table.find_eq_ok (hs a (by simp)), hk, hm, bind, Except.bind, pure, Except.pure]
    rw [List.foldlM_cons, hd]
    change arcs.foldlM descend ⟨level.put a.2 (k + 1), layers ++ [ids ++ [a.2]]⟩ = _
    rw [ih]
    · simp [Table.putAll]
    · intro b hb
      have hne : a.2 ≠ b.1 := (hf b (by simp [hb]) a (by simp)).symm
      rw [Table.get?_put, if_neg hne]
      exact hs b (by simp [hb])
    · exact fun b hb c hc => hf b (by simp [hb]) c (by simp [hc])

theorem foldlM_descend {r : Ranking} {k : Nat} {arcs : List (String × String)}
    (hk : r.layers.length = k + 1) (hs : ∀ a ∈ arcs, r.level.get? a.1 = some k)
    (hf : ∀ a ∈ arcs, ∀ b ∈ arcs, a.1 ≠ b.2) :
    arcs.foldlM descend r = .ok (r.trail (arcs.map (·.2))) := by
  cases arcs with
  | nil => rfl
  | cons a arcs =>
    have hd : descend r a = .ok ⟨r.level.put a.2 (k + 1), r.layers ++ [[a.2]]⟩ := by
      simp [descend, Table.find_eq_ok (hs a (by simp)), hk, bind, Except.bind, pure, Except.pure]
    rw [List.foldlM_cons, hd]
    change arcs.foldlM descend ⟨r.level.put a.2 (k + 1), r.layers ++ [[a.2]]⟩ = _
    rw [foldlM_descend_last _ _ _ k _ hk]
    · simp [trail, Table.putAll, hk, List.foldl_map]
    · intro b hb
      have hne : a.2 ≠ b.1 := (hf b (by simp [hb]) a (by simp)).symm
      rw [Table.get?_put, if_neg hne]
      exact hs b (by simp [hb])
    · exact fun b hb c hc => hf b (by simp [hb]) c (by simp [hc])

/-- A node is put on a level only below a parent that has one, and at most one more level than there
are. -/
theorem descend_eq_ok {r r' : Ranking} {arc : String × String} (h : r.descend arc = .ok r') :
    ∃ k, r.level.get? arc.1 = some k ∧ k + 1 ≤ r.layers.length := by
  obtain ⟨k, hk, h⟩ := bind_eq_ok h
  refine ⟨k, ?_, ?_⟩
  · rw [Table.find] at hk
    split at hk
    · rename_i v hv
      rw [hv, Except.ok.inj hk]
    · cases hk
  · by_contra hgt
    rw [if_neg (by omega), if_neg (by omega)] at h
    cases h

end FlowDiagram.Ranking
