import FlowDiagram.Proofs.Layout.Row
import Mathlib.Data.List.Induction

namespace FlowDiagram.Spacing

/-- Two ids have places at the least distance or more. -/
def Apart (d : Rat) (xs : String → Option Rat) (a b : String) : Prop :=
  ∀ x y, xs a = some x → xs b = some y → d ≤ |x - y|

theorem Apart.symm {d : Rat} {xs : String → Option Rat} {a b : String} (h : Apart d xs a b) :
    Apart d xs b a := by
  intro x y hx hy
  rw [abs_sub_comm]
  exact h y x hy hx

instance (d : Rat) (xs : String → Option Rat) : Std.Symm (Apart d xs) where
  symm _ _ h := h.symm

theorem apart_of_settled {d p q : Rat} (hd : 0 ≤ d) {xs : String → Option Rat} {ids : List String}
    {ys : List Rat} (h : ids.map xs = (p :: settle d p q ys).map some) :
    ids.Pairwise (Apart d xs) := by
  have hs : ((p :: settle d p q ys).map some).Pairwise
      fun u v => ∀ x y, u = some x → v = some y → d ≤ |x - y| := by
    apply List.pairwise_map.mpr
    apply (settle_pairwise hd p q ys).imp
    intro u v huv x y hx hy
    obtain rfl := Option.some.inj hx
    obtain rfl := Option.some.inj hy
    have hle := neg_le_abs (u - v)
    linarith
  rw [← h] at hs
  exact (List.pairwise_map (f := xs)).mp hs

variable {s : Spacing Rat}

theorem pushApart_apart (hs : 0 ≤ s.minSpacing) {ids : List String} (hn : ids.Nodup)
    {xs : Table String Rat} (h : ∀ id ∈ ids, id ∈ xs.keys) :
    ∃ ys, s.pushApart ids xs = .ok ys ∧ ys.keys = xs.keys ∧
      ids.Pairwise (Apart s.minSpacing ys.get?) := by
  cases ids with
  | nil => exact ⟨xs, rfl, rfl, .nil⟩
  | cons a ids =>
    obtain ⟨p, hp⟩ := Table.exists_of_mem_keys (h a (by simp))
    have hxs : ids.map xs.get? = (ids.map fun id => (xs.get? id).getD 0).map some := by
      rw [List.map_map]
      apply List.map_congr_left
      intro id hid
      obtain ⟨x, hx⟩ := Table.exists_of_mem_keys (h id (List.mem_cons_of_mem _ hid))
      simp [hx]
    obtain ⟨ys, hpush, hkeys, hkeep, hvals⟩ := s.pushApart_spec hn hp hxs
    have hall : (a :: ids).map ys.get? =
        (p :: settle s.minSpacing p p (ids.map fun id => (xs.get? id).getD 0)).map some := by
      rw [List.map_cons, hkeep a (List.nodup_cons.mp hn).1, hp, hvals, List.map_cons]
    exact ⟨ys, hpush, hkeys, apart_of_settled hs hall⟩

theorem placeLayer_spec (hs : 0 ≤ s.minSpacing) (parents : Table String (List String))
    (placed : Table String (Point Rat)) {layer : List String} (hn : layer.Nodup) (k : Nat) :
    ∃ xs : Table String Rat, xs.keys.Perm layer ∧ layer.Pairwise (Apart s.minSpacing xs.get?) ∧
      s.placeLayer parents placed (layer, k) = .ok (placed.putAll (xs.entries.map fun e =>
        (e.1, ⟨e.2, s.baseY + k * s.levelSpacing⟩))) := by
  have hk := s.keys_initial parents placed hn
  obtain ⟨order, ho, hperm⟩ := ordered_spec fun id hid => hk.mem_iff.mpr hid
  have hpresent : ∀ id ∈ order, id ∈ (s.initial parents placed layer).keys := by
    intro id hid
    exact hk.mem_iff.mpr (hperm.mem_iff.mp hid)
  obtain ⟨xs, hpush, hkeys, hapart⟩ := pushApart_apart hs (hperm.nodup_iff.mpr hn) hpresent
  exact ⟨xs, hkeys ▸ hk, (hperm.pairwise_iff fun {_ _} h => h.symm).mp hapart, placeLayer_eq_ok ho hpush k⟩

/-- The nodes of each layer stand in a row of its own. -/
structure InRows (s : Spacing Rat) (layers : List (List String)) (t : Table String (Point Rat)) :
    Prop where
  keys : t.keys.Perm layers.flatten
  height : ∀ (k : Nat) (layer : List String), layers[k]? = some layer → ∀ id ∈ layer,
    ∃ p, t.get? id = some p ∧ p.y = s.baseY + k * s.levelSpacing
  apart : ∀ layer ∈ layers, layer.Pairwise (Apart s.minSpacing fun id => (t.get? id).map Point.x)

theorem InRows.placeLayer (hs : 0 ≤ s.minSpacing) (parents : Table String (List String))
    {layers : List (List String)} {t : Table String (Point Rat)} (h : InRows s layers t)
    {layer : List String} (hn : (layers ++ [layer]).flatten.Nodup) :
    ∃ t', s.placeLayer parents t (layer, layers.length) = .ok t' ∧
      InRows s (layers ++ [layer]) t' := by
  rw [List.flatten_append, List.flatten_singleton, List.nodup_append'] at hn
  obtain ⟨-, hnl, hdisj⟩ := hn
  obtain ⟨xs, hk, hapart, hplace⟩ := placeLayer_spec hs parents t hnl layers.length
  have hfresh : ∀ id ∈ layer, id ∉ t.keys := by
    intro id hid hmem
    exact hdisj (h.keys.mem_iff.mp hmem) hid
  have hnew : ∀ id ∈ xs.keys, id ∉ t.keys := by
    intro id hid
    exact hfresh id (hk.mem_iff.mp hid)
  obtain ⟨hkeys, hget⟩ := putAll_row (hk.nodup_iff.mpr hnl) hnew
    (s.baseY + layers.length * s.levelSpacing)
  -- A node of the new layer has no place yet, and one of an old layer keeps its place.
  have hnone : ∀ id ∈ layer, t.get? id = none := by
    intro id hid
    exact (Table.get?_eq_none_iff t id).mpr (hfresh id hid)
  have hkeep {l : List String} (hl : l ∈ layers) {id : String} (hid : id ∈ l) (u : Option (Point Rat)) :
      (t.get? id).or u = t.get? id := by
    obtain ⟨p, hp⟩ := Table.exists_of_mem_keys (h.keys.mem_iff.mpr (List.mem_flatten_of_mem hl hid))
    rw [hp]
    rfl
  refine ⟨_, hplace, ?_, ?_, ?_⟩
  · rw [hkeys, List.flatten_append, List.flatten_singleton]
    exact h.keys.append hk
  · intro k l hl id hid
    obtain hlt | rfl | hgt := Nat.lt_trichotomy k layers.length
    · rw [List.getElem?_append_left hlt] at hl
      rw [hget, hkeep (List.mem_of_getElem? hl) hid]
      exact h.height k l hl id hid
    · obtain rfl : layer = l := by simpa using hl
      obtain ⟨x, hx⟩ := Table.exists_of_mem_keys (hk.mem_iff.mpr hid)
      refine ⟨⟨x, s.baseY + layers.length * s.levelSpacing⟩, ?_, rfl⟩
      rw [hget, hnone id hid, hx]
      rfl
    · have hlen : (layers ++ [layer]).length ≤ k := by
        rw [List.length_append, List.length_singleton]
        omega
      rw [List.getElem?_eq_none hlen] at hl
      cases hl
  · intro l hl
    obtain hl | hl := List.mem_append.mp hl
    · apply (h.apart l hl).imp_of_mem
      intro a b ha hb hab
      simpa only [Apart, hget, hkeep hl ha, hkeep hl hb] using hab
    · obtain rfl := List.mem_singleton.mp hl
      apply hapart.imp_of_mem
      intro a b ha hb hab
      have hx (u : Option Rat) : (u.map fun x => (⟨x, s.baseY + layers.length * s.levelSpacing⟩ :
          Point Rat)).map Point.x = u := by
        cases u <;> rfl
      simpa only [Apart, hget, hnone a ha, hnone b hb, Option.none_or, hx] using hab

theorem inRows_empty (s : Spacing Rat) : InRows s [] .empty :=
  ⟨.refl _, by simp, by simp⟩

theorem foldlM_placeLayer (hs : 0 ≤ s.minSpacing) (parents : Table String (List String))
    {layers : List (List String)} (hn : layers.flatten.Nodup) :
    ∃ t, layers.zipIdx.foldlM (s.placeLayer parents) .empty = .ok t ∧ InRows s layers t := by
  induction layers using List.reverseRecOn with
  | nil => exact ⟨_, rfl, inRows_empty s⟩
  | append_singleton layers layer ih =>
    have hn' : layers.flatten.Nodup := by
      rw [List.flatten_append] at hn
      exact hn.of_append_left
    obtain ⟨t, ht, hrows⟩ := ih hn'
    obtain ⟨t', hp, hrows'⟩ := hrows.placeLayer hs parents hn
    exact ⟨t', foldlM_zipIdx_concat ht hp, hrows'⟩

theorem InRows.move {layers : List (List String)} {t : Table String (Point Rat)}
    (h : InRows s layers t) (dx : Rat) :
    InRows s layers ⟨t.entries.map fun e => (e.1, ⟨e.2.x + dx, e.2.y⟩)⟩ := by
  have hget (id : String) : (Table.mk (t.entries.map fun e =>
      (e.1, (⟨e.2.x + dx, e.2.y⟩ : Point Rat)))).get? id =
      (t.get? id).map fun p => ⟨p.x + dx, p.y⟩ :=
    Table.get?_map (fun _ p => (⟨p.x + dx, p.y⟩ : Point Rat)) t id
  refine ⟨?_, ?_, ?_⟩
  · rw [Table.keys, List.map_map]
    exact h.keys
  · intro k layer hl id hid
    obtain ⟨p, hp, hy⟩ := h.height k layer hl id hid
    exact ⟨⟨p.x + dx, p.y⟩, by rw [hget, hp]; rfl, hy⟩
  · intro layer hl
    apply (h.apart layer hl).imp
    intro a b hab x y hx hy
    simp only [hget, Option.map_map, Option.map_eq_some_iff, Function.comp] at hx hy
    obtain ⟨p, hp, rfl⟩ := hx
    obtain ⟨q, hq, rfl⟩ := hy
    rw [add_sub_add_right_eq_sub]
    exact hab p.x q.x (congrArg (Option.map Point.x) hp) (congrArg (Option.map Point.x) hq)

def lefts (kinds : Table String Kind) (t : Table String (Point Rat)) : List Rat :=
  t.entries.map fun e => e.2.x - Scalar.half ((kinds.get? e.1).getD .task).width

theorem deficit_eq (s : Spacing Rat) {kinds : Table String Kind} {t : Table String (Point Rat)}
    (hk : ∀ id ∈ t.keys, ∃ kind, kinds.get? id = some kind) :
    s.deficit kinds t = .ok (match lefts kinds t with
      | [] => 0
      | x :: xs => max 0 (s.leftMargin - Scalar.least x xs)) := by
  rw [deficit, mapM_left hk]
  change Except.bind (.ok (lefts kinds t)) _ = _
  cases lefts kinds t with
  | nil => rfl
  | cons x xs => exact congrArg Except.ok (Scalar.max_rat 0 _)

theorem deficit_spec (s : Spacing Rat) (kinds : Table String Kind) (t : Table String (Point Rat))
    (hk : ∀ id ∈ t.keys, ∃ kind, kinds.get? id = some kind) :
    ∃ dx, s.deficit kinds t = .ok dx ∧ ∀ e ∈ t.entries, ∀ kind, kinds.get? e.1 = some kind →
      s.leftMargin ≤ e.2.x + dx - (kind.width : Rat) / 2 := by
  refine ⟨_, s.deficit_eq hk, ?_⟩
  intro e he kind hkind
  have hmem : e.2.x - Scalar.half ((kinds.get? e.1).getD .task).width ∈ lefts kinds t :=
    List.mem_map_of_mem he
  rw [hkind] at hmem
  change e.2.x - (kind.width : Rat) / 2 ∈ lefts kinds t at hmem
  cases hl : lefts kinds t with
  | nil =>
    rw [hl] at hmem
    cases hmem
  | cons x xs =>
    rw [hl] at hmem
    have hle := (Scalar.least_spec x xs).2 _ hmem
    have hmax := le_max_right 0 (s.leftMargin - Scalar.least x xs)
    change s.leftMargin ≤ e.2.x + max 0 (s.leftMargin - Scalar.least x xs) - (kind.width : Rat) / 2
    linarith

theorem positions_spec (hs : 0 ≤ s.minSpacing) (parents : Table String (List String))
    {layers : List (List String)} {kinds : Table String Kind} (hn : layers.flatten.Nodup)
    (hk : ∀ id ∈ layers.flatten, ∃ kind, kinds.get? id = some kind) :
    ∃ t, s.positions layers parents kinds = .ok t ∧ InRows s layers t ∧
      ∀ id p kind, t.get? id = some p → kinds.get? id = some kind →
        s.leftMargin ≤ p.x - (kind.width : Rat) / 2 := by
  obtain ⟨t, ht, hrows⟩ := foldlM_placeLayer hs parents hn
  obtain ⟨dx, hdx, hleft⟩ := s.deficit_spec kinds t fun id hid => hk id (hrows.keys.mem_iff.mp hid)
  refine ⟨_, positions_eq_ok ht hdx, hrows.move dx, ?_⟩
  intro id p kind hp hkind
  have hmem := Table.mem_entries_of_get? hp
  obtain ⟨e, he, heq⟩ := List.mem_map.mp hmem
  obtain ⟨rfl, rfl⟩ := Prod.mk.inj heq
  exact hleft e he kind hkind

end FlowDiagram.Spacing
