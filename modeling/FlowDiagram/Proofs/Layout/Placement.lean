import FlowDiagram.Proofs.Sorting
import FlowDiagram.Proofs.Table
import FlowDiagram.Layout.Positions
import Mathlib.Data.List.Induction

namespace FlowDiagram.Spacing

variable {α : Type}

theorem putAll_row {t : Table String (Point α)} {xs : Table String α} (hn : xs.keys.Nodup)
    (hnew : ∀ id ∈ xs.keys, id ∉ t.keys) (y : α) :
    (t.putAll (xs.entries.map fun e => (e.1, ⟨e.2, y⟩))).keys = t.keys ++ xs.keys ∧
      ∀ id, (t.putAll (xs.entries.map fun e => (e.1, ⟨e.2, y⟩))).get? id =
        (t.get? id).or ((xs.get? id).map fun x => ⟨x, y⟩) := by
  have hkeys : (xs.entries.map fun e => (e.1, (⟨e.2, y⟩ : Point α))).map (·.1) = xs.keys := by
    rw [List.map_map]
    rfl
  have hent := Table.entries_putAll_new (t := t) (hkeys ▸ hn) (by
    intro e he
    have hmem := List.mem_map_of_mem (f := (·.1)) he
    rw [hkeys] at hmem
    exact hnew e.1 hmem)
  constructor
  · rw [Table.keys, hent, List.map_append, hkeys]
    rfl
  · intro id
    rw [Table.get?_append (u := ⟨_⟩) hent]
    exact congrArg _ (Table.get?_map (fun _ x => (⟨x, y⟩ : Point α)) xs id)

variable [Scalar α]

theorem moveRight_spec (step : α) {ids : List String} (hn : ids.Nodup) (xs : Table String α)
    (h : ∀ id ∈ ids, id ∈ xs.keys) :
    ∃ xs', moveRight step ids xs = .ok xs' ∧ xs'.keys = xs.keys ∧
      ∀ id, xs'.get? id = if id ∈ ids then (xs.get? id).map (· + step) else xs.get? id := by
  induction ids generalizing xs with
  | nil => exact ⟨xs, rfl, rfl, by simp⟩
  | cons a ids ih =>
    obtain ⟨x, hx⟩ := Table.exists_of_mem_keys (h a (by simp))
    have hk : (xs.put a (x + step)).keys = xs.keys := by
      rw [Table.keys_put, if_pos (h a (by simp))]
    have hn' := List.nodup_cons.mp hn
    obtain ⟨xs', hm, hk', hv⟩ := ih hn'.2 (xs.put a (x + step))
      fun id hid => hk ▸ h id (List.mem_cons_of_mem _ hid)
    refine ⟨xs', ?_, hk'.trans hk, ?_⟩
    · rw [moveRight, List.foldlM_cons, Table.find_eq_ok hx]
      exact hm
    · intro id
      rw [hv, Table.get?_put]
      by_cases ha : a = id
      · subst ha
        simp [hn'.1, hx]
      · simp [ha, Ne.symm ha]

variable {s : Spacing α}

theorem map_fst_desired (parents : Table String (List String)) (placed : Table String (Point α))
    (layer : List String) : (layer.filterMap fun id => (desired? parents placed id).map fun x => (id, x)).map
      (·.1) = layer.filter fun id => (desired? parents placed id).isSome := by
  induction layer with
  | nil => rfl
  | cons a layer ih =>
    cases h : desired? parents placed a with
    | none =>
      rw [List.filterMap_cons_none (by rw [h]; rfl), List.filter_cons_of_neg (by simp [h]), ih]
    | some x =>
      rw [List.filterMap_cons_some (b := (a, x)) (by rw [h]; rfl),
        List.filter_cons_of_pos (by simp [h]), List.map_cons, ih]

theorem map_fst_row (ids : List String) : (s.row ids).map (·.1) = ids := by
  simp [row, List.map_map, Function.comp_def]

theorem entries_initial (parents : Table String (List String)) (placed : Table String (Point α))
    {layer : List String} (hn : layer.Nodup) : (s.initial parents placed layer).entries =
      (layer.filterMap fun id => (desired? parents placed id).map fun x => (id, x)) ++
        s.row (layer.filter fun id => (desired? parents placed id).isNone) := by
  have hfirst := map_fst_desired parents placed layer
  have hfresh : ∀ e ∈ s.row (layer.filter fun id => (desired? parents placed id).isNone),
      e.1 ∉ (Table.ofList (layer.filterMap fun id =>
        (desired? parents placed id).map fun x => (id, x))).keys := by
    intro e he
    have hmem := List.mem_map_of_mem (f := (·.1)) he
    rw [map_fst_row, List.mem_filter] at hmem
    rw [Table.keys, Table.entries_ofList (by rw [hfirst]; exact hn.filter _), hfirst, List.mem_filter]
    simp [Option.isNone_iff_eq_none.mp hmem.2]
  rw [initial, Table.entries_putAll_new (by rw [map_fst_row]; exact hn.filter _) hfresh,
    Table.entries_ofList (by rw [hfirst]; exact hn.filter _)]

theorem keys_initial (parents : Table String (List String)) (placed : Table String (Point α))
    {layer : List String} (hn : layer.Nodup) : (s.initial parents placed layer).keys.Perm layer := by
  have hnot : (fun id => (desired? parents placed id).isNone) =
      fun id => !(desired? parents placed id).isSome := by
    funext id
    simp
  rw [Table.keys, entries_initial parents placed hn, List.map_append, map_fst_desired, map_fst_row, hnot]
  exact List.filter_append_perm _ _

theorem ordered_eq {layer : List String} {xs : Table String α} (h : ∀ id ∈ layer, id ∈ xs.keys) :
    ordered layer xs = .ok ((Sorting.sort (fun a b => Scalar.lt a.1 b.1)
      (layer.map fun id => ((xs.get? id).getD ((0 : Nat) : α), id))).map (·.2)) := by
  have hm : layer.mapM (fun id => return ((← xs.find id), id)) =
      Except.ok (layer.map fun id => ((xs.get? id).getD ((0 : Nat) : α), id)) := by
    apply mapM_eq_ok
    intro id hid
    obtain ⟨x, hx⟩ := Table.exists_of_mem_keys (h id hid)
    rw [Table.find_eq_ok hx, hx]
    rfl
  rw [ordered, hm]
  rfl

theorem ordered_spec {layer : List String} {xs : Table String α} (h : ∀ id ∈ layer, id ∈ xs.keys) :
    ∃ order, ordered layer xs = .ok order ∧ order.Perm layer := by
  have hkeyed : (layer.map fun id => ((xs.get? id).getD ((0 : Nat) : α), id)).map (·.2) = layer := by
    rw [List.map_map]
    exact List.map_id layer
  refine ⟨_, ordered_eq h, ?_⟩
  apply List.Perm.trans _ (.of_eq hkeyed)
  exact (Sorting.sort_perm _).map Prod.snd

theorem pushApart_keys (s : Spacing α) {ids : List String} (hn : ids.Nodup) (xs : Table String α)
    (h : ∀ id ∈ ids, id ∈ xs.keys) : ∃ ys, s.pushApart ids xs = .ok ys ∧ ys.keys = xs.keys := by
  induction ids generalizing xs with
  | nil => exact ⟨xs, rfl, rfl⟩
  | cons a ids ih =>
    cases ids with
    | nil => exact ⟨xs, rfl, rfl⟩
    | cons b ids =>
      obtain ⟨x, hx⟩ := Table.exists_of_mem_keys (h a (by simp))
      obtain ⟨y, hy⟩ := Table.exists_of_mem_keys (h b (by simp))
      have hrest : ∀ id ∈ b :: ids, id ∈ xs.keys := fun id hid => h id (List.mem_cons_of_mem _ hid)
      have hn' := (List.nodup_cons.mp hn).2
      rw [pushApart, Table.find_eq_ok hx, Table.find_eq_ok hy]
      by_cases hgap : Scalar.lt (y - x) s.minSpacing = true
      · obtain ⟨moved, hmove, hkeys, -⟩ := moveRight_spec (s.minSpacing - (y - x)) hn' xs hrest
        have ha : a ∈ moved.keys := hkeys ▸ h a (by simp)
        obtain ⟨z, hz⟩ := Table.exists_of_mem_keys ha
        have hput : (moved.put b (z + s.minSpacing)).keys = xs.keys := by
          rw [Table.keys_put, if_pos (hkeys ▸ hrest b (by simp)), hkeys]
        obtain ⟨ys, hpush, hys⟩ := ih hn' (moved.put b (z + s.minSpacing)) (hput ▸ hrest)
        refine ⟨ys, ?_, hys.trans hput⟩
        simp only [bind, Except.bind, if_pos hgap, hmove, Table.find_eq_ok hz]
        exact hpush
      · obtain ⟨ys, hpush, hys⟩ := ih hn' xs hrest
        refine ⟨ys, ?_, hys⟩
        simp only [bind, Except.bind, if_neg hgap]
        exact hpush

theorem placeLayer_eq_ok {parents : Table String (List String)} {placed : Table String (Point α)}
    {layer order : List String} {xs : Table String α}
    (ho : ordered layer (s.initial parents placed layer) = .ok order)
    (hpush : s.pushApart order (s.initial parents placed layer) = .ok xs) (k : Nat) :
    s.placeLayer parents placed (layer, k) = .ok (placed.putAll (xs.entries.map fun e =>
      (e.1, ⟨e.2, s.baseY + (k : α) * s.levelSpacing⟩))) := by
  rw [placeLayer, ho]
  change (s.pushApart order (s.initial parents placed layer)).bind _ = _
  rw [hpush]
  rfl

theorem row_found (s : Spacing α) {layer : List String} (hn : layer.Nodup)
    (parents : Table String (List String)) (placed : Table String (Point α)) : ∃ order xs,
      (s.initial parents placed layer).keys.Perm layer ∧
      ordered layer (s.initial parents placed layer) = .ok order ∧ order.Perm layer ∧
      s.pushApart order (s.initial parents placed layer) = .ok xs ∧ xs.keys.Perm layer := by
  have hkeys := s.keys_initial parents placed hn
  obtain ⟨order, horder, hperm⟩ := ordered_spec fun id hid => hkeys.mem_iff.mpr hid
  obtain ⟨xs, hpush, hxs⟩ := s.pushApart_keys (hperm.nodup_iff.mpr hn) (s.initial parents placed layer)
    fun id hid => hkeys.mem_iff.mpr (hperm.mem_iff.mp hid)
  exact ⟨order, xs, hkeys, horder, hperm, hpush, hxs ▸ hkeys⟩

theorem placeLayer_keys (parents : Table String (List String)) {placed : Table String (Point α)}
    {layer : List String} (hn : layer.Nodup) (hnew : ∀ id ∈ layer, id ∉ placed.keys) (k : Nat) :
    ∃ t, s.placeLayer parents placed (layer, k) = .ok t ∧ t.keys.Perm (placed.keys ++ layer) := by
  obtain ⟨order, xs, -, ho, -, hpush, hxs⟩ := s.row_found hn parents placed
  have hfresh : ∀ id ∈ xs.keys, id ∉ placed.keys := fun id hid => hnew id (hxs.mem_iff.mp hid)
  refine ⟨_, placeLayer_eq_ok ho hpush k, ?_⟩
  rw [(putAll_row (hxs.nodup_iff.mpr hn) hfresh _).1]
  exact hxs.append_left _

/-- The parents of a layer ask for the same places, as long as no node of that layer or a later one is
placed. -/
def SameParents (α : Type) [Scalar α] (layers : List (List String))
    (parents parents' : Table String (List String)) : Prop :=
  ∀ before layer after, layers = before ++ layer :: after → ∀ placed : Table String (Point α),
    (∀ id ∈ placed.keys, id ∈ before.flatten) → ∀ id ∈ layer,
      desired? parents' placed id = desired? parents placed id

theorem initial_congr {parents parents' : Table String (List String)} {placed : Table String (Point α)}
    {layer : List String} (h : ∀ id ∈ layer, desired? parents' placed id = desired? parents placed id) :
    s.initial parents' placed layer = s.initial parents placed layer := by
  have hfirst : (layer.filterMap fun id => (desired? parents' placed id).map fun x => (id, x)) =
      layer.filterMap fun id => (desired? parents placed id).map fun x => (id, x) := by
    apply List.filterMap_congr
    intro id hid
    rw [h id hid]
  have hrow : (layer.filter fun id => (desired? parents' placed id).isNone) =
      layer.filter fun id => (desired? parents placed id).isNone := by
    apply List.filter_congr
    intro id hid
    rw [h id hid]
  rw [initial, initial, hfirst, hrow]

theorem foldlM_zipIdx_concat {β γ : Type} {f : β → γ × Nat → Except Fault β} {b t u : β} {as : List γ}
    {a : γ} (h : as.zipIdx.foldlM f b = .ok t) (ha : f t (a, as.length) = .ok u) :
    (as ++ [a]).zipIdx.foldlM f b = .ok u := by
  rw [List.zipIdx_append, List.foldlM_append, h]
  change (f t (a, 0 + as.length)).bind _ = _
  rw [Nat.zero_add, ha]
  rfl

theorem foldlM_placeLayer_same {layers : List (List String)} (hn : layers.flatten.Nodup)
    {parents parents' : Table String (List String)} (h : SameParents α layers parents parents') :
    ∃ t, layers.zipIdx.foldlM (s.placeLayer parents) .empty = .ok t ∧
      layers.zipIdx.foldlM (s.placeLayer parents') .empty = .ok t ∧ t.keys.Perm layers.flatten := by
  induction layers using List.reverseRecOn with
  | nil => exact ⟨_, rfl, rfl, .refl _⟩
  | append_singleton layers layer ih =>
    rw [List.flatten_append, List.flatten_singleton, List.nodup_append'] at hn
    obtain ⟨hbefore, hlayer, hdisj⟩ := hn
    obtain ⟨t, ht, ht', hkeys⟩ := ih hbefore (by
      rintro before l after rfl
      exact h before l (after ++ [layer]) (by simp))
    have hnew : ∀ id ∈ layer, id ∉ t.keys := fun id hid hmem => hdisj (hkeys.mem_iff.mp hmem) hid
    obtain ⟨u, hu, hperm⟩ := s.placeLayer_keys parents hlayer hnew layers.length
    have hsame : s.placeLayer parents' t (layer, layers.length) = .ok u := by
      have hinit := s.initial_congr fun id hid =>
        h layers layer [] rfl t (fun id hid => hkeys.mem_iff.mp hid) id hid
      rw [← hu, placeLayer, placeLayer, hinit]
    refine ⟨u, foldlM_zipIdx_concat ht hu, foldlM_zipIdx_concat ht' hsame, ?_⟩
    rw [List.flatten_append, List.flatten_singleton]
    exact hperm.trans (hkeys.append_right layer)

theorem mapM_left {kinds : Table String Kind} {t : Table String (Point α)}
    (hk : ∀ id ∈ t.keys, ∃ kind, kinds.get? id = some kind) :
    t.entries.mapM (fun (id, p) => return p.x - Scalar.half (← kinds.find id).width) =
      Except.ok (t.entries.map fun e =>
        e.2.x - (Scalar.half ((kinds.get? e.1).getD .task).width : α)) := by
  apply mapM_eq_ok
  intro e he
  obtain ⟨kind, hkind⟩ := hk e.1 (List.mem_map_of_mem he)
  simp only [Table.find_eq_ok hkind, hkind]
  rfl

theorem deficit_ok (s : Spacing α) {kinds : Table String Kind} {t : Table String (Point α)}
    (hk : ∀ id ∈ t.keys, ∃ kind, kinds.get? id = some kind) : ∃ dx, s.deficit kinds t = .ok dx := by
  rw [deficit, mapM_left hk]
  cases t.entries.map fun e => e.2.x - (Scalar.half ((kinds.get? e.1).getD .task).width : α) with
  | nil => exact ⟨_, rfl⟩
  | cons x xs => exact ⟨_, rfl⟩

theorem positions_eq_ok {layers : List (List String)} {parents : Table String (List String)}
    {kinds : Table String Kind} {t : Table String (Point α)} {dx : α}
    (ht : layers.zipIdx.foldlM (s.placeLayer parents) .empty = .ok t) (hdx : s.deficit kinds t = .ok dx) :
    s.positions layers parents kinds =
      .ok ⟨t.entries.map fun e => (e.1, ⟨e.2.x + dx, e.2.y⟩)⟩ := by
  rw [positions, ht]
  change (s.deficit kinds t).bind _ = _
  rw [hdx]
  rfl

theorem positions_keys (s : Spacing α) {layers : List (List String)} (hn : layers.flatten.Nodup)
    (parents : Table String (List String)) {kinds : Table String Kind}
    (hk : ∀ id ∈ layers.flatten, ∃ kind, kinds.get? id = some kind) :
    ∃ t, s.positions layers parents kinds = .ok t ∧ t.keys.Perm layers.flatten := by
  have hsame : SameParents α layers parents parents := fun _ _ _ _ _ _ _ _ => rfl
  obtain ⟨t, ht, -, hkeys⟩ := s.foldlM_placeLayer_same hn hsame
  obtain ⟨dx, hdx⟩ := s.deficit_ok fun id hid => hk id (hkeys.mem_iff.mp hid)
  refine ⟨_, positions_eq_ok ht hdx, ?_⟩
  rw [Table.keys, List.map_map]
  exact hkeys

/-- Nodes are placed, and parents that ask for the same places place them at the same. -/
theorem positions_same (s : Spacing α) {layers : List (List String)} (hn : layers.flatten.Nodup)
    {parents parents' : Table String (List String)} (h : SameParents α layers parents parents')
    {kinds : Table String Kind} (hk : ∀ id ∈ layers.flatten, ∃ kind, kinds.get? id = some kind) :
    ∃ t, s.positions layers parents kinds = .ok t ∧ s.positions layers parents' kinds = .ok t := by
  obtain ⟨t, ht, ht', hkeys⟩ := s.foldlM_placeLayer_same hn h
  obtain ⟨dx, hdx⟩ := s.deficit_ok fun id hid => hk id (hkeys.mem_iff.mp hid)
  exact ⟨_, positions_eq_ok ht hdx, positions_eq_ok ht' hdx⟩

end FlowDiagram.Spacing
