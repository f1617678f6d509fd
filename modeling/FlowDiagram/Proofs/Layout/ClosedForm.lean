import FlowDiagram.Proofs.Layout.Positions
import Mathlib.Data.List.Chain

namespace FlowDiagram.Spacing

/-- The parents of a node that are among the given ids. -/
def parentsIn (parents : Table String (List String)) (ids : List String) (id : String) : List String :=
  ((parents.get? id).getD []).filter (· ∈ ids)

/-- The nodes of a layer without a parent above it. -/
def parentless (parents : Table String (List String)) (above layer : List String) : List String :=
  layer.filter fun id => parentsIn parents above id = []

/-- Where a node of a layer wants to stand, when the nodes above it stand at the given places. -/
def wanted (s : Spacing Rat) (parents : Table String (List String)) (x : String → Rat)
    (above layer : List String) (id : String) : Rat :=
  let ps := parentsIn parents above id
  let row := parentless parents above layer
  if ps = [] then s.baseX + ((row.idxOf id : Rat) - ((row.length : Rat) - 1) / 2) * s.minSpacing
  else (ps.map x).sum / ps.length

/-- The nodes of a layer, sorted by what they want. The sort is stable: nodes that want the same keep their order. -/
def inOrder (want : String → Rat) (layer : List String) : List String :=
  layer.mergeSort fun a b => want a ≤ want b

/-- Nodes from left to right: the first stands where it wants to, and the others keep the distances that they want, or
the least distance where that is more. -/
structure Settled (d : Rat) (want x : String → Rat) (order : List String) : Prop where
  first : ∀ a ∈ order.head?, x a = want a
  next : order.IsChain fun a b => x b = x a + max d (want b - want a)

/-- Each layer has settled below those above it. -/
def Settles (s : Spacing Rat) (parents : Table String (List String)) (layers : List (List String))
    (x : String → Rat) : Prop :=
  ∀ (k : Nat) layer, layers[k]? = some layer →
    let want := s.wanted parents x (layers.take k).flatten layer
    Settled s.minSpacing want x (inOrder want layer)

theorem mem_inOrder {want : String → Rat} {layer : List String} {id : String} :
    id ∈ inOrder want layer ↔ id ∈ layer := (List.mergeSort_perm layer _).mem_iff

theorem nodup_inOrder (want : String → Rat) {layer : List String} (hn : layer.Nodup) :
    (inOrder want layer).Nodup := (List.mergeSort_perm layer _).nodup_iff.mpr hn

theorem inOrder_sorted (want : String → Rat) (layer : List String) :
    (inOrder want layer).Pairwise fun a b => want a ≤ want b := by
  have hsorted : (layer.mergeSort fun a b => want a ≤ want b).Pairwise fun a b => decide (want a ≤ want b) = true := by
    apply List.pairwise_mergeSort
    · intro a b c hab hbc
      simp only [decide_eq_true_eq] at hab hbc ⊢
      exact hab.trans hbc
    · intro a b
      simpa using le_total (want a) (want b)
  apply hsorted.imp
  intro a b hab
  simpa using hab

theorem inOrder_of_sorted {want : String → Rat} {layer : List String}
    (h : layer.Pairwise fun a b => want a ≤ want b) : inOrder want layer = layer := by
  apply List.mergeSort_of_pairwise
  apply h.imp
  intro a b hab
  simpa using hab

theorem ranks_rat : Sorting.Ranks fun a b : Rat => decide (a < b) where
  asymm a b h := by simpa using (of_decide_eq_true h).le
  trans a b c hab hbc := by
    simp only [decide_eq_false_iff_not, not_lt] at hab hbc ⊢
    exact hab.trans hbc

theorem ordered_inOrder {want : String → Rat} {layer : List String} {xs : Table String Rat}
    (h : ∀ id ∈ layer, xs.get? id = some (want id)) : ordered layer xs = .ok (inOrder want layer) := by
  have hkeyed : (layer.map fun id => ((xs.get? id).getD ((0 : Nat) : Rat), id)) =
      layer.map fun id => (want id, id) := by
    apply List.map_congr_left
    intro id hid
    rw [h id hid]
    rfl
  have hpresent : ∀ id ∈ layer, id ∈ xs.keys := by
    intro id hid
    rw [← Table.get?_isSome, h id hid]
    rfl
  have hranks : Sorting.Ranks fun a b : String => decide (want a < want b) :=
    ⟨fun a b => ranks_rat.asymm _ _, fun a b c => ranks_rat.trans _ _ _⟩
  have hle : (fun a b : String => !decide (want b < want a)) = fun a b => decide (want a ≤ want b) := by
    funext a b
    simp only [← decide_not, not_lt]
  have hsort : Sorting.sort (fun a b : Rat × String => Scalar.lt a.1 b.1) (layer.map fun id => (want id, id)) =
      (Sorting.sort (fun a b => decide (want a < want b)) layer).map fun id => (want id, id) :=
    Sorting.sort_map (fun _ _ => rfl) layer
  rw [ordered_eq hpresent, hkeyed, hsort, Sorting.sort_eq_mergeSort hranks, hle, List.map_map]
  exact congrArg Except.ok (List.map_id _)

section Wanted

variable {s : Spacing Rat} {parents : Table String (List String)} {above layer : List String}

theorem wanted_congr {x x' : String → Rat} (h : ∀ id ∈ above, x' id = x id) :
    s.wanted parents x' above layer = s.wanted parents x above layer := by
  funext id
  have hmap : (parentsIn parents above id).map x' = (parentsIn parents above id).map x := by
    apply List.map_congr_left
    intro p hp
    exact h p (of_decide_eq_true (List.mem_filter.mp hp).2)
  simp only [wanted, hmap]

def xOf (t : Table String (Point Rat)) (id : String) : Rat := ((t.get? id).map Point.x).getD 0

variable {t : Table String (Point Rat)} (ht : ∀ id, id ∈ t.keys ↔ id ∈ above)
include ht

theorem parentXs_eq (id : String) : parentXs parents t id = (parentsIn parents above id).map (xOf t) := by
  rw [parentXs, parentsIn]
  induction (parents.get? id).getD [] with
  | nil => rfl
  | cons p ps ih =>
    by_cases hp : p ∈ above
    · obtain ⟨q, hq⟩ := Table.exists_of_mem_keys ((ht p).mpr hp)
      simp [hq, hp, ih, xOf]
    · have hq := (Table.get?_eq_none_iff t p).mpr (mt (ht p).mp hp)
      simp [hq, hp, ih]

theorem desired?_eq (id : String) : desired? parents t id =
    if parentsIn parents above id = [] then none
    else some (((parentsIn parents above id).map (xOf t)).sum / (parentsIn parents above id).length) := by
  rw [desired?, parentXs_eq ht]
  cases parentsIn parents above id with
  | nil => rfl
  | cons p ps => simp [mean, Scalar.sum_rat]

theorem parentless_eq : (layer.filter fun id => (desired? parents t id).isNone) =
    parentless parents above layer := by
  apply List.filter_congr
  intro id _
  rw [desired?_eq ht]
  split <;> simp_all

theorem get?_initial (hn : layer.Nodup) {id : String} (hid : id ∈ layer) :
    (s.initial parents t layer).get? id = some (s.wanted parents (xOf t) above layer id) := by
  have hkeys := (s.keys_initial parents t hn).nodup_iff.mpr hn
  rw [Table.get?_eq_some_iff hkeys, s.entries_initial parents t hn, parentless_eq ht, List.mem_append]
  by_cases hps : parentsIn parents above id = []
  · right
    have hrow : id ∈ parentless parents above layer := List.mem_filter.mpr ⟨hid, decide_eq_true hps⟩
    have hlength := List.length_pos_of_mem hrow
    refine List.mem_map.mpr ⟨(id, (parentless parents above layer).idxOf id), ?_, ?_⟩
    · exact List.mem_zipIdx_iff_getElem?.mpr (List.getElem?_idxOf hrow)
    · have hcast : (((parentless parents above layer).length - 1 : Nat) : Rat) =
          (parentless parents above layer).length - 1 := by
        rw [Nat.cast_sub hlength, Nat.cast_one]
      simp only [wanted, hps, if_true, hcast, Prod.mk.injEq, true_and]
      push_cast
      ring
  · left
    refine List.mem_filterMap.mpr ⟨id, hid, ?_⟩
    rw [desired?_eq ht, if_neg hps]
    simp [wanted, hps]

end Wanted

theorem pairwise_of_isChain (R : Rat → Rat → Prop) [Trans R R R] (x : String → Rat) {ids : List String}
    (h : ids.IsChain fun a b => R (x a) (x b)) : ids.Pairwise fun a b => R (x a) (x b) := by
  apply List.pairwise_map.mp
  exact ((List.isChain_map x).mpr h).pairwise

theorem isChain_of_settle {d : Rat} {want x : String → Rat} {a : String} {ids : List String}
    (h : ids.map x = settle d (x a) (want a) (ids.map want)) :
    (a :: ids).IsChain fun a b => x b = x a + max d (want b - want a) := by
  induction ids generalizing a with
  | nil => exact .singleton a
  | cons b ids ih =>
    rw [List.map_cons, List.map_cons, settle, List.cons.injEq] at h
    obtain ⟨hb, hids⟩ := h
    rw [← hb] at hids
    exact .cons_cons hb (ih hids)

namespace Settled

variable {d : Rat} {want x x' : String → Rat} {order : List String}

theorem congr (h : Settled d want x order) (hx : ∀ id ∈ order, x' id = x id) : Settled d want x' order where
  first a ha := (hx a (List.mem_of_mem_head? ha)).trans (h.first a ha)
  next := by
    apply h.next.imp_of_mem_imp
    intro a b ha hb hab
    rw [hx a ha, hx b hb, hab]

theorem unique (h : Settled d want x order) (h' : Settled d want x' order) : ∀ id ∈ order, x' id = x id := by
  cases order with
  | nil => simp
  | cons a ids =>
    have ha : x' a = x a := (h'.first a rfl).trans (h.first a rfl).symm
    have hnext := h.next
    have hnext' := h'.next
    clear h h'
    induction ids generalizing a with
    | nil => simpa using ha
    | cons b ids ih =>
      obtain ⟨hb, hrest⟩ := List.isChain_cons_cons.mp hnext
      obtain ⟨hb', hrest'⟩ := List.isChain_cons_cons.mp hnext'
      intro id hid
      rcases List.mem_cons.mp hid with rfl | hid
      · exact ha
      · exact ih b (by rw [hb, hb', ha]) hrest hrest' id hid

end Settled

/-- How far a node stands right of where it wants to grows from neighbour to neighbour, by what their wishes are too
close. -/
theorem pushed_next {d : Rat} {want x : String → Rat} {a b : String} (h : x b = x a + max d (want b - want a)) :
    x b - want b = x a - want a + max (d - (want b - want a)) 0 := by
  rw [h, max_def, max_def]
  split <;> split <;> linarith

section Pushed

variable {d : Rat} {want x : String → Rat} {a : String} {ids : List String}
  (h : (a :: ids).IsChain fun a b => x b = x a + max d (want b - want a))
include h

theorem le_pushed : ∀ id ∈ a :: ids, x a - want a ≤ x id - want id := by
  induction ids generalizing a with
  | nil => simp
  | cons b ids ih =>
    obtain ⟨hb, hrest⟩ := List.isChain_cons_cons.mp h
    have hpush := pushed_next hb
    have hgrow := le_max_right (d - (want b - want a)) 0
    intro id hid
    rcases List.mem_cons.mp hid with rfl | hid
    · exact le_refl _
    · have hle := ih hrest id hid
      linarith

theorem pushed_le (hd : 0 ≤ d) (hsorted : (a :: ids).IsChain fun a b => want a ≤ want b) :
    ∀ id ∈ a :: ids, x id - want id ≤ x a - want a + ids.length * d := by
  induction ids generalizing a with
  | nil => simp
  | cons b ids ih =>
    obtain ⟨hb, hrest⟩ := List.isChain_cons_cons.mp h
    obtain ⟨hab, hsorted⟩ := List.isChain_cons_cons.mp hsorted
    have hpush := pushed_next hb
    have hgrow : max (d - (want b - want a)) 0 ≤ d := max_le (by linarith) hd
    rw [List.length_cons, Nat.cast_succ]
    have hlength : 0 ≤ (ids.length : Rat) * d := by positivity
    intro id hid
    rcases List.mem_cons.mp hid with rfl | hid
    · linarith
    · have hle := ih hrest hsorted id hid
      linarith

theorem pushed_eq (hroom : (a :: ids).IsChain fun a b => want a + d ≤ want b) :
    ∀ id ∈ a :: ids, x id - want id = x a - want a := by
  induction ids generalizing a with
  | nil => simp
  | cons b ids ih =>
    obtain ⟨hb, hrest⟩ := List.isChain_cons_cons.mp h
    obtain ⟨hab, hroom⟩ := List.isChain_cons_cons.mp hroom
    have hpush := pushed_next hb
    rw [max_eq_right (by linarith), add_zero] at hpush
    intro id hid
    rcases List.mem_cons.mp hid with rfl | hid
    · rfl
    · rw [ih hrest hroom id hid, hpush]

end Pushed

namespace Settled

variable {d : Rat} {want x : String → Rat} {order : List String}

theorem le (h : Settled d want x order) : ∀ id ∈ order, want id ≤ x id := by
  cases order with
  | nil => simp
  | cons a ids =>
    intro id hid
    have hpushed := le_pushed h.next id hid
    rw [h.first a rfl] at hpushed
    linarith

theorem le_add (h : Settled d want x order) (hd : 0 ≤ d) (hsorted : order.Pairwise fun a b => want a ≤ want b) :
    ∀ id ∈ order, x id ≤ want id + (order.length - 1) * d := by
  cases order with
  | nil => simp
  | cons a ids =>
    intro id hid
    have hpushed := pushed_le h.next hd hsorted.isChain id hid
    rw [h.first a rfl] at hpushed
    rw [List.length_cons, Nat.cast_succ]
    linarith

theorem eq_of_room (h : Settled d want x order) (hroom : order.IsChain fun a b => want a + d ≤ want b) :
    ∀ id ∈ order, x id = want id := by
  cases order with
  | nil => simp
  | cons a ids =>
    intro id hid
    have hpushed := pushed_eq h.next hroom id hid
    rw [h.first a rfl] at hpushed
    linarith

theorem ascending (h : Settled d want x order) (hd : 0 < d) : order.Pairwise fun a b => x a < x b := by
  apply pairwise_of_isChain (· < ·) x
  apply h.next.imp
  intro a b hab
  have hleast := le_max_left d (want b - want a)
  linarith

end Settled

section Layers

variable {s : Spacing Rat} {parents : Table String (List String)}

theorem pushApart_settled (s : Spacing Rat) {want : String → Rat} {layer : List String} (hn : layer.Nodup)
    {xs : Table String Rat} (hxs : ∀ id ∈ layer, xs.get? id = some (want id)) :
    ∃ ys, s.pushApart (inOrder want layer) xs = .ok ys ∧ ys.keys = xs.keys ∧
      Settled s.minSpacing want (fun id => (ys.get? id).getD 0) (inOrder want layer) := by
  have hnodup := nodup_inOrder want hn
  have hwant : ∀ id ∈ inOrder want layer, xs.get? id = some (want id) :=
    fun id hid => hxs id (mem_inOrder.mp hid)
  cases horder : inOrder want layer with
  | nil => exact ⟨xs, rfl, rfl, by simp, .nil⟩
  | cons a ids =>
    rw [horder] at hnodup hwant
    have ha := hwant a (by simp)
    have hids : ids.map xs.get? = (ids.map want).map some := by
      rw [List.map_map]
      exact List.map_congr_left fun id hid => hwant id (List.mem_cons_of_mem a hid)
    obtain ⟨ys, hpush, hkeys, hkeep, hvalues⟩ := s.pushApart_spec hnodup ha hids
    have hfirst : (ys.get? a).getD 0 = want a := by
      rw [hkeep a (List.nodup_cons.mp hnodup).1, ha]
      rfl
    refine ⟨ys, hpush, hkeys, by simpa using hfirst, isChain_of_settle ?_⟩
    have hget := congrArg (List.map (Option.getD · 0)) hvalues
    rw [List.map_map, List.map_map] at hget
    simpa only [hfirst, List.map_id', Function.comp_def, Option.getD_some] using hget

theorem placeLayer_settled (s : Spacing Rat) (parents : Table String (List String))
    {above layer : List String} {t : Table String (Point Rat)}
    (ht : ∀ id, id ∈ t.keys ↔ id ∈ above) (hn : layer.Nodup) (k : Nat) :
    ∃ xs : Table String Rat, xs.keys.Perm layer ∧
      Settled s.minSpacing (s.wanted parents (xOf t) above layer) (fun id => (xs.get? id).getD 0)
        (inOrder (s.wanted parents (xOf t) above layer) layer) ∧
      s.placeLayer parents t (layer, k) = .ok (t.putAll (xs.entries.map fun e =>
        (e.1, ⟨e.2, s.baseY + k * s.levelSpacing⟩))) := by
  have hget : ∀ id ∈ layer, (s.initial parents t layer).get? id =
      some (s.wanted parents (xOf t) above layer id) := fun id hid => s.get?_initial ht hn hid
  obtain ⟨xs, hpush, hkeys, hsettled⟩ := s.pushApart_settled hn hget
  exact ⟨xs, hkeys ▸ s.keys_initial parents t hn, hsettled, placeLayer_eq_ok (ordered_inOrder hget) hpush k⟩

theorem Settles.concat {layers : List (List String)} {layer : List String} {x x' : String → Rat}
    (h : s.Settles parents layers x) (hx : ∀ id ∈ layers.flatten, x' id = x id)
    (hlayer : Settled s.minSpacing (s.wanted parents x layers.flatten layer) x'
      (inOrder (s.wanted parents x layers.flatten layer) layer)) : s.Settles parents (layers ++ [layer]) x' := by
  intro k l hl
  obtain hlt | rfl | hgt := Nat.lt_trichotomy k layers.length
  · rw [List.getElem?_append_left hlt] at hl
    have habove : ∀ id ∈ (layers.take k).flatten, x' id = x id := by
      intro id hid
      obtain ⟨l', hl', hid⟩ := List.mem_flatten.mp hid
      exact hx id (List.mem_flatten_of_mem (List.mem_of_mem_take hl') hid)
    rw [List.take_append_of_le_length hlt.le, wanted_congr habove]
    apply (h k l hl).congr
    intro id hid
    exact hx id (List.mem_flatten_of_mem (List.mem_of_getElem? hl) (mem_inOrder.mp hid))
  · obtain rfl : layer = l := by simpa using hl
    rw [List.take_left, wanted_congr hx]
    exact hlayer
  · rw [List.getElem?_eq_none (by rw [List.length_append, List.length_singleton]; omega)] at hl
    cases hl

theorem Settles.placeLayer {layers : List (List String)} {layer : List String} {t : Table String (Point Rat)}
    (h : s.Settles parents layers (xOf t)) (ht : t.keys.Perm layers.flatten)
    (hn : (layers ++ [layer]).flatten.Nodup) : ∃ t', s.placeLayer parents t (layer, layers.length) = .ok t' ∧
      t'.keys.Perm (layers ++ [layer]).flatten ∧ s.Settles parents (layers ++ [layer]) (xOf t') := by
  rw [List.flatten_append, List.flatten_singleton, List.nodup_append'] at hn
  obtain ⟨-, hlayer, hdisjoint⟩ := hn
  have hmem : ∀ id, id ∈ t.keys ↔ id ∈ layers.flatten := fun id => ht.mem_iff
  obtain ⟨xs, hkeys, hsettled, hplace⟩ := s.placeLayer_settled parents hmem hlayer layers.length
  have hnew : ∀ id ∈ xs.keys, id ∉ t.keys :=
    fun id hid hold => hdisjoint ((hmem id).mp hold) (hkeys.mem_iff.mp hid)
  obtain ⟨hkeys', hget⟩ := putAll_row (hkeys.nodup_iff.mpr hlayer) hnew (s.baseY + layers.length * s.levelSpacing)
  refine ⟨_, hplace, ?_, h.concat ?_ (hsettled.congr ?_)⟩
  · rw [hkeys', List.flatten_append, List.flatten_singleton]
    exact ht.append hkeys
  · intro id hid
    obtain ⟨p, hp⟩ := Table.exists_of_mem_keys ((hmem id).mpr hid)
    rw [xOf, xOf, hget, hp]
    rfl
  · intro id hid
    have hnone := (Table.get?_eq_none_iff t id).mpr (hnew id (hkeys.mem_iff.mpr (mem_inOrder.mp hid)))
    rw [xOf, hget, hnone]
    cases xs.get? id <;> rfl

theorem foldlM_settles (s : Spacing Rat) (parents : Table String (List String)) {layers : List (List String)}
    (hn : layers.flatten.Nodup) : ∃ t, layers.zipIdx.foldlM (s.placeLayer parents) .empty = .ok t ∧
      t.keys.Perm layers.flatten ∧ s.Settles parents layers (xOf t) := by
  induction layers using List.reverseRecOn with
  | nil => exact ⟨_, rfl, .refl _, by simp [Settles]⟩
  | append_singleton layers layer ih =>
    have hn' : layers.flatten.Nodup := by
      rw [List.flatten_append] at hn
      exact hn.of_append_left
    obtain ⟨t, ht, hkeys, hsettles⟩ := ih hn'
    obtain ⟨t', hplace, hkeys', hsettles'⟩ := hsettles.placeLayer hkeys hn
    exact ⟨t', foldlM_zipIdx_concat ht hplace, hkeys', hsettles'⟩

theorem mem_flatten_take {layers : List (List String)} {k : Nat} {id : String} :
    id ∈ (layers.take k).flatten ↔ ∃ j < k, ∃ layer, layers[j]? = some layer ∧ id ∈ layer := by
  rw [List.mem_flatten]
  constructor
  · rintro ⟨layer, hlayer, hid⟩
    obtain ⟨j, hj⟩ := List.mem_iff_getElem?.mp hlayer
    rw [List.getElem?_take] at hj
    split at hj
    · exact ⟨j, ‹_›, layer, hj, hid⟩
    · cases hj
  · rintro ⟨j, hj, layer, hlayer, hid⟩
    refine ⟨layer, List.mem_iff_getElem?.mpr ⟨j, ?_⟩, hid⟩
    rw [List.getElem?_take_of_lt hj, hlayer]

theorem Settles.unique {layers : List (List String)} {x x' : String → Rat} (h : s.Settles parents layers x)
    (h' : s.Settles parents layers x') : ∀ id ∈ layers.flatten, x' id = x id := by
  suffices hlayers : ∀ (k : Nat) layer, layers[k]? = some layer → ∀ id ∈ layer, x' id = x id by
    intro id hid
    obtain ⟨layer, hlayer, hid⟩ := List.mem_flatten.mp hid
    obtain ⟨k, hk⟩ := List.mem_iff_getElem?.mp hlayer
    exact hlayers k layer hk id hid
  intro k
  -- What a layer wants depends on where the layers above it stand, on no more.
  induction k using Nat.strongRecOn with
  | ind k ih =>
    intro layer hlayer id hid
    have habove : ∀ above ∈ (layers.take k).flatten, x' above = x above := by
      intro above hmem
      obtain ⟨j, hj, l, hl, hmem⟩ := mem_flatten_take.mp hmem
      exact ih j hj l hl above hmem
    have hsettled := h' k layer hlayer
    rw [wanted_congr habove] at hsettled
    exact (h k layer hlayer).unique hsettled id (mem_inOrder.mpr hid)

end Layers

/-- The left sides of the boxes of nodes at the given places. -/
def boxLefts (kinds : Table String Kind) (ids : List String) (x : String → Rat) : Set Rat :=
  {left | ∃ id ∈ ids, ∃ kind, kinds.get? id = some kind ∧ left = x id - (kind.width : Rat) / 2}

/-- Where all nodes stand: each layer has settled at the height of its level, and then all are moved right as far as
the leftmost box is over the left margin. -/
structure Standing (s : Spacing Rat) (layers : List (List String)) (parents : Table String (List String))
    (kinds : Table String Kind) (t : Table String (Point Rat)) (x : String → Rat) (shift : Rat) : Prop where
  keys : t.keys.Perm layers.flatten
  settles : s.Settles parents layers x
  place : ∀ (k : Nat) layer, layers[k]? = some layer → ∀ id ∈ layer,
    t.get? id = some ⟨x id + shift, s.baseY + k * s.levelSpacing⟩
  margin : layers.flatten ≠ [] →
    ∃ left, IsLeast (boxLefts kinds layers.flatten x) left ∧ shift = max 0 (s.leftMargin - left)

section Positions

variable {s : Spacing Rat} {layers : List (List String)} {parents : Table String (List String)}
  {kinds : Table String Kind}

theorem mem_lefts {t : Table String (Point Rat)} {ids : List String} (hn : ids.Nodup) (ht : t.keys.Perm ids)
    (hk : ∀ id ∈ ids, ∃ kind, kinds.get? id = some kind) (left : Rat) :
    left ∈ lefts kinds t ↔ left ∈ boxLefts kinds ids (xOf t) := by
  have hnodup := ht.nodup_iff.mpr hn
  rw [lefts, List.mem_map]
  constructor
  · rintro ⟨⟨id, p⟩, he, rfl⟩
    have hid : id ∈ ids := ht.mem_iff.mp (List.mem_map_of_mem he)
    obtain ⟨kind, hkind⟩ := hk id hid
    refine ⟨id, hid, kind, hkind, ?_⟩
    simp only [xOf, (Table.get?_eq_some_iff hnodup id p).mpr he, hkind]
    rfl
  · rintro ⟨id, hid, kind, hkind, rfl⟩
    obtain ⟨p, hp⟩ := Table.exists_of_mem_keys (ht.mem_iff.mpr hid)
    refine ⟨(id, p), Table.mem_entries_of_get? hp, ?_⟩
    simp only [xOf, hp, hkind]
    rfl

theorem deficit_least (s : Spacing Rat) {t : Table String (Point Rat)} {ids : List String} (hn : ids.Nodup)
    (ht : t.keys.Perm ids) (hk : ∀ id ∈ ids, ∃ kind, kinds.get? id = some kind) :
    ∃ shift, s.deficit kinds t = .ok shift ∧ (ids ≠ [] →
      ∃ left, IsLeast (boxLefts kinds ids (xOf t)) left ∧ shift = max 0 (s.leftMargin - left)) := by
  have hmem := mem_lefts hn ht hk
  refine ⟨_, s.deficit_eq fun id hid => hk id (ht.mem_iff.mp hid), fun hne => ?_⟩
  cases hlefts : lefts kinds t with
  | nil =>
    obtain ⟨id, hid⟩ := List.exists_mem_of_ne_nil _ hne
    obtain ⟨kind, hkind⟩ := hk id hid
    have hleft := (hmem _).mpr ⟨id, hid, kind, hkind, rfl⟩
    rw [hlefts] at hleft
    cases hleft
  | cons left rest =>
    obtain ⟨hleast, hle⟩ := Scalar.least_spec left rest
    rw [← hlefts] at hleast hle
    exact ⟨_, ⟨(hmem _).mp hleast, fun l hl => hle l ((hmem l).mpr hl)⟩, rfl⟩

theorem positions_standing (hs : 0 ≤ s.minSpacing) (hn : layers.flatten.Nodup) (parents : Table String (List String))
    (hk : ∀ id ∈ layers.flatten, ∃ kind, kinds.get? id = some kind) :
    ∃ placed t shift, layers.zipIdx.foldlM (s.placeLayer parents) .empty = .ok placed ∧
      s.positions layers parents kinds = .ok t ∧ s.Standing layers parents kinds t (xOf placed) shift := by
  obtain ⟨placed, hplaced, hkeys, hsettles⟩ := s.foldlM_settles parents hn
  obtain ⟨placed', hplaced', hrows⟩ := foldlM_placeLayer hs parents hn
  obtain rfl : placed = placed' := Except.ok.inj (hplaced.symm.trans hplaced')
  obtain ⟨shift, hshift, hmargin⟩ := s.deficit_least hn hkeys hk
  refine ⟨placed, _, shift, hplaced, positions_eq_ok hplaced hshift, ?_, hsettles, ?_, hmargin⟩
  · rw [Table.keys, List.map_map]
    exact hkeys
  · intro k layer hlayer id hid
    obtain ⟨p, hp, hy⟩ := hrows.height k layer hlayer id hid
    rw [Table.get?_map (fun _ (p : Point Rat) => (⟨p.x + shift, p.y⟩ : Point Rat)), xOf, hp, ← hy]
    rfl

theorem minSpacing_pos {c : Config Rat} (hc : c.check = .ok s) : 0 < s.minSpacing := by
  obtain ⟨hmin, -, -, -, rfl⟩ := (c.check_eq_ok s).mp hc
  show 0 < c.minSpacing.exact
  linarith

/-- Accepted settings put all nodes where they come to stand, and they can come to stand in one way only. None
stands left of where it wants to, and the nodes of a layer keep the order of what they want. -/
theorem positions_closed {c : Config Rat} {s : Spacing Rat} (hc : c.check = .ok s) (hn : layers.flatten.Nodup)
    (parents : Table String (List String)) (hk : ∀ id ∈ layers.flatten, ∃ kind, kinds.get? id = some kind) :
    ∃ t x shift, s.positions layers parents kinds = .ok t ∧ s.Standing layers parents kinds t x shift ∧
      (∀ x', s.Settles parents layers x' → ∀ id ∈ layers.flatten, x' id = x id) ∧
      ∀ (k : Nat) layer, layers[k]? = some layer →
        let want := s.wanted parents x (layers.take k).flatten layer
        (∀ id ∈ layer, want id ≤ x id) ∧ (inOrder want layer).Pairwise fun a b => x a < x b := by
  have hs := minSpacing_pos hc
  obtain ⟨placed, t, shift, -, ht, hstanding⟩ := positions_standing hs.le hn parents hk
  refine ⟨t, xOf placed, shift, ht, hstanding, fun x' hx' => hstanding.settles.unique hx', ?_⟩
  intro k layer hlayer
  have hsettled := hstanding.settles k layer hlayer
  constructor
  · intro id hid
    exact hsettled.le id (mem_inOrder.mpr hid)
  · exact hsettled.ascending hs

/-- Two nodes want to stand below their parent: the first of them does, and the other one stands right of it. -/
theorem positions_closed_tie : ∃ (t : Table String (Point Rat)) (x : String → Rat) (shift : Rat),
    positions ⟨150, 120, 100, 60, 20⟩ [["p"], ["a", "b"]] ⟨[("p", ["b"]), ("a", ["p"]), ("b", ["a", "p"])]⟩
      ⟨[("p", .task), ("a", .gateway), ("b", .task)]⟩ = .ok t ∧ x "p" = 100 ∧ x "a" = 100 ∧ x "b" = 250 ∧
      t.get? "b" = some ⟨x "b" + shift, 180⟩ := by
  have hc : ({} : Config Rat).check = .ok ⟨150, 120, 100, 60, 20⟩ := by
    apply (Config.check_eq_ok {} _).mpr
    refine ⟨?_, ?_, ?_, ?_, rfl⟩ <;> norm_num [Quantity.exact]
  have hn : [["p"], ["a", "b"]].flatten.Nodup := by decide
  have hk : ∀ id ∈ [["p"], ["a", "b"]].flatten, ∃ kind,
      (Table.mk [("p", Kind.task), ("a", .gateway), ("b", .task)]).get? id = some kind := by
    simp [Table.get?, Table.lookup]
  obtain ⟨t, x, shift, ht, hstanding, -, -⟩ := positions_closed hc hn
    ⟨[("p", ["b"]), ("a", ["p"]), ("b", ["a", "p"])]⟩ hk
  have hp : x "p" = 100 := by
    rw [(hstanding.settles 0 ["p"] rfl).first "p" (by simp [inOrder])]
    simp [wanted, parentless, parentsIn, Table.get?, Table.lookup]
  obtain ⟨want, hwant⟩ : ∃ want, want = wanted ⟨150, 120, 100, 60, 20⟩
      ⟨[("p", ["b"]), ("a", ["p"]), ("b", ["a", "p"])]⟩ x ["p"] ["a", "b"] := ⟨_, rfl⟩
  have hrow : Settled 150 want x (inOrder want ["a", "b"]) := hwant ▸ hstanding.settles 1 _ rfl
  have hwa : want "a" = 100 := by simp [hwant, wanted, parentsIn, Table.get?, Table.lookup, hp]
  have hwb : want "b" = 100 := by simp [hwant, wanted, parentsIn, Table.get?, Table.lookup, hp]
  rw [inOrder_of_sorted (by simp [hwa, hwb])] at hrow
  have ha : x "a" = 100 := (hrow.first "a" rfl).trans hwa
  have hb : x "b" = 250 := by
    rw [(List.isChain_cons_cons.mp hrow.next).1, ha, hwa, hwb]
    norm_num
  refine ⟨t, x, shift, ht, hp, ha, hb, ?_⟩
  rw [hstanding.place 1 ["a", "b"] rfl "b" (by simp)]
  norm_num

end Positions

end FlowDiagram.Spacing
