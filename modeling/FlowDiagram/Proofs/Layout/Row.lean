import FlowDiagram.Proofs.Layout.Exact
import FlowDiagram.Proofs.Layout.Placement

namespace FlowDiagram.Spacing

/-- Where nodes with the given desired places come to stand, right of a neighbour at p that wanted
to stand at q. -/
def settle (d p q : Rat) : List Rat → List Rat
  | [] => []
  | y :: ys => (p + max d (y - q)) :: settle d (p + max d (y - q)) y ys

theorem settle_move (d p q step : Rat) (ys : List Rat) :
    settle d p (q + step) (ys.map (· + step)) = settle d p q ys := by
  induction ys generalizing p q with
  | nil => rfl
  | cons y ys ih =>
    have hd : y + step - (q + step) = y - q := by ring
    rw [List.map_cons, settle, settle, hd, ih]

theorem settle_pairwise {d : Rat} (hd : 0 ≤ d) (p q : Rat) (ys : List Rat) :
    (p :: settle d p q ys).Pairwise fun x y => x + d ≤ y := by
  induction ys generalizing p q with
  | nil => exact List.pairwise_singleton _ _
  | cons y ys ih =>
    have hp : p + d ≤ p + max d (y - q) := by
      have := le_max_left d (y - q)
      linarith
    have hs := ih (p + max d (y - q)) y
    rw [settle]
    refine List.pairwise_cons.mpr ⟨?_, hs⟩
    intro z hz
    obtain rfl | hz := List.mem_cons.mp hz
    · exact hp
    · have := (List.pairwise_cons.mp hs).1 z hz
      linarith

theorem mem_keys_of_map {ids : List String} {xs : Table String Rat} {ys : List Rat}
    (h : ids.map xs.get? = ys.map some) : ∀ id ∈ ids, id ∈ xs.keys := by
  intro id hid
  have hm : xs.get? id ∈ ids.map xs.get? := List.mem_map_of_mem hid
  rw [h] at hm
  obtain ⟨y, -, hy⟩ := List.mem_map.mp hm
  rw [← Table.get?_isSome, ← hy]
  rfl

theorem push_spec (step z : Rat) {b : String} {ids : List String} (hn : (b :: ids).Nodup)
    {xs : Table String Rat} {y : Rat} {ys : List Rat} (hb : xs.get? b = some y)
    (hy : ids.map xs.get? = ys.map some) :
    ∃ moved, moveRight step (b :: ids) xs = .ok moved ∧ (moved.put b z).keys = xs.keys ∧
      (∀ id, id ∉ b :: ids → moved.get? id = xs.get? id) ∧
      ids.map (moved.put b z).get? = (ys.map (· + step)).map some := by
  have hpresent : ∀ id ∈ b :: ids, id ∈ xs.keys := by
    have hall : (b :: ids).map xs.get? = (y :: ys).map some := by
      rw [List.map_cons, hb, hy, List.map_cons]
    exact mem_keys_of_map hall
  obtain ⟨moved, hm, hk, hv⟩ := moveRight_spec step hn xs hpresent
  refine ⟨moved, hm, ?_, ?_, ?_⟩
  · have hb' : b ∈ moved.keys := by
      rw [hk]
      exact hpresent b (List.mem_cons_self ..)
    rw [Table.keys_put, if_pos hb', hk]
  · intro id hid
    rw [hv, if_neg hid]
  · have he : ids.map (moved.put b z).get? = (ids.map xs.get?).map (Option.map (· + step)) := by
      rw [List.map_map]
      apply List.map_congr_left
      intro id hid
      have hne : b ≠ id := fun e => (List.nodup_cons.mp hn).1 (e ▸ hid)
      rw [Table.get?_put, if_neg hne, hv, if_pos (List.mem_cons_of_mem _ hid)]
      rfl
    rw [he, hy, List.map_map, List.map_map]
    rfl

theorem pushApart_cons (s : Spacing Rat) {a b : String} {xs : Table String Rat} {p y : Rat}
    (hp : xs.get? a = some p) (hb : xs.get? b = some y) (ids : List String) :
    s.pushApart (a :: b :: ids) xs =
      if y - p < s.minSpacing then do
        let moved ← moveRight (s.minSpacing - (y - p)) (b :: ids) xs
        s.pushApart (b :: ids) (moved.put b ((← moved.find a) + s.minSpacing))
      else s.pushApart (b :: ids) xs := by
  rw [pushApart, Table.find_eq_ok hb, Table.find_eq_ok hp]
  by_cases hlt : y - p < s.minSpacing
  · have hd : Scalar.lt (y - p) s.minSpacing = true := decide_eq_true hlt
    rw [if_pos hlt]
    exact if_pos hd
  · have hd : ¬ Scalar.lt (y - p) s.minSpacing = true := by simpa using hlt
    rw [if_neg hlt]
    exact if_neg hd

/-- The row comes to stand at the closed form, seen from the first node, which stays. -/
theorem pushApart_spec (s : Spacing Rat) {a : String} {ids : List String}
    (hn : (a :: ids).Nodup) {xs : Table String Rat} {p : Rat} {ys : List Rat}
    (hp : xs.get? a = some p) (hy : ids.map xs.get? = ys.map some) :
    ∃ xs', s.pushApart (a :: ids) xs = .ok xs' ∧ xs'.keys = xs.keys ∧
      (∀ id, id ∉ ids → xs'.get? id = xs.get? id) ∧
      ids.map xs'.get? = (settle s.minSpacing p p ys).map some := by
  induction ids generalizing a xs p ys with
  | nil =>
    obtain rfl : ys = [] := by simpa using hy.symm
    exact ⟨xs, rfl, rfl, fun _ _ => rfl, rfl⟩
  | cons b ids ih =>
    cases ys with
    | nil => simp at hy
    | cons y ys =>
      rw [List.map_cons, List.map_cons, List.cons.injEq] at hy
      obtain ⟨hb, hy⟩ := hy
      have hn' := List.nodup_cons.mp hn
      have hnb := List.nodup_cons.mp hn'.2
      rw [pushApart_cons s hp hb]
      -- A push moves all that lies beyond b by one step, and only differences count there.
      by_cases hlt : y - p < s.minSpacing
      · obtain ⟨moved, hm, hk, hold, hrest⟩ :=
          push_spec (s.minSpacing - (y - p)) (p + s.minSpacing) hn'.2 hb hy
        have hma : moved.get? a = some p := (hold a hn'.1).trans hp
        have hset : (moved.put b (p + s.minSpacing)).get? b = some (p + s.minSpacing) := by
          rw [Table.get?_put, if_pos rfl]
        obtain ⟨xs', hpush, hk', hkeep, hvals⟩ := ih hn'.2 hset hrest
        refine ⟨xs', ?_, hk'.trans hk, ?_, ?_⟩
        · rw [if_pos hlt, hm, ← hpush]
          change (moved.find a).bind _ = _
          rw [Table.find_eq_ok hma]
          rfl
        · intro id hid
          have hne : b ≠ id := fun e => hid (by simp [e])
          rw [hkeep id fun hi => hid (List.mem_cons_of_mem _ hi), Table.get?_put, if_neg hne,
            hold id hid]
        · have hmax : max s.minSpacing (y - p) = s.minSpacing := max_eq_left hlt.le
          have hy' : p + s.minSpacing = y + (s.minSpacing - (y - p)) := by ring
          rw [List.map_cons, hkeep b hnb.1, hset, hvals, settle, hmax, List.map_cons]
          congr 2
          nth_rewrite 2 [hy']
          exact settle_move ..
      · obtain ⟨xs', hpush, hk', hkeep, hvals⟩ := ih hn'.2 hb hy
        refine ⟨xs', ?_, hk', ?_, ?_⟩
        · rw [if_neg hlt, hpush]
        · intro id hid
          exact hkeep id fun hi => hid (List.mem_cons_of_mem _ hi)
        · have hmax : max s.minSpacing (y - p) = y - p := max_eq_right (not_lt.mp hlt)
          have hy' : p + (y - p) = y := by ring
          rw [List.map_cons, hkeep b hnb.1, hb, hvals, settle, hmax, hy', List.map_cons]

end FlowDiagram.Spacing
