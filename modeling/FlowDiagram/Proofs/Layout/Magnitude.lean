import FlowDiagram.Proofs.Float.Bounds
import FlowDiagram.Proofs.Layout.Placement

namespace FlowDiagram.Spacing

open Binary64

variable {s : Spacing Float}

/-- Of two nodes the second has its place no more than so many units left of the first. -/
def Lagging (σ : Nat) (xs : Table String Float) (i j : String) : Prop :=
  ∀ x y a b, xs.get? i = some x → xs.get? j = some y → Amounts x a → Amounts y b → a ≤ b + σ

/-- The node has a place, no further out than so many units. -/
def PlacedWithin (m : Nat) (xs : Table String Float) (id : String) : Prop := ∃ x, xs.get? id = some x ∧ Within m x

/-- The table after a push: the node b is set down right of a, those beyond it have moved by the step. -/
structure Pushed (s : Spacing Float) (a b : String) (rest : List String) (x step : Float)
    (xs ys : Table String Float) : Prop where
  set : ys.get? b = some (x + s.minSpacing)
  moved : ∀ id ∈ rest, ys.get? id = (xs.get? id).map (· + step)
  kept : ∀ id ∉ b :: rest, ys.get? id = xs.get? id
  keys : ys.keys = xs.keys

theorem pushApart_step {a b : String} {rest : List String} (hn : (a :: b :: rest).Nodup) {xs : Table String Float}
    (h : ∀ id ∈ a :: b :: rest, id ∈ xs.keys) {x y : Float} (hx : xs.get? a = some x) (hy : xs.get? b = some y) :
    (Scalar.lt (y - x) s.minSpacing = true ∧ ∃ ys, Pushed s a b rest x (s.minSpacing - (y - x)) xs ys ∧
      s.pushApart (a :: b :: rest) xs = s.pushApart (b :: rest) ys) ∨
    s.pushApart (a :: b :: rest) xs = s.pushApart (b :: rest) xs := by
  have hn' := List.nodup_cons.mp hn
  have hpush : s.pushApart (a :: b :: rest) xs = if Scalar.lt (y - x) s.minSpacing then do
        let moved ← moveRight (s.minSpacing - (y - x)) (b :: rest) xs
        s.pushApart (b :: rest) (moved.put b ((← moved.find a) + s.minSpacing))
      else s.pushApart (b :: rest) xs := by
    rw [pushApart, Table.find_eq_ok hx, Table.find_eq_ok hy]
    rfl
  by_cases hgap : Scalar.lt (y - x) s.minSpacing = true
  · left
    obtain ⟨moved, hmove, hkeys, hget⟩ := moveRight_spec (s.minSpacing - (y - x)) hn'.2 xs
      fun id hid => h id (List.mem_cons_of_mem _ hid)
    have ha : moved.get? a = some x := by rw [hget, if_neg hn'.1, hx]
    have hb : b ∈ moved.keys := hkeys ▸ h b (by simp)
    refine ⟨hgap, moved.put b (x + s.minSpacing), ⟨?_, ?_, ?_, ?_⟩, ?_⟩
    · rw [Table.get?_put, if_pos rfl]
    · intro id hid
      have hne : b ≠ id := fun he => (List.nodup_cons.mp hn'.2).1 (he ▸ hid)
      rw [Table.get?_put, if_neg hne, hget, if_pos (List.mem_cons_of_mem _ hid)]
    · intro id hid
      have hne : b ≠ id := fun he => hid (he ▸ List.mem_cons_self ..)
      rw [Table.get?_put, if_neg hne, hget, if_neg hid]
    · rw [Table.keys_put, if_pos hb, hkeys]
    · rw [hpush, if_pos hgap, hmove]
      change (moved.find a).bind _ = _
      rw [Table.find_eq_ok ha]
      rfl
  · right
    rw [hpush, if_neg hgap]

theorem step_amounts {x y : Float} {p q d : Rat} {m σ : Nat} (hx : Amounts x p) (hy : Amounts y q)
    (hs : Amounts s.minSpacing d) (hd : |d| ≤ 3) (hp : |p| ≤ m) (hq : |q| ≤ m) (hlag : p ≤ q + σ)
    (hcap : m + σ ≤ 2 ^ 50) (hgap : Scalar.lt (y - x) s.minSpacing = true) :
    ∃ t, Amounts (s.minSpacing - (y - x)) t ∧ d - (q - p) - 2 ≤ t ∧ -1 ≤ t ∧ t ≤ σ + 5 := by
  have hcap' : (m : Rat) + σ ≤ 2 ^ 50 := by exact_mod_cast hcap
  have hσ : (0 : Rat) ≤ σ := Nat.cast_nonneg σ
  rw [abs_le] at hd hp hq
  obtain ⟨g, hg, hgerror⟩ := hy.sub hx (by rw [abs_le]; constructor <;> linarith)
  rw [abs_le] at hgerror
  obtain ⟨t, ht, hterror⟩ := hs.sub hg (by rw [abs_le]; constructor <;> linarith)
  have hlt := (hg.lt hs).mp hgap
  rw [abs_le] at hterror
  refine ⟨t, ht, ?_, ?_, ?_⟩ <;> linarith

/-- A push moves nodes by some units, and adds a few units to the lag. -/
theorem Pushed.within {a b : String} {rest : List String} {x y : Float} {xs ys : Table String Float} {d : Rat}
    {m σ : Nat} (h : Pushed s a b rest x (s.minSpacing - (y - x)) xs ys)
    (hs : Amounts s.minSpacing d) (hd : |d| ≤ 3) (hx : xs.get? a = some x) (hy : xs.get? b = some y)
    (hgap : Scalar.lt (y - x) s.minSpacing = true)
    (hplaced : ∀ id ∈ a :: b :: rest, PlacedWithin m xs id)
    (hlag : (a :: b :: rest).Pairwise (Lagging σ xs)) (hcap : m + σ ≤ 2 ^ 50) :
    (∀ id ∈ b :: rest, PlacedWithin (m + σ + 6) ys id) ∧ (b :: rest).Pairwise (Lagging (σ + 4) ys) := by
  obtain ⟨x', hx', p, hp, hpm⟩ := hplaced a (by simp)
  obtain ⟨y', hy', q, hq, hqm⟩ := hplaced b (by simp)
  obtain rfl := Option.some.inj (hx'.symm.trans hx)
  obtain rfl := Option.some.inj (hy'.symm.trans hy)
  rw [List.pairwise_cons, List.pairwise_cons] at hlag
  obtain ⟨hlaga, hlagb, hrest⟩ := hlag
  have hpq := hlaga b (by simp) x' y' p q hx hy hp hq
  obtain ⟨t, ht, htlow, htpos, hthigh⟩ := step_amounts hp hq hs hd hpm hqm hpq hcap hgap
  have hcap' : (m : Rat) + σ ≤ 2 ^ 50 := by exact_mod_cast hcap
  have hσ : (0 : Rat) ≤ σ := Nat.cast_nonneg σ
  rw [abs_le] at hd hpm hqm
  obtain ⟨q', hq', hq'error⟩ := hp.add hs (by rw [abs_le]; constructor <;> linarith)
  rw [abs_le] at hq'error
  have hmoved : ∀ id ∈ rest, ∃ z r r', xs.get? id = some z ∧ Amounts z r ∧ |r| ≤ m ∧
      ys.get? id = some (z + (s.minSpacing - (y' - x'))) ∧ Amounts (z + (s.minSpacing - (y' - x'))) r' ∧
      |r' - (r + t)| ≤ 1 := by
    intro id hid
    obtain ⟨z, hz, r, hr, hrm⟩ := hplaced id (by simp [hid])
    have hrm' := abs_le.mp hrm
    obtain ⟨r', hr', herror⟩ := hr.add ht (by rw [abs_le]; constructor <;> linarith)
    exact ⟨z, r, r', hz, hr, hrm, by rw [h.moved id hid, hz]; rfl, hr', herror⟩
  refine ⟨?_, List.pairwise_cons.mpr ⟨?_, ?_⟩⟩
  · intro id hid
    obtain rfl | hid := List.mem_cons.mp hid
    · refine ⟨_, h.set, q', hq', ?_⟩
      rw [abs_le]
      push_cast
      constructor <;> linarith
    · obtain ⟨z, r, r', hz, hr, hrm, hget, hr', herror⟩ := hmoved id hid
      refine ⟨_, hget, r', hr', ?_⟩
      rw [abs_le] at hrm herror ⊢
      push_cast
      constructor <;> linarith
  · intro id hid u v a b hu hv ha hb
    obtain ⟨z, r, r', hz, hr, hrm, hget, hr', herror⟩ := hmoved id hid
    obtain rfl := Option.some.inj (hu.symm.trans h.set)
    obtain rfl := Option.some.inj (hv.symm.trans hget)
    obtain rfl := ha.unique hq'
    obtain rfl := hb.unique hr'
    have hqr := hlagb id hid y' z q r hy hz hq hr
    rw [abs_le] at herror
    push_cast
    linarith
  · refine hrest.imp_of_mem ?_
    intro i j hi hj hij u v a b hu hv ha hb
    obtain ⟨z, r, r', hz, hr, hrm, hget, hr', herror⟩ := hmoved i hi
    obtain ⟨w, k, k', hw, hk, hkm, hget', hk', herror'⟩ := hmoved j hj
    obtain rfl := Option.some.inj (hu.symm.trans hget)
    obtain rfl := Option.some.inj (hv.symm.trans hget')
    obtain rfl := ha.unique hr'
    obtain rfl := hb.unique hk'
    have hle := hij z w r k hz hw hr hk
    rw [abs_le] at herror herror'
    push_cast
    linarith

/-- How far out n nodes get that lag so much and start within m. -/
def spread (m σ n : Nat) : Nat := m + n * (σ + 2 * n + 4)

theorem spread_succ (m σ n : Nat) : spread (m + σ + 6) (σ + 4) n = spread m σ (n + 1) := by
  rw [spread, spread]
  ring

theorem le_spread (m σ n : Nat) : m ≤ spread m σ n := Nat.le_add_right ..

theorem add_le_spread (m σ n : Nat) : m + σ ≤ spread m σ (n + 1) := by
  have hle : σ + 2 * (n + 1) + 4 ≤ (n + 1) * (σ + 2 * (n + 1) + 4) := Nat.le_mul_of_pos_left _ (Nat.succ_pos n)
  rw [spread]
  omega

theorem spread_mono (m σ n : Nat) : spread m σ n ≤ spread m σ (n + 1) := by
  rw [spread, spread]
  gcongr <;> omega

theorem pushApart_within {d : Rat} (hs : Amounts s.minSpacing d) (hd : |d| ≤ 3) {ids : List String}
    (hn : ids.Nodup) {xs : Table String Float} {m σ : Nat} (hplaced : ∀ id ∈ ids, PlacedWithin m xs id)
    (hlag : ids.Pairwise (Lagging σ xs)) (hcap : spread m σ ids.length ≤ 2 ^ 50) :
    ∃ ys, s.pushApart ids xs = .ok ys ∧ ys.keys = xs.keys ∧ (∀ id ∉ ids, ys.get? id = xs.get? id) ∧
      ∀ id ∈ ids, PlacedWithin (spread m σ ids.length) ys id := by
  -- A push spends the share of one node: the places spread, and the lag of the rest grows.
  induction ids generalizing xs m σ with
  | nil => exact ⟨xs, rfl, rfl, fun _ _ => rfl, by simp⟩
  | cons a ids ih =>
    cases ids with
    | nil =>
      refine ⟨xs, rfl, rfl, fun _ _ => rfl, fun id hid => ?_⟩
      obtain ⟨x, hx, hwithin⟩ := hplaced id hid
      exact ⟨x, hx, hwithin.mono (le_spread ..)⟩
    | cons b rest =>
      have hn' := List.nodup_cons.mp hn
      have hpresent : ∀ id ∈ a :: b :: rest, id ∈ xs.keys := by
        intro id hid
        obtain ⟨x, hx, -⟩ := hplaced id hid
        rw [← Table.get?_isSome, hx]
        rfl
      obtain ⟨x, hx, hxm⟩ := hplaced a (by simp)
      obtain ⟨y, hy, hym⟩ := hplaced b (by simp)
      rw [List.length_cons] at hcap
      have hm := le_spread m σ ((b :: rest).length + 1)
      -- The first node stays where it is.
      have hfirst {ys zs : Table String Float} (hkept : ∀ id ∉ b :: rest, ys.get? id = xs.get? id)
          (hkept' : ∀ id ∉ b :: rest, zs.get? id = ys.get? id) :
          PlacedWithin (spread m σ ((b :: rest).length + 1)) zs a :=
        ⟨x, by rw [hkept' a hn'.1, hkept a hn'.1, hx], hxm.mono hm⟩
      obtain ⟨hgap, ys, hpushed, hstep⟩ | hstep := pushApart_step (s := s) hn hpresent hx hy
      · have hmσ := add_le_spread m σ (b :: rest).length
        obtain ⟨hplaced', hlag'⟩ := hpushed.within hs hd hx hy hgap hplaced hlag (hmσ.trans hcap)
        rw [← spread_succ] at hcap
        obtain ⟨zs, hzs, hkeys, hkept, hwithin⟩ := ih hn'.2 hplaced' hlag' hcap
        rw [spread_succ] at hwithin
        refine ⟨zs, hstep.trans hzs, hkeys.trans hpushed.keys, ?_, ?_⟩
        · intro id hid
          have hid' : id ∉ b :: rest := fun hmem => hid (List.mem_cons_of_mem _ hmem)
          rw [hkept id hid', hpushed.kept id hid']
        · intro id hid
          obtain rfl | hid := List.mem_cons.mp hid
          · exact hfirst hpushed.kept hkept
          · exact hwithin id hid
      · have hmono := spread_mono m σ (b :: rest).length
        obtain ⟨zs, hzs, hkeys, hkept, hwithin⟩ := ih hn'.2 (fun id hid => hplaced id (List.mem_cons_of_mem _ hid))
          (List.pairwise_cons.mp hlag).2 (hmono.trans hcap)
        refine ⟨zs, hstep.trans hzs, hkeys, ?_, ?_⟩
        · intro id hid
          exact hkept id fun hmem => hid (List.mem_cons_of_mem _ hmem)
        · intro id hid
          obtain rfl | hid := List.mem_cons.mp hid
          · exact hfirst (fun _ _ => rfl) hkept
          · obtain ⟨z, hz, hzm⟩ := hwithin id hid
            exact ⟨z, hz, hzm.mono hmono⟩

theorem PlacedWithin.mem_keys {m : Nat} {xs : Table String Float} {id : String} (h : PlacedWithin m xs id) :
    id ∈ xs.keys := by
  obtain ⟨x, hx, -⟩ := h
  rw [← Table.get?_isSome, hx]
  rfl

theorem ranks_amounts {β : Type} {f : β → Float} (h : ∀ b, ∃ a, Amounts (f b) a) :
    Sorting.Ranks fun b c => Scalar.lt (f b) (f c) := by
  have hlt {b c : β} {x y : Rat} (hb : Amounts (f b) x) (hc : Amounts (f c) y) :
      Scalar.lt (f b) (f c) = false ↔ y ≤ x := by
    rw [Bool.eq_false_iff, ne_eq, hb.lt hc, not_lt]
  constructor
  · intro b c hbc
    obtain ⟨x, hx⟩ := h b
    obtain ⟨y, hy⟩ := h c
    exact (hlt hy hx).mpr ((hx.lt hy).mp hbc).le
  · intro b c d hcb hdc
    obtain ⟨x, hx⟩ := h b
    obtain ⟨y, hy⟩ := h c
    obtain ⟨z, hz⟩ := h d
    exact (hlt hz hx).mpr (((hlt hy hx).mp hcb).trans ((hlt hz hy).mp hdc))

theorem ordered_lagging {layer : List String} {xs : Table String Float} {m : Nat}
    (h : ∀ id ∈ layer, PlacedWithin m xs id) :
    ∃ order, ordered layer xs = .ok order ∧ order.Perm layer ∧ order.Pairwise (Lagging 0 xs) := by
  have hkeys : ∀ id ∈ layer, id ∈ xs.keys := fun id hid => (h id hid).mem_keys
  obtain ⟨order, horder, hperm⟩ := ordered_spec hkeys
  refine ⟨order, horder, hperm, ?_⟩
  rw [ordered_eq hkeys] at horder
  obtain rfl := Except.ok.inj horder
  -- Sorting the nodes of the layer alone: only they are known to have finite places.
  let place (id : String) : Float := (xs.get? id).getD ((0 : Nat) : Float)
  have hplace (i : {id // id ∈ layer}) : ∃ a, Amounts (place i.1) a := by
    obtain ⟨x, hx, a, ha, -⟩ := h i.1 i.2
    refine ⟨a, ?_⟩
    simp only [place, hx]
    exact ha
  have hkeyed : layer.map (fun id => (place id, id)) = layer.attach.map fun i => (place i.1, i.1) :=
    (List.attach_map_val ..).symm
  have hsort : Sorting.sort (fun a b : Float × String => Scalar.lt a.1 b.1)
      (layer.attach.map fun i => (place i.1, i.1)) =
      (Sorting.sort (fun i j => Scalar.lt (place i.1) (place j.1)) layer.attach).map
        fun i => (place i.1, i.1) := Sorting.sort_map (fun _ _ => rfl) layer.attach
  change ((Sorting.sort _ (layer.map fun id => (place id, id))).map (·.2)).Pairwise _
  rw [hkeyed, hsort, List.map_map, List.pairwise_map]
  refine (Sorting.sort_sorted (ranks_amounts hplace) layer.attach).imp ?_
  intro i j hij x y a b hx hy ha hb
  change xs.get? i.1 = some x at hx
  change xs.get? j.1 = some y at hy
  simp only [place, hx, hy, Option.getD_some] at hij
  rw [Bool.eq_false_iff, ne_eq, hb.lt ha, not_lt] at hij
  simpa using hij

/-- The settings are a few units large at most. -/
structure Moderate (s : Spacing Float) : Prop where
  minSpacing : Within 3 s.minSpacing
  levelSpacing : Within 3 s.levelSpacing
  baseX : Within 3 s.baseX
  baseY : Within 3 s.baseY
  leftMargin : Within 3 s.leftMargin

theorem row_within (hs : s.Moderate) {ids : List String} (hcap : ids.length ≤ 2 ^ 16) :
    ∀ e ∈ s.row ids, Within (6 * ids.length + 6) e.2 := by
  intro e he
  obtain ⟨⟨id, i⟩, hi, rfl⟩ := List.mem_map.mp he
  have hlt : i < ids.length := by simpa using List.snd_lt_of_mem_zipIdx hi
  have hwidth : Within ((ids.length - 1) * 3 + 1) (((ids.length - 1 : Nat) : Float) * s.minSpacing) :=
    hs.minSpacing.natCast_mul (by omega) (by omega)
  have hoffset : Within ((ids.length - 1) * 3 + 2)
      (((ids.length - 1 : Nat) : Float) * s.minSpacing / ((2 : Nat) : Float)) :=
    (hwidth.mono (by omega)).div_natCast (by decide) (by decide) (by omega)
  have hstep : Within (i * 3 + 1) ((i : Float) * s.minSpacing) := hs.minSpacing.natCast_mul (by omega) (by omega)
  have hplace := (hs.baseX.add hstep (by omega)).sub hoffset (by omega)
  exact hplace.mono (by omega)

theorem mean_within {x : Float} {xs : List Float} {k : Nat} (h : ∀ y ∈ x :: xs, Within k y)
    (hcap : (x :: xs).length * (k + 1) ≤ 2 ^ 52) : Within (k + 2) (mean x xs) := by
  have hpos : 0 < (x :: xs).length := Nat.succ_pos _
  have hlength : (x :: xs).length ≤ (x :: xs).length * (k + 1) := Nat.le_mul_of_pos_right _ (Nat.succ_pos k)
  have hk : k + 1 ≤ (x :: xs).length * (k + 1) := Nat.le_mul_of_pos_left _ hpos
  exact (Within.sum h hcap).div_natCast hpos (by omega) (by omega)

def Fanned (n : Nat) (parents : Table String (List String)) : Prop :=
  ∀ id, ((parents.get? id).getD []).length ≤ n

def AllWithin (k : Nat) (t : Table String (Point Float)) : Prop := ∀ e ∈ t.entries, Within k e.2.x ∧ Within k e.2.y

theorem desired?_within {parents : Table String (List String)} {placed : Table String (Point Float)} {n k : Nat}
    (hparents : Fanned n parents) (hplaced : AllWithin k placed) (hcap : n * (k + 1) ≤ 2 ^ 52) {id : String}
    {x : Float} (h : desired? parents placed id = some x) : Within (k + 2) x := by
  have hlength : (parentXs parents placed id).length ≤ n := (List.length_filterMap_le _ _).trans (hparents id)
  have hwithin : ∀ y ∈ parentXs parents placed id, Within k y := by
    intro y hy
    obtain ⟨parent, -, hparent⟩ := List.mem_filterMap.mp hy
    obtain ⟨p, hp, rfl⟩ := Option.map_eq_some_iff.mp hparent
    exact (hplaced _ (Table.mem_entries_of_get? hp)).1
  rw [desired?] at h
  cases hxs : parentXs parents placed id with
  | nil =>
    rw [hxs] at h
    cases h
  | cons y ys =>
    rw [hxs] at h hlength hwithin
    obtain rfl := Option.some.inj h
    exact mean_within hwithin ((Nat.mul_le_mul_right _ hlength).trans hcap)

theorem initial_within (hs : s.Moderate) {parents : Table String (List String)}
    {placed : Table String (Point Float)} {layer : List String} {n k m : Nat} (hparents : Fanned n parents)
    (hplaced : AllWithin k placed)
    (hcap : n * (k + 1) ≤ 2 ^ 52) (hn : layer.Nodup) (hlayer : layer.length ≤ 2 ^ 16) (hk : k + 2 ≤ m)
    (hrow : 6 * layer.length + 6 ≤ m) : ∀ id ∈ layer, PlacedWithin m (s.initial parents placed layer) id := by
  intro id hid
  obtain ⟨x, hx⟩ := Table.exists_of_mem_keys ((s.keys_initial parents placed hn).mem_iff.mpr hid)
  refine ⟨x, hx, ?_⟩
  obtain hfirst | hrest := Table.mem_entries_putAll (Table.mem_entries_of_get? hx)
  · obtain hnone | hmean := Table.mem_entries_putAll hfirst
    · cases hnone
    · obtain ⟨id', -, hdesired⟩ := List.mem_filterMap.mp hmean
      obtain ⟨y, hy, heq⟩ := Option.map_eq_some_iff.mp hdesired
      obtain ⟨-, rfl⟩ := Prod.mk.inj heq
      exact (desired?_within hparents hplaced hcap hy).mono hk
  · have hfilter := List.length_filter_le (fun id => (desired? parents placed id).isNone) layer
    exact (row_within hs (hfilter.trans hlayer) _ hrest).mono (by omega)

def reach (n : Nat) : Nat := 8 * n ^ 2 + 10

theorem reach_mono {m n : Nat} (h : m ≤ n) : reach m ≤ reach n := by
  rw [reach, reach]
  gcongr

theorem spread_le_reach {m n : Nat} (hn : 0 < n) :
    spread (max (reach m + 2) (6 * n + 6)) 0 n ≤ reach (m + n) := by
  have hsquare : 2 * n * 1 ≤ n ^ 2 + 1 ^ 2 := two_mul_le_add_sq n 1
  have hbinomial : (m + n) ^ 2 = m ^ 2 + 2 * m * n + n ^ 2 := by ring
  have hspread : n * (0 + 2 * n + 4) = 2 * n ^ 2 + 4 * n := by ring
  rw [spread, reach, reach, hbinomial, hspread]
  omega

theorem reach_lt {n : Nat} (h : n ≤ 2 ^ 16) : reach n < 2 ^ 36 :=
  (reach_mono h).trans_lt (by decide)

theorem placeLayer_within (hs : s.Moderate) {parents : Table String (List String)}
    (hparents : Fanned (2 ^ 16) parents) {placed : Table String (Point Float)} {layer : List String} {m k : Nat}
    (hplaced : AllWithin (reach m) placed)
    (hn : layer.Nodup) (hne : layer ≠ []) (hcap : m + layer.length ≤ 2 ^ 16) (hk : k ≤ m) :
    ∃ t, s.placeLayer parents placed (layer, k) = .ok t ∧ AllWithin (reach (m + layer.length)) t := by
  have hlayer : 0 < layer.length := List.length_pos_iff.mpr hne
  have hreach : reach m < 2 ^ 36 := reach_lt (by omega)
  have hstart := initial_within hs hparents hplaced (by omega) hn (by omega)
    (le_max_left (reach m + 2) (6 * layer.length + 6)) (le_max_right ..)
  have hkeys := s.keys_initial parents placed hn
  obtain ⟨order, horder, hperm, hlag⟩ := ordered_lagging hstart
  obtain ⟨d, hd, hd3⟩ := hs.minSpacing
  have hspread := spread_le_reach (m := m) hlayer
  have hreach' := reach_lt hcap
  obtain ⟨xs, hpush, hxs, -, hwithin⟩ := pushApart_within hd hd3 (hperm.nodup_iff.mpr hn)
    (fun id hid => hstart id (hperm.mem_iff.mp hid)) hlag (by rw [hperm.length_eq]; omega)
  have hxsperm : xs.keys.Perm layer := hxs ▸ hkeys
  refine ⟨_, placeLayer_eq_ok horder hpush k, ?_⟩
  intro e he
  obtain hold | hnew := Table.mem_entries_putAll he
  · obtain ⟨hx, hy⟩ := hplaced e hold
    have hmono := reach_mono (Nat.le_add_right m layer.length)
    exact ⟨hx.mono hmono, hy.mono hmono⟩
  · obtain ⟨⟨id, x⟩, hx, rfl⟩ := List.mem_map.mp hnew
    constructor
    · have hget := (Table.get?_eq_some_iff (hxsperm.nodup_iff.mpr hn) id x).mpr hx
      have hmem := hxsperm.mem_iff.mp (List.mem_map_of_mem hx)
      obtain ⟨x', hx', hle⟩ := hwithin id (hperm.mem_iff.mpr hmem)
      obtain rfl := Option.some.inj (hx'.symm.trans hget)
      exact hle.mono (hperm.length_eq ▸ hspread)
    · have hstep : Within (k * 3 + 1) ((k : Float) * s.levelSpacing) :=
        hs.levelSpacing.natCast_mul (by omega) (by omega)
      have hsquare := Nat.le_self_pow (n := 2) (by decide) (m + layer.length)
      refine (hs.baseY.add hstep (by omega)).mono ?_
      rw [reach]
      omega

theorem foldlM_within (hs : s.Moderate) {parents : Table String (List String)} (hparents : Fanned (2 ^ 16) parents)
    {layers : List (List String)} (hn : layers.flatten.Nodup) (hfilled : ∀ layer ∈ layers, layer ≠ [])
    (hcap : layers.flatten.length ≤ 2 ^ 16) :
    ∃ t, layers.zipIdx.foldlM (s.placeLayer parents) .empty = .ok t ∧ AllWithin (reach layers.flatten.length) t ∧
      layers.length ≤ layers.flatten.length := by
  induction layers using List.reverseRecOn with
  | nil =>
    refine ⟨_, rfl, ?_, Nat.le_refl _⟩
    intro e he
    cases he
  | append_singleton layers layer ih =>
    rw [List.flatten_append, List.flatten_singleton] at hn hcap ⊢
    rw [List.length_append] at hcap ⊢
    obtain ⟨t, ht, hwithin, hle⟩ := ih hn.of_append_left
      (fun l hl => hfilled l (List.mem_append_left _ hl)) (by omega)
    have hne : layer ≠ [] := hfilled layer (by simp)
    obtain ⟨t', ht', hwithin'⟩ := placeLayer_within hs hparents hwithin hn.of_append_right hne hcap hle
    refine ⟨t', foldlM_zipIdx_concat ht ht', hwithin', ?_⟩
    have hpos := List.length_pos_iff.mpr hne
    rw [List.length_append, List.length_singleton]
    omega

theorem deficit_within (hs : s.Moderate) {kinds : Table String Kind} {t : Table String (Point Float)}
    (hk : ∀ id ∈ t.keys, ∃ kind, kinds.get? id = some kind) {k : Nat} (ht : AllWithin k t) (hcap : k ≤ 2 ^ 50) :
    ∃ dx, s.deficit kinds t = .ok dx ∧ Within (k + 7) dx := by
  have hlefts : ∀ x ∈ t.entries.map fun e => e.2.x - (Scalar.half ((kinds.get? e.1).getD .task).width : Float),
      Within (k + 3) x := by
    intro x hx
    obtain ⟨e, he, rfl⟩ := List.mem_map.mp hx
    have hwidth := Kind.width_le ((kinds.get? e.1).getD .task)
    have hhalf : Within 2 (Scalar.half ((kinds.get? e.1).getD .task).width : Float) :=
      .half (hwidth.trans_lt (by decide))
    exact (ht e he).1.sub hhalf (by omega)
  rw [deficit, mapM_left hk]
  change ∃ dx, Except.bind (.ok (t.entries.map fun e => e.2.x -
    (Scalar.half ((kinds.get? e.1).getD .task).width : Float))) _ = _ ∧ _
  cases hl : t.entries.map fun e => e.2.x - (Scalar.half ((kinds.get? e.1).getD .task).width : Float) with
  | nil => exact ⟨_, rfl, Within.zero.mono (by omega)⟩
  | cons x xs =>
    rw [hl, List.forall_mem_cons] at hlefts
    have hleast := hlefts.1.least hlefts.2
    have hmissing := hs.leftMargin.sub hleast (by omega)
    exact ⟨_, rfl, (Within.zero.mono (by omega)).max (hmissing.mono (by omega))⟩

/-- All nodes are placed at numbers of a moderate size. -/
theorem positions_within (hs : s.Moderate) {parents : Table String (List String)}
    (hparents : Fanned (2 ^ 16) parents) {layers : List (List String)} (hn : layers.flatten.Nodup)
    (hfilled : ∀ layer ∈ layers, layer ≠ [])
    (hcap : layers.flatten.length ≤ 2 ^ 16) {kinds : Table String Kind}
    (hk : ∀ id ∈ layers.flatten, ∃ kind, kinds.get? id = some kind) :
    ∃ t, s.positions layers parents kinds = .ok t ∧ AllWithin (2 ^ 38) t := by
  obtain ⟨t, ht, hwithin, -⟩ := foldlM_within hs hparents hn hfilled hcap
  have hsame : SameParents Float layers parents parents := fun _ _ _ _ _ _ _ _ => rfl
  obtain ⟨t', ht', -, hkeys⟩ := s.foldlM_placeLayer_same hn hsame
  obtain rfl := Except.ok.inj (ht'.symm.trans ht)
  have hreach := reach_lt hcap
  obtain ⟨dx, hdx, hshift⟩ := deficit_within hs (fun id hid => hk id (hkeys.mem_iff.mp hid)) hwithin (by omega)
  refine ⟨_, positions_eq_ok ht hdx, ?_⟩
  intro e he
  obtain ⟨e', he', rfl⟩ := List.mem_map.mp he
  obtain ⟨hx, hy⟩ := hwithin e' he'
  exact ⟨(hx.add hshift (by omega)).mono (by omega), hy.mono (by omega)⟩

end FlowDiagram.Spacing
