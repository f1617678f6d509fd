import FlowDiagram.Sorting
import Mathlib.Data.List.Basic

namespace FlowDiagram.Sorting

variable {β : Type} {lt : β → β → Bool}

/-- The comparison is that of ranks, where several entries may share one. -/
structure Ranks (lt : β → β → Bool) : Prop where
  asymm : ∀ a b, lt a b = true → lt b a = false
  trans : ∀ a b c, lt b a = false → lt c b = false → lt c a = false

/-- No entry is smaller than one before it. -/
def Sorted (lt : β → β → Bool) (xs : List β) : Prop := xs.Pairwise fun a b => lt b a = false

theorem placeWithin_perm (x : β) (n : Nat) (xs : List β) :
    (placeWithin lt x n xs).Perm (x :: xs) := by
  induction n generalizing xs with
  | zero => rfl
  | succ n ih =>
    have hs := List.take_append_drop (xs.length / 2) xs
    rw [placeWithin]
    split
    · rename_i hd
      have hx : xs.length ≤ xs.length / 2 := List.drop_eq_nil_iff.mp hd
      have : xs = [] := List.eq_nil_of_length_eq_zero (by omega)
      rw [this]
    · rename_i p above hd
      rw [hd] at hs
      split
      · calc placeWithin lt x n (xs.take (xs.length / 2)) ++ p :: above
          _ |>.Perm (x :: xs.take (xs.length / 2) ++ p :: above) := (ih _).append_right _
          _ = x :: xs := by rw [List.cons_append, hs]
      · calc xs.take (xs.length / 2) ++ p :: placeWithin lt x n above
          _ |>.Perm (xs.take (xs.length / 2) ++ p :: x :: above) := ((ih above).cons p).append_left _
          _ |>.Perm (x :: (xs.take (xs.length / 2) ++ p :: above)) :=
            ((List.Perm.swap x p above).append_left _).trans List.perm_middle
          _ = x :: xs := by rw [hs]

theorem placeWithin_sorted (h : Ranks lt) (x : β) (n : Nat) (xs : List β) (hl : xs.length ≤ n)
    (hs : Sorted lt xs) : Sorted lt (placeWithin lt x n xs) := by
  induction n generalizing xs with
  | zero =>
    have : xs = [] := List.eq_nil_of_length_eq_zero (by omega)
    rw [this, placeWithin]
    exact List.pairwise_singleton _ _
  | succ n ih =>
    rw [placeWithin]
    split
    · exact List.pairwise_singleton _ _
    · rename_i p above hd
      have hx := List.take_append_drop (xs.length / 2) xs
      have hlen := congrArg List.length hd
      rw [List.length_drop, List.length_cons] at hlen
      rw [hd] at hx
      rw [Sorted, ← hx, List.pairwise_append, List.pairwise_cons] at hs
      obtain ⟨hlow, ⟨hp, hhigh⟩, hcross⟩ := hs
      split
      · rename_i hxp
        refine List.pairwise_append.mpr ⟨ih _ (by rw [List.length_take]; omega) hlow,
          List.pairwise_cons.mpr ⟨hp, hhigh⟩, ?_⟩
        intro a ha b hb
        rcases List.mem_cons.mp ((placeWithin_perm x n _).mem_iff.mp ha) with rfl | ha
        · rcases List.mem_cons.mp hb with rfl | hb
          · exact h.asymm _ _ hxp
          · exact h.trans _ _ _ (h.asymm _ _ hxp) (hp b hb)
        · exact hcross a ha b hb
      · rename_i hxp
        have hpx : lt x p = false := Bool.eq_false_iff.mpr hxp
        have above_mem {b : β} (hb : b ∈ placeWithin lt x n above) : lt b p = false := by
          rcases List.mem_cons.mp ((placeWithin_perm x n _).mem_iff.mp hb) with rfl | hb
          · exact hpx
          · exact hp b hb
        refine List.pairwise_append.mpr ⟨hlow, List.pairwise_cons.mpr
          ⟨fun b hb => above_mem hb, ih _ (by omega) hhigh⟩, ?_⟩
        intro a ha b hb
        rcases List.mem_cons.mp hb with rfl | hb
        · exact hcross a ha _ (by simp)
        · exact h.trans _ _ _ (hcross a ha p (by simp)) (above_mem hb)

theorem foldl_place_perm (run xs : List β) : (xs.foldl (place lt) run).Perm (run ++ xs) := by
  induction xs generalizing run with
  | nil => simp
  | cons x xs ih =>
    rw [List.foldl_cons]
    exact (ih _).trans (((placeWithin_perm x _ run).append_right xs).trans List.perm_middle.symm)

theorem foldl_place_sorted (h : Ranks lt) (run xs : List β) (hs : Sorted lt run) :
    Sorted lt (xs.foldl (place lt) run) := by
  induction xs generalizing run with
  | nil => exact hs
  | cons x xs ih => exact ih _ (placeWithin_sorted h x _ run (Nat.le_refl _) hs)

theorem ascending_append (a : β) (xs : List β) : (ascending lt a xs).1 ++ (ascending lt a xs).2 = xs := by
  induction xs generalizing a with
  | nil => rfl
  | cons x xs ih => by_cases h : lt x a = true <;> simp [ascending, h, ih]

theorem descending_append (a : β) (xs : List β) :
    (descending lt a xs).1 ++ (descending lt a xs).2 = xs := by
  induction xs generalizing a with
  | nil => rfl
  | cons x xs ih => by_cases h : lt x a = true <;> simp [descending, h, ih]

theorem leadingRun_split (lt : β → β → Bool) (xs : List β) :
    ∃ run, run.Perm (leadingRun lt xs).1 ∧ run ++ (leadingRun lt xs).2 = xs := by
  match xs with
  | [] => exact ⟨[], .refl _, rfl⟩
  | [a] => exact ⟨[a], .refl _, rfl⟩
  | a :: b :: xs =>
    rw [leadingRun]
    split
    · exact ⟨_, (List.reverse_perm _).symm, by simp [descending_append]⟩
    · exact ⟨_, .refl _, by simp [ascending_append]⟩

theorem leadingRun_perm (xs : List β) : ((leadingRun lt xs).1 ++ (leadingRun lt xs).2).Perm xs := by
  obtain ⟨run, hperm, hsplit⟩ := leadingRun_split lt xs
  exact (hperm.symm.append_right _).trans (.of_eq hsplit)

theorem ascending_sorted (h : Ranks lt) (a : β) (xs : List β) :
    Sorted lt (a :: (ascending lt a xs).1) := by
  induction xs generalizing a with
  | nil => exact List.pairwise_singleton _ _
  | cons x xs ih =>
    rw [ascending]
    split
    · exact List.pairwise_singleton _ _
    · rename_i hx
      have hxa : lt x a = false := Bool.eq_false_iff.mpr hx
      refine List.pairwise_cons.mpr ⟨?_, ih x⟩
      intro b hb
      rcases List.mem_cons.mp hb with rfl | hb
      · exact hxa
      · exact h.trans _ _ _ hxa ((List.pairwise_cons.mp (ih x)).1 b hb)

theorem descending_sorted (h : Ranks lt) (a : β) (xs : List β) :
    (a :: (descending lt a xs).1).Pairwise fun b c => lt b c = false := by
  induction xs generalizing a with
  | nil => exact List.pairwise_singleton _ _
  | cons x xs ih =>
    rw [descending]
    split
    · rename_i hx
      refine List.pairwise_cons.mpr ⟨?_, ih x⟩
      intro b hb
      rcases List.mem_cons.mp hb with rfl | hb
      · exact h.asymm _ _ hx
      · exact h.trans _ _ _ ((List.pairwise_cons.mp (ih x)).1 b hb) (h.asymm _ _ hx)
    · exact List.pairwise_singleton _ _

theorem leadingRun_sorted (h : Ranks lt) (xs : List β) : Sorted lt (leadingRun lt xs).1 := by
  match xs with
  | [] => exact List.Pairwise.nil
  | [a] => exact List.pairwise_singleton _ _
  | a :: b :: xs =>
    rw [leadingRun]
    split
    · rename_i hb
      have hd := descending_sorted h a (b :: xs)
      rw [descending, if_pos hb] at hd
      exact List.pairwise_reverse.mpr hd
    · rename_i hb
      have ha := ascending_sorted h a (b :: xs)
      rwa [ascending, if_neg hb] at ha

theorem sort_perm (xs : List β) : (sort lt xs).Perm xs :=
  (foldl_place_perm _ _).trans (leadingRun_perm xs)

theorem sort_sorted (h : Ranks lt) (xs : List β) : Sorted lt (sort lt xs) :=
  foldl_place_sorted h _ _ (leadingRun_sorted h xs)

section Map

variable {γ : Type} {lt' : γ → γ → Bool} {f : β → γ}

theorem placeWithin_map (h : ∀ a b, lt' (f a) (f b) = lt a b) (x : β) (n : Nat) (xs : List β) :
    placeWithin lt' (f x) n (xs.map f) = (placeWithin lt x n xs).map f := by
  induction n generalizing xs with
  | zero => rfl
  | succ n ih =>
    rw [placeWithin, placeWithin, List.length_map, ← List.map_drop, ← List.map_take]
    cases xs.drop (xs.length / 2) with
    | nil => rfl
    | cons p above =>
      simp only [List.map_cons, h, ih]
      split
      · rw [List.map_append, List.map_cons]
      · rw [List.map_append, List.map_cons]

theorem foldl_place_map (h : ∀ a b, lt' (f a) (f b) = lt a b) (run xs : List β) :
    (xs.map f).foldl (place lt') (run.map f) = (xs.foldl (place lt) run).map f := by
  induction xs generalizing run with
  | nil => rfl
  | cons x xs ih =>
    have hx : place lt' (run.map f) (f x) = (place lt run x).map f := by
      rw [place, place, List.length_map]
      exact placeWithin_map h x run.length run
    rw [List.map_cons, List.foldl_cons, List.foldl_cons, hx]
    exact ih (place lt run x)

theorem ascending_map (h : ∀ a b, lt' (f a) (f b) = lt a b) (a : β) (xs : List β) :
    ascending lt' (f a) (xs.map f) = ((ascending lt a xs).1.map f, (ascending lt a xs).2.map f) := by
  induction xs generalizing a with
  | nil => rfl
  | cons x xs ih => by_cases hx : lt x a = true <;> simp [ascending, h, hx, ih]

theorem descending_map (h : ∀ a b, lt' (f a) (f b) = lt a b) (a : β) (xs : List β) :
    descending lt' (f a) (xs.map f) =
      ((descending lt a xs).1.map f, (descending lt a xs).2.map f) := by
  induction xs generalizing a with
  | nil => rfl
  | cons x xs ih => by_cases hx : lt x a = true <;> simp [descending, h, hx, ih]

theorem leadingRun_map (h : ∀ a b, lt' (f a) (f b) = lt a b) (xs : List β) :
    leadingRun lt' (xs.map f) = ((leadingRun lt xs).1.map f, (leadingRun lt xs).2.map f) := by
  match xs with
  | [] => rfl
  | [a] => rfl
  | a :: b :: xs =>
    simp only [List.map_cons, leadingRun, h, ascending_map h, descending_map h]
    split
    · simp
    · simp

theorem sort_map (h : ∀ a b, lt' (f a) (f b) = lt a b) (xs : List β) :
    sort lt' (xs.map f) = (sort lt xs).map f := by
  rw [sort, sort, leadingRun_map h]
  exact foldl_place_map h _ _

end Map

section Congr

variable {lt' : β → β → Bool}

theorem placeWithin_congr {x : β} {xs : List β} (h : ∀ a ∈ xs, lt' x a = lt x a) (n : Nat) :
    placeWithin lt' x n xs = placeWithin lt x n xs := by
  induction n generalizing xs with
  | zero => rfl
  | succ n ih =>
    rw [placeWithin, placeWithin]
    cases hd : xs.drop (xs.length / 2) with
    | nil => rfl
    | cons p above =>
      have hmem : ∀ a ∈ p :: above, a ∈ xs := fun a ha => List.mem_of_mem_drop (hd ▸ ha)
      have hp := h p (hmem p (by simp))
      have habove := ih fun a ha => h a (hmem a (List.mem_cons_of_mem p ha))
      have hbelow : placeWithin lt' x n (xs.take (xs.length / 2)) = placeWithin lt x n (xs.take (xs.length / 2)) :=
        ih fun a ha => h a (List.mem_of_mem_take ha)
      simp only [hp, habove, hbelow]

theorem foldl_place_congr {run xs : List β} (hrun : ∀ a ∈ run, ∀ x ∈ xs, lt' x a = lt x a)
    (hxs : xs.Pairwise fun a x => lt' x a = lt x a) :
    xs.foldl (place lt') run = xs.foldl (place lt) run := by
  induction xs generalizing run with
  | nil => rfl
  | cons x xs ih =>
    obtain ⟨hx, hxs⟩ := List.pairwise_cons.mp hxs
    have hplace : place lt' run x = place lt run x :=
      placeWithin_congr (fun a ha => hrun a ha x (by simp)) run.length
    rw [List.foldl_cons, List.foldl_cons, hplace]
    apply ih _ hxs
    intro a ha y hy
    rcases List.mem_cons.mp ((placeWithin_perm x _ run).mem_iff.mp ha) with rfl | ha
    · exact hx y hy
    · exact hrun a ha y (List.mem_cons_of_mem x hy)

theorem ascending_congr {a : β} {xs : List β} (h : (a :: xs).Pairwise fun a x => lt' x a = lt x a) :
    ascending lt' a xs = ascending lt a xs := by
  induction xs generalizing a with
  | nil => rfl
  | cons x xs ih =>
    obtain ⟨ha, hxs⟩ := List.pairwise_cons.mp h
    rw [ascending, ascending, ha x (by simp), ih hxs]

theorem descending_congr {a : β} {xs : List β} (h : (a :: xs).Pairwise fun a x => lt' x a = lt x a) :
    descending lt' a xs = descending lt a xs := by
  induction xs generalizing a with
  | nil => rfl
  | cons x xs ih =>
    obtain ⟨ha, hxs⟩ := List.pairwise_cons.mp h
    rw [descending, descending, ha x (by simp), ih hxs]

theorem leadingRun_congr {xs : List β} (h : xs.Pairwise fun a x => lt' x a = lt x a) :
    leadingRun lt' xs = leadingRun lt xs := by
  match xs with
  | [] => rfl
  | [a] => rfl
  | a :: b :: xs =>
    obtain ⟨ha, hxs⟩ := List.pairwise_cons.mp h
    rw [leadingRun, leadingRun, ha b (by simp), ascending_congr hxs, descending_congr hxs]

/-- The comparison is only asked whether an entry is smaller than one that stands before it. -/
theorem sort_congr {xs : List β} (h : xs.Pairwise fun a x => lt' x a = lt x a) :
    sort lt' xs = sort lt xs := by
  obtain ⟨run, hperm, hsplit⟩ := leadingRun_split lt xs
  rw [sort, sort, leadingRun_congr h]
  rw [← hsplit] at h
  obtain ⟨-, hrest, hcross⟩ := List.pairwise_append.mp h
  exact foldl_place_congr (fun a ha => hcross a (hperm.mem_iff.mpr ha)) hrest

end Congr

theorem ranks_of_le {le : β → β → Bool} (htrans : ∀ a b c, le a b = true → le b c = true → le a c = true)
    (htotal : ∀ a b, (le a b || le b a) = true) : Ranks fun a b => !le b a where
  asymm a b h := by
    have hle := htotal a b
    simp_all
  trans a b c hab hbc := by
    simp only [Bool.not_eq_false'] at hab hbc ⊢
    exact htrans a b c hab hbc

/-- Entries at different places of a list are told apart, also where they are of one rank. -/
theorem zipIdxLE_antisymm {le : β → β → Bool} {xs : List β} {a b : β × Nat} (ha : a ∈ xs.zipIdx)
    (hb : b ∈ xs.zipIdx) (hab : List.zipIdxLE le a b = true) (hba : List.zipIdxLE le b a = true) : a = b := by
  have hplace : a.2 = b.2 := by
    simp only [List.zipIdxLE] at hab hba
    split at hab
    · split at hab
      · simp_all [Nat.le_antisymm_iff]
      · simp_all
    · cases hab
  rw [List.mem_zipIdx_iff_getElem?] at ha hb
  rw [← hplace, ha] at hb
  exact Prod.ext (Option.some.inj hb) hplace

/-- Of entries of one rank the first stays the first: sorting gives what the library's stable sort gives. -/
theorem sort_eq_mergeSort (h : Ranks lt) (xs : List β) : sort lt xs = xs.mergeSort fun a b => !lt b a := by
  let le (a b : β) : Bool := !lt b a
  have htrans : ∀ a b c, le a b = true → le b c = true → le a c = true := by
    intro a b c hab hbc
    simp only [le, Bool.not_eq_true'] at hab hbc ⊢
    exact h.trans a b c hab hbc
  have htotal : ∀ a b, (le a b || le b a) = true := by
    intro a b
    cases hab : lt a b with
    | false => simp [le, hab]
    | true => simp [le, h.asymm a b hab]
  have htrans' := List.zipIdxLE_trans htrans
  have htotal' := List.zipIdxLE_total htotal
  -- An entry is only compared with earlier ones, so the places change no comparison.
  have hlater : xs.zipIdx.Pairwise fun a x => (!List.zipIdxLE le a x) = lt x.1 a.1 := by
    have hplaces : xs.zipIdx.Pairwise fun a x => a.2 < x.2 := by
      apply List.pairwise_map.mp
      rw [List.zipIdx_map_snd]
      exact List.pairwise_lt_range'
    apply hplaces.imp
    intro a x hax
    cases hxa : lt x.1 a.1 with
    | false => simp [List.zipIdxLE, le, hxa, Nat.le_of_lt hax]
    | true => simp [List.zipIdxLE, le, hxa]
  have hsorted : (sort (fun a b => !List.zipIdxLE le b a) xs.zipIdx).Pairwise fun a b =>
      List.zipIdxLE le a b = true := by
    apply (sort_sorted (ranks_of_le htrans' htotal') xs.zipIdx).imp
    intro a b hab
    simpa using hab
  have hperm : (sort (fun a b => !List.zipIdxLE le b a) xs.zipIdx).Perm xs.zipIdx := sort_perm _
  have hmerge := List.mergeSort_perm xs.zipIdx (List.zipIdxLE le)
  calc sort lt xs
    _ = sort lt (xs.zipIdx.map Prod.fst) := by rw [List.zipIdx_map_fst]
    _ = (sort (fun a b => lt a.1 b.1) xs.zipIdx).map Prod.fst := sort_map (fun _ _ => rfl) _
    _ = (sort (fun a b => !List.zipIdxLE le b a) xs.zipIdx).map Prod.fst := by rw [sort_congr hlater]
    _ = (xs.zipIdx.mergeSort (List.zipIdxLE le)).map Prod.fst := by
      congr 1
      apply List.Perm.eq_of_pairwise _ hsorted (List.pairwise_mergeSort htrans' htotal' _) (hperm.trans hmerge.symm)
      intro a b ha hb
      exact zipIdxLE_antisymm (hperm.mem_iff.mp ha) (hmerge.mem_iff.mp hb)
    _ = xs.mergeSort le := List.mergeSort_zipIdx

end FlowDiagram.Sorting
