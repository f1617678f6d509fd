import FlowDiagram.Proofs.Layout.Line
import FlowDiagram.Proofs.Scalar

namespace FlowDiagram.Route

variable {α : Type} [Scalar α]

/-- No point stands where the point before it stands, and of three neighbours not all stand in one column or
in one row. -/
structure Normal (ps : List (Point α)) : Prop where
  apart : ∀ p q, [p, q] <:+: ps → samePlace p q = false
  turns : ∀ p q r, [p, q, r] <:+: ps → aligned p q r = false

/-- All points stand in the column of the first one, or all stand in its row. -/
def InLine (a : Point α) (ps : List (Point α)) : Prop :=
  (∀ p ∈ ps, Scalar.eq a.x p.x = true) ∨ ∀ p ∈ ps, Scalar.eq a.y p.y = true

/-- Somewhere the points leave a place and come back to it in one column or in one row. -/
def DoublesBack (ps : List (Point α)) : Prop :=
  ∃ a b c run, a :: run <:+: ps ∧ InLine a run ∧ [b, c].Sublist run ∧ samePlace a b = false ∧ samePlace a c = true

section Places

theorem samePlace_iff {p q : Point α} :
    samePlace p q = true ↔ Scalar.eq p.x q.x = true ∧ Scalar.eq p.y q.y = true := Bool.and_eq_true_iff

theorem aligned_iff {a b c : Point α} : aligned a b c = true ↔
    (Scalar.eq a.x b.x = true ∧ Scalar.eq b.x c.x = true) ∨
      Scalar.eq a.y b.y = true ∧ Scalar.eq b.y c.y = true := by
  rw [aligned, Bool.or_eq_true, Bool.and_eq_true, Bool.and_eq_true]

/-- Where a corner was, there is a corner still when the run behind it grows, unless the run comes back. -/
theorem aligned_grow (hα : Scalar.Consistent α) {z a b c : Point α} (hcorner : aligned z a b = false)
    (hrun : aligned a b c = true) (hapart : samePlace a c = false) : aligned z a c = false := by
  rw [Bool.eq_false_iff] at hcorner hapart ⊢
  rw [Ne, aligned_iff] at hcorner ⊢
  rw [Ne, samePlace_iff] at hapart
  rintro (⟨hza, hac⟩ | ⟨hza, hac⟩)
  · obtain ⟨hab, -⟩ | ⟨hab, hbc⟩ := aligned_iff.mp hrun
    · exact hcorner (.inl ⟨hza, hab⟩)
    · exact hapart ⟨hac, hα.trans hab hbc⟩
  · obtain ⟨hab, hbc⟩ | ⟨hab, -⟩ := aligned_iff.mp hrun
    · exact hapart ⟨hα.trans hab hbc, hac⟩
    · exact hcorner (.inr ⟨hza, hab⟩)

theorem inLine_grow (hα : Scalar.Consistent α) {a b c : Point α} {run : List (Point α)}
    (hline : run = [] ∨ InLine a (run ++ [b])) (hapart : samePlace a b = false) (hrun : aligned a b c = true) :
    InLine a (run ++ [b, c]) := by
  rw [Bool.eq_false_iff, Ne, samePlace_iff] at hapart
  obtain rfl | hline := hline
  · rw [List.nil_append]
    obtain ⟨hab, hbc⟩ | ⟨hab, hbc⟩ := aligned_iff.mp hrun
    · exact .inl (by simpa using ⟨hab, hα.trans hab hbc⟩)
    · exact .inr (by simpa using ⟨hab, hα.trans hab hbc⟩)
  · have happend : run ++ [b, c] = (run ++ [b]) ++ [c] := List.append_cons run b [c]
    rw [happend]
    obtain hcolumn | hrow := hline
    · have hab := hcolumn b (by simp)
      obtain ⟨-, hbc⟩ | ⟨hab', -⟩ := aligned_iff.mp hrun
      · exact .inl (List.forall_mem_append.mpr ⟨hcolumn, by simpa using hα.trans hab hbc⟩)
      · exact absurd ⟨hab, hab'⟩ hapart
    · have hab := hrow b (by simp)
      obtain ⟨hab', -⟩ | ⟨-, hbc⟩ := aligned_iff.mp hrun
      · exact absurd ⟨hab', hab⟩ hapart
      · exact .inr (List.forall_mem_append.mpr ⟨hrow, by simpa using hα.trans hab hbc⟩)

theorem DoublesBack.mono {ps qs : List (Point α)} (h : DoublesBack ps) (hpart : ps <:+: qs) : DoublesBack qs := by
  obtain ⟨a, b, c, run, hrun, hback⟩ := h
  exact ⟨a, b, c, run, hrun.trans hpart, hback⟩

end Places

section Form

theorem normal_nil : Normal ([] : List (Point α)) :=
  ⟨fun _ _ h => absurd (List.infix_nil.mp h) (by simp), fun _ _ _ h => absurd (List.infix_nil.mp h) (by simp)⟩

theorem normal_singleton (p : Point α) : Normal [p] :=
  ⟨fun _ _ h => absurd h not_adjacent_singleton, fun _ _ _ h => absurd h.length_le (by simp)⟩

theorem normal_pair {p q : Point α} : Normal [p, q] ↔ samePlace p q = false := by
  constructor
  · intro h
    exact h.apart p q List.infix_rfl
  · intro hapart
    refine ⟨?_, fun _ _ _ h => absurd h.length_le (by simp)⟩
    intro a b hab
    obtain ⟨rfl, rfl⟩ | hab := adjacent_cons.mp hab
    · exact hapart
    · exact absurd hab not_adjacent_singleton

theorem normal_cons {p q r : Point α} {ps : List (Point α)} : Normal (p :: q :: r :: ps) ↔
    samePlace p q = false ∧ aligned p q r = false ∧ Normal (q :: r :: ps) := by
  constructor
  · intro h
    exact ⟨h.apart p q ⟨[], r :: ps, rfl⟩, h.turns p q r ⟨[], ps, rfl⟩,
      fun a b hab => h.apart a b (hab.trans (List.suffix_cons ..).isInfix),
      fun a b c habc => h.turns a b c (habc.trans (List.suffix_cons ..).isInfix)⟩
  · rintro ⟨hapart, hturn, h⟩
    constructor
    · intro a b hab
      obtain ⟨rfl, rfl⟩ | hab := adjacent_cons.mp hab
      · exact hapart
      · exact h.apart a b hab
    · intro a b c habc
      obtain habc | habc := List.infix_cons_iff.mp habc
      · simp only [List.cons_prefix_cons] at habc
        obtain ⟨rfl, rfl, rfl, -⟩ := habc
        exact hturn
      · exact h.turns a b c habc

end Form

section Repeats

/-- The points of a list in groups: each point that is kept, with the repeats of it that are dropped. -/
theorem exists_groups (p : Point α) (ps : List (Point α)) : ∃ groups : List (Point α × List (Point α)),
    p :: dropRepeats p ps = groups.map (·.1) ∧ p :: ps = groups.flatMap (fun g => g.1 :: g.2) ∧
      ∀ g ∈ groups, ∀ q ∈ g.2, samePlace g.1 q = true := by
  induction ps generalizing p with
  | nil => exact ⟨[(p, [])], rfl, rfl, by simp⟩
  | cons q ps ih =>
    by_cases hsame : samePlace p q = true
    · obtain ⟨groups, hkept, hall, hrepeats⟩ := ih p
      cases groups with
      | nil => cases hkept
      | cons g groups =>
        obtain ⟨rfl, hkept⟩ := List.cons.inj hkept
        refine ⟨(g.1, q :: g.2) :: groups, ?_, ?_, ?_⟩
        · rw [dropRepeats, if_pos hsame, hkept]
          rfl
        · rw [(List.cons.inj hall).2]
          rfl
        · obtain ⟨hfirst, hrest⟩ := List.forall_mem_cons.mp hrepeats
          exact List.forall_mem_cons.mpr ⟨List.forall_mem_cons.mpr ⟨hsame, hfirst⟩, hrest⟩
    · obtain ⟨groups, hkept, hall, hrepeats⟩ := ih q
      refine ⟨(p, []) :: groups, ?_, ?_, ?_⟩
      · rw [dropRepeats, if_neg hsame, hkept]
        rfl
      · rw [hall]
        rfl
      · exact List.forall_mem_cons.mpr ⟨by simp, hrepeats⟩

theorem dropRepeats_sublist (p : Point α) (ps : List (Point α)) : (dropRepeats p ps).Sublist ps := by
  induction ps generalizing p with
  | nil => exact List.Sublist.refl _
  | cons q ps ih =>
    rw [dropRepeats]
    split
    · exact (ih p).cons q
    · exact (ih q).cons_cons q

theorem dropRepeats_isChain (p : Point α) (ps : List (Point α)) :
    (p :: dropRepeats p ps).IsChain fun a b => samePlace a b = false := by
  induction ps generalizing p with
  | nil => exact List.isChain_singleton p
  | cons q ps ih =>
    rw [dropRepeats]
    split
    · exact ih p
    · rename_i hapart
      exact List.isChain_cons_cons.mpr ⟨Bool.eq_false_iff.mpr hapart, ih q⟩

theorem getLast?_dropRepeats (p : Point α) (ps : List (Point α)) :
    ∀ q ∈ (p :: dropRepeats p ps).getLast?, ∀ r ∈ (p :: ps).getLast?, q = r ∨ samePlace q r = true := by
  induction ps generalizing p with
  | nil =>
    intro q hq r hr
    exact .inl (Option.some.inj (hq.symm.trans hr))
  | cons s ps ih =>
    rw [dropRepeats, List.getLast?_cons_cons]
    split
    · rename_i hsame
      cases ps with
      | nil =>
        intro q hq r hr
        obtain rfl := Option.some.inj hq
        obtain rfl := Option.some.inj hr
        exact .inr hsame
      | cons t ps =>
        have hlast := ih p
        rw [List.getLast?_cons_cons] at hlast ⊢
        exact hlast
    · rw [List.getLast?_cons_cons]
      exact ih s

omit [Scalar α] in
theorem kept_sublist (groups : List (Point α × List (Point α))) :
    (groups.map (·.1)).Sublist (groups.flatMap fun g => g.1 :: g.2) := by
  induction groups with
  | nil => exact List.Sublist.refl _
  | cons g groups ih => exact (ih.trans (List.sublist_append_right g.2 _)).cons_cons g.1

theorem DoublesBack.of_dropRepeats (hα : Scalar.Consistent α) {p : Point α} {ps : List (Point α)}
    (h : DoublesBack (p :: dropRepeats p ps)) : DoublesBack (p :: ps) := by
  obtain ⟨groups, hkept, hall, hrepeats⟩ := exists_groups p ps
  obtain ⟨a, b, c, run, ⟨before, after, hpart⟩, hline, hback, hapart, hsame⟩ := h
  rw [hkept, List.append_assoc] at hpart
  obtain ⟨gs, rest, rfl, -, hrest⟩ := List.map_eq_append_iff.mp hpart.symm
  obtain ⟨stretch, hs, rfl, hstretch, -⟩ := List.map_eq_append_iff.mp hrest
  cases stretch with
  | nil => cases hstretch
  | cons g stretch =>
    obtain ⟨rfl, rfl⟩ := List.cons.inj hstretch
    have hmem : ∀ g' ∈ g :: stretch, ∀ q ∈ g'.2, samePlace g'.1 q = true := fun g' hg' =>
      hrepeats g' (List.mem_append_right gs (List.mem_append_left hs hg'))
    have stays (f : Point α → α) (hf : ∀ {p q : Point α}, samePlace p q = true → Scalar.eq (f p) (f q) = true)
        (hline : ∀ q ∈ stretch.map (·.1), Scalar.eq (f g.1) (f q) = true) :
        ∀ q ∈ g.2 ++ stretch.flatMap (fun g => g.1 :: g.2), Scalar.eq (f g.1) (f q) = true := by
      intro q hq
      obtain hq | hq := List.mem_append.mp hq
      · exact hf (hmem g (by simp) q hq)
      · obtain ⟨g', hg', hq⟩ := List.mem_flatMap.mp hq
        have hfirst := hline g'.1 (List.mem_map_of_mem hg')
        obtain rfl | hq := List.mem_cons.mp hq
        · exact hfirst
        · exact hα.trans hfirst (hf (hmem g' (List.mem_cons_of_mem g hg') q hq))
    refine ⟨g.1, b, c, g.2 ++ stretch.flatMap (fun g => g.1 :: g.2), ?_, ?_, ?_, hapart, hsame⟩
    · refine ⟨gs.flatMap fun g => g.1 :: g.2, hs.flatMap fun g => g.1 :: g.2, ?_⟩
      rw [hall]
      simp
    · exact hline.imp (stays (·.x) fun h => (samePlace_iff.mp h).1) (stays (·.y) fun h => (samePlace_iff.mp h).2)
    · exact (hback.trans (kept_sublist stretch)).trans (List.sublist_append_right ..)

end Repeats

section Straight

theorem getLast?_straightenFrom (a b : Point α) (ps : List (Point α)) :
    (straightenFrom a b ps).getLast? = (b :: ps).getLast? := by
  induction ps generalizing a b with
  | nil => rfl
  | cons c ps ih =>
    rw [straightenFrom, List.getLast?_cons_cons]
    split
    · exact ih a c
    · obtain ⟨d, ds, heq⟩ := exists_straightenFrom b c ps
      have hlast := ih b c
      rw [heq] at hlast ⊢
      rw [List.getLast?_cons_cons, hlast]

/-- A run that begins at a has come to b. As long as the points do not come back to it, it ends elsewhere;
corners before it stay corners; and what is kept is in normal form. -/
theorem normal_straightenFrom (hα : Scalar.Consistent α) {a b : Point α} {run ps : List (Point α)}
    (hline : run = [] ∨ InLine a (run ++ [b])) (hsteady : ¬ DoublesBack (a :: (run ++ b :: ps)))
    (hchain : (b :: ps).IsChain fun p q => samePlace p q = false) (hapart : samePlace a b = false) :
    Normal (straightenFrom a b ps) ∧ ∃ c cs, straightenFrom a b ps = a :: c :: cs ∧
      ∀ z, aligned z a b = false → aligned z a c = false := by
  induction ps generalizing a b run with
  | nil => exact ⟨normal_pair.mpr hapart, b, [], rfl, fun _ hz => hz⟩
  | cons d ps ih =>
    obtain ⟨hbd, hrest⟩ := List.isChain_cons_cons.mp hchain
    rw [straightenFrom]
    split
    · rename_i hrun
      -- The run grows from b to d, and with it the list that must not double back.
      have hgrown := inLine_grow hα hline hapart hrun
      have haway : samePlace a d = false := by
        rw [Bool.eq_false_iff]
        intro hback
        refine hsteady ⟨a, b, d, run ++ [b, d], ⟨[], ps, ?_⟩, hgrown, List.sublist_append_right .., hapart, hback⟩
        simp
      rw [List.append_cons] at hgrown hsteady
      obtain ⟨hnormal, c, cs, heq, hcorner⟩ := ih (.inr hgrown) hsteady hrest haway
      exact ⟨hnormal, c, cs, heq, fun z hz => hcorner z (aligned_grow hα hz hrun haway)⟩
    · rename_i hturn
      rw [Bool.not_eq_true] at hturn
      -- At a corner a new run begins.
      have hsteady' : ¬ DoublesBack (b :: ([] ++ d :: ps)) := fun hback =>
        hsteady (hback.mono ⟨a :: run, [], by simp⟩)
      obtain ⟨hnormal, c, cs, heq, hcorner⟩ := ih (.inl rfl) hsteady' hrest hbd
      rw [heq] at hnormal ⊢
      exact ⟨normal_cons.mpr ⟨hapart, hcorner a hturn, hnormal⟩, b, c :: cs, rfl, fun _ hz => hz⟩

end Straight

section Simplified

theorem simplify_sublist (ps : List (Point α)) : (simplify ps).Sublist ps := by
  cases ps with
  | nil => exact List.Sublist.refl _
  | cons p ps => exact (straighten_sublist _).trans ((dropRepeats_sublist p ps).cons_cons p)

theorem head?_simplify (ps : List (Point α)) : (simplify ps).head? = ps.head? := by
  cases ps with
  | nil => rfl
  | cons p ps =>
    rw [simplify]
    cases dropRepeats p ps with
    | nil => rfl
    | cons q qs =>
      obtain ⟨c, cs, heq⟩ := exists_straightenFrom p q qs
      rw [straighten, heq]
      rfl

theorem getLast?_straighten (ps : List (Point α)) : (straighten ps).getLast? = ps.getLast? := by
  match ps with
  | [] => rfl
  | [a] => rfl
  | a :: b :: ps => rw [straighten, getLast?_straightenFrom, List.getLast?_cons_cons]

theorem getLast?_simplify (ps : List (Point α)) :
    ∀ p ∈ (simplify ps).getLast?, ∀ q ∈ ps.getLast?, p = q ∨ samePlace p q = true := by
  cases ps with
  | nil => simp [simplify]
  | cons p ps =>
    rw [simplify, getLast?_straighten]
    exact getLast?_dropRepeats p ps

theorem dropRepeats_eq_self {p : Point α} {ps : List (Point α)}
    (h : (p :: ps).IsChain fun a b => samePlace a b = false) : dropRepeats p ps = ps := by
  induction ps generalizing p with
  | nil => rfl
  | cons q ps ih =>
    obtain ⟨hapart, hrest⟩ := List.isChain_cons_cons.mp h
    rw [dropRepeats, if_neg (Bool.eq_false_iff.mp hapart), ih hrest]

theorem straightenFrom_eq_self {a b : Point α} {ps : List (Point α)}
    (hchain : (a :: b :: ps).IsChain fun p q => samePlace p q = false) :
    straightenFrom a b ps = a :: b :: ps ↔ Normal (a :: b :: ps) := by
  induction ps generalizing a b with
  | nil => exact iff_of_true rfl (normal_pair.mpr (List.isChain_cons_cons.mp hchain).1)
  | cons c ps ih =>
    obtain ⟨hapart, hrest⟩ := List.isChain_cons_cons.mp hchain
    rw [normal_cons, ← ih hrest, straightenFrom]
    split
    · rename_i hrun
      refine iff_of_false ?_ ?_
      · intro heq
        have hlength := (straightenFrom_sublist a c ps).length_le
        rw [heq] at hlength
        simp at hlength
      · rintro ⟨-, hturn, -⟩
        exact absurd hrun (Bool.eq_false_iff.mp hturn)
    · rename_i hturn
      rw [Bool.not_eq_true] at hturn
      constructor
      · intro heq
        exact ⟨hapart, hturn, (List.cons.inj heq).2⟩
      · rintro ⟨-, -, heq⟩
        rw [heq]

theorem simplify_eq_self {ps : List (Point α)} : simplify ps = ps ↔ Normal ps := by
  cases ps with
  | nil => exact iff_of_true rfl normal_nil
  | cons p ps =>
    rw [simplify]
    constructor
    · intro heq
      have hkept : p :: dropRepeats p ps = p :: ps := by
        apply ((dropRepeats_sublist p ps).cons_cons p).antisymm
        have hsub := straighten_sublist (p :: dropRepeats p ps)
        rwa [heq] at hsub
      have hchain := dropRepeats_isChain p ps
      rw [hkept] at hchain heq
      cases ps with
      | nil => exact normal_singleton p
      | cons q ps => exact (straightenFrom_eq_self hchain).mp heq
    · intro h
      have hchain := (List.isChain_isInfix (p :: ps)).imp fun a b => h.apart a b
      rw [dropRepeats_eq_self hchain]
      cases ps with
      | nil => rfl
      | cons q ps => exact (straightenFrom_eq_self hchain).mpr h

theorem normal_simplify (hα : Scalar.Consistent α) {ps : List (Point α)} (h : ¬ DoublesBack ps) :
    Normal (simplify ps) := by
  cases ps with
  | nil => exact normal_nil
  | cons p ps =>
    have hchain := dropRepeats_isChain p ps
    have hsteady : ¬ DoublesBack (p :: dropRepeats p ps) := mt (DoublesBack.of_dropRepeats hα) h
    rw [simplify]
    cases hkept : dropRepeats p ps with
    | nil => exact normal_singleton p
    | cons q qs =>
      rw [hkept] at hchain hsteady
      obtain ⟨hapart, hrest⟩ := List.isChain_cons_cons.mp hchain
      have hline : [] = ([] : List (Point α)) ∨ InLine p ([] ++ [q]) := .inl rfl
      exact (normal_straightenFrom hα hline hsteady hrest hapart).1

theorem normal_iterate (ps : List (Point α)) : Normal (simplify^[ps.length] ps) := by
  suffices h : ∀ n (ps : List (Point α)), ps.length ≤ n → Normal (simplify^[n] ps) from h _ ps le_rfl
  intro n
  induction n with
  | zero =>
    intro ps hlength
    rw [List.length_eq_zero_iff.mp (Nat.le_zero.mp hlength)]
    exact normal_nil
  | succ n ih =>
    intro ps hlength
    rw [Function.iterate_succ_apply]
    by_cases hfix : simplify ps = ps
    · rw [hfix, Function.iterate_fixed hfix]
      exact simplify_eq_self.mp hfix
    · have hsub := simplify_sublist ps
      have hshorter : (simplify ps).length < ps.length :=
        hsub.length_le.lt_of_ne fun heq => hfix (hsub.eq_of_length heq)
      exact ih _ (by omega)

/-- Simplifying keeps points of the list in their order, the first and, up to a repeat, the last among them. A
second round changes nothing exactly if the first has led to normal form, which it has where the points never
double back; and as many rounds as there are points always lead there. -/
theorem simplify_reduces (hα : Scalar.Consistent α) (ps : List (Point α)) :
    (simplify ps).Sublist ps ∧ (simplify ps).head? = ps.head? ∧
      (∀ p ∈ (simplify ps).getLast?, ∀ q ∈ ps.getLast?, p = q ∨ samePlace p q = true) ∧
      (simplify (simplify ps) = simplify ps ↔ Normal (simplify ps)) ∧
      (¬ DoublesBack ps → Normal (simplify ps)) ∧ Normal (simplify^[ps.length] ps) :=
  ⟨simplify_sublist ps, head?_simplify ps, getLast?_simplify ps, simplify_eq_self, normal_simplify hα,
    normal_iterate ps⟩

theorem not_doublesBack {ps : List (Point Rat)} (h : ps.Pairwise fun p q => p.x ≤ q.x ∧ p.y ≤ q.y) :
    ¬ DoublesBack ps := by
  rintro ⟨a, b, c, run, hrun, -, hback, hapart, hsame⟩
  have hsteps := h.sublist ((hback.cons_cons a).trans hrun.sublist)
  simp only [List.pairwise_cons, List.forall_mem_cons] at hsteps
  obtain ⟨⟨⟨hx, hy⟩, -⟩, ⟨⟨hx', hy'⟩, -⟩, -⟩ := hsteps
  simp only [samePlace, Scalar.eq_rat, Bool.and_eq_true, decide_eq_true_eq] at hsame
  rw [hsame.1] at hx
  rw [hsame.2] at hy
  have hb : samePlace a b = true := by
    simp [samePlace, hsame, le_antisymm hx hx', le_antisymm hy hy']
  rw [hapart] at hb
  cases hb

theorem simplify_reduces_stairs :
    let ps : List (Point Rat) := [⟨1, 0⟩, ⟨1, 5⟩, ⟨1, 5⟩, ⟨1, 9⟩, ⟨4, 9⟩]
    Scalar.Consistent Rat ∧ ¬ DoublesBack ps ∧ (simplify ps).Sublist ps ∧ Normal (simplify ps) ∧
      simplify (simplify ps) = simplify ps ∧ simplify ps = [⟨1, 0⟩, ⟨1, 9⟩, ⟨4, 9⟩] := by
  intro ps
  have hsteady : ¬ DoublesBack ps := not_doublesBack (by simp [ps]; norm_num)
  obtain ⟨hsub, -, -, hfixed, hnormal, -⟩ := simplify_reduces Scalar.consistent_rat ps
  exact ⟨Scalar.consistent_rat, hsteady, hsub, hnormal hsteady, hfixed.mpr (hnormal hsteady), rfl⟩

/-- There and back: the run is closed up to two points at one place, and the second round drops one of them.
With a line before and a line behind, what is left is three points in one row. -/
theorem simplify_there_and_back :
    let ps : List (Point Rat) := [⟨0, 0⟩, ⟨10, 0⟩, ⟨0, 0⟩]
    let qs : List (Point Rat) := [⟨-5, 0⟩, ⟨0, 0⟩, ⟨0, 1⟩, ⟨0, 0⟩, ⟨5, 0⟩]
    (simplify ps = [⟨0, 0⟩, ⟨0, 0⟩] ∧ ¬ Normal (simplify ps) ∧ simplify (simplify ps) = [⟨0, 0⟩]) ∧
      simplify qs = [⟨-5, 0⟩, ⟨0, 0⟩, ⟨5, 0⟩] ∧ ¬ Normal (simplify qs) ∧
      simplify (simplify qs) = [⟨-5, 0⟩, ⟨5, 0⟩] := by
  intro ps qs
  have hps : simplify ps = [⟨0, 0⟩, ⟨0, 0⟩] := rfl
  have hqs : simplify qs = [⟨-5, 0⟩, ⟨0, 0⟩, ⟨5, 0⟩] := rfl
  rw [hps, hqs]
  refine ⟨⟨rfl, ?_, rfl⟩, rfl, ?_, rfl⟩
  · intro h
    cases normal_pair.mp h
  · intro h
    cases (normal_cons.mp h).2.1

end Simplified

theorem normal_path (m n : PlacedNode Rat) : Normal (path m n) := by
  obtain ⟨h, hx, hpath⟩ | ⟨h, hx, hpath⟩ | ⟨h, hpath⟩ := path_cases m n
  · rw [hpath, normal_pair]
    simp [samePlace, PlacedNode.exit, PlacedNode.entry, h.ne]
  · obtain ⟨hdown, hup⟩ := middle_between h
    rw [hpath]
    simp [normal_cons, normal_pair, samePlace, aligned, PlacedNode.exit, PlacedNode.entry, hx, hdown.ne, hup.ne]
  · obtain ⟨hm, hn⟩ := channel_right (m := m) (n := n)
    have hclimb : m.bottom + 20 ≠ n.top - 20 := by linarith
    have hlast : n.top - 20 ≠ n.top := by linarith
    rw [hpath]
    simp [normal_cons, normal_pair, samePlace, aligned, PlacedNode.exit, PlacedNode.entry, hm.ne, hn.ne', hclimb,
      hlast]

end FlowDiagram.Route
