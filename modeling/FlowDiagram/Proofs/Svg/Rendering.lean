import FlowDiagram.Proofs.Layout.Start
import FlowDiagram.Proofs.Svg.Numbers

namespace FlowDiagram

open Binary64

theorem Binary64.Within.finite {k : Nat} {x : Float} (h : Within k x) : Decimal.Finite x := by
  obtain ⟨a, ha, -⟩ := h
  exact ha.finite

namespace Svg

variable {k : Nat}

theorem finite_points {ps : List (Point Float)} (h : ∀ p ∈ ps, p.Within k) :
    ∀ x ∈ ps.flatMap pointNumbers, Decimal.Finite x := by
  intro x hx
  obtain ⟨p, hp, hx⟩ := List.mem_flatMap.mp hx
  rw [pointNumbers, List.mem_pair] at hx
  obtain rfl | rfl := hx
  · exact (h p hp).1.finite
  · exact (h p hp).2.finite

theorem finite_edge {e : RoutedEdge Float} (h : Route.EdgeWithin k e) :
    ∀ item ∈ e.items, ∀ x ∈ itemNumbers item, Decimal.Finite x := by
  intro item hitem
  rw [RoutedEdge.items] at hitem
  split at hitem
  · obtain rfl | hcaption := List.mem_cons.mp hitem
    · exact finite_points h.path
    · rw [RoutedEdge.captions] at hcaption
      split at hcaption
      · cases hcaption
      · next p hp =>
        split at hcaption
        · cases hcaption
        · rw [List.mem_singleton.mp hcaption]
          have hpoint : ∀ q ∈ [p], q.Within k := List.forall_mem_singleton.mpr (h.anchor p hp)
          simpa [itemNumbers] using finite_points hpoint
  · cases hitem

theorem finite_figure {n : PlacedNode Float} (h : n.Within k) (hk : k ≤ 2 ^ 49) :
    ∀ x ∈ figureNumbers n.figure, Decimal.Finite x := by
  have hleft := (n.left_within h (by omega)).finite
  have hright := (n.right_within h (by omega)).finite
  have htop := (n.top_within h (by omega)).finite
  have hbottom := (n.bottom_within h (by omega)).finite
  rw [PlacedNode.figure]
  split
  · simp only [figureNumbers, List.forall_mem_cons]
    exact ⟨h.1.finite, h.2.finite, n.half_width.finite, by simp⟩
  · simp only [figureNumbers, List.flatMap_cons, pointNumbers, List.cons_append, List.nil_append,
      List.forall_mem_cons]
    exact ⟨h.1.finite, htop, hright, h.2.finite, h.1.finite, hbottom, hleft, h.2.finite, by simp⟩
  · have hwidth : Decimal.Finite n.width :=
      (Within.natCast ((Kind.width_le n.kind).trans_lt (by decide))).finite
    have hheight : Decimal.Finite n.height :=
      (Within.natCast ((Kind.height_le n.kind).trans_lt (by decide))).finite
    simp only [figureNumbers, List.forall_mem_cons]
    exact ⟨hleft, htop, hwidth, hheight, by simp⟩

theorem finite_node {n : PlacedNode Float} (h : n.Within k) (hk : k ≤ 2 ^ 49) :
    ∀ x ∈ itemNumbers n.item, Decimal.Finite x := by
  have hinset : Within 1 ((5 : Nat) : Float) := .natCast (by decide)
  have hright := ((n.right_within h (by omega)).sub hinset (by omega)).finite
  have hbottom := ((n.bottom_within h (by omega)).sub hinset (by omega)).finite
  rw [PlacedNode.item, itemNumbers]
  simp only [List.forall_mem_append]
  refine ⟨⟨finite_figure h hk, ?_⟩, ?_⟩
  · simp only [pointNumbers, List.forall_mem_cons]
    exact ⟨h.1.finite, h.2.finite, by simp⟩
  · split
    · simp only [PlacedNode.box, List.forall_mem_cons]
      exact ⟨hright, hbottom, by simp⟩
    · simp

theorem finite_diagram {d : Diagram Float} (h : d.Within k) (hk : k ≤ 2 ^ 49) (style : Style) :
    ∀ x ∈ (diagram style d).numbers, Decimal.Finite x := by
  rw [numbers_diagram]
  simp only [List.forall_mem_append, List.forall_mem_cons]
  refine ⟨⟨h.width.finite, h.height.finite, h.width.finite, h.height.finite, by simp⟩, ?_⟩
  intro x hx
  obtain ⟨item, hitem, hx⟩ := List.mem_flatMap.mp hx
  rw [Diagram.items, List.mem_append] at hitem
  obtain hedge | hnode := hitem
  · obtain ⟨e, he, hitem⟩ := List.mem_flatMap.mp hedge
    exact finite_edge (h.edges e he) item hitem x hx
  · obtain ⟨n, hn, rfl⟩ := List.mem_map.mp hnode
    exact finite_node (h.nodes n hn) hk x hx

theorem numbers_message (style : Style) (text : String) :
    (message style text : Element (Value Float)).numbers = [] := rfl

theorem not_finite_diagram {d : Diagram Float} (h : d.Stray) (style : Style) :
    ∃ x ∈ (diagram style d).numbers, ¬ Decimal.Finite x := by
  rw [numbers_diagram]
  obtain ⟨n, hn, hplace⟩ | hwidth := h
  · have hcenter {x : Float} (hx : x ∈ pointNumbers ⟨n.x, n.y⟩) :
        x ∈ [d.width, d.height, d.width, d.height] ++ d.items.flatMap itemNumbers := by
      refine List.mem_append_right _ (List.mem_flatMap.mpr ⟨n.item, ?_, ?_⟩)
      · exact List.mem_append_right _ (List.mem_map_of_mem hn)
      · exact List.mem_append_left _ (List.mem_append_right _ hx)
    obtain hx | hy := hplace
    · exact ⟨n.x, hcenter (by simp [pointNumbers]), hx.not_finite⟩
    · exact ⟨n.y, hcenter (by simp [pointNumbers]), hy.not_finite⟩
  · exact ⟨d.width, by simp, hwidth.not_finite⟩

end Svg

namespace Settings

variable {c : Config Float} {s : Settings Float}

theorem run_finite (h : ofConfig c = .ok s) (hc : ∀ q ∈ c.quantities, q.Moderate) {text : String}
    (ht : text.length ≤ 2 ^ 16) {r : Result Float} (hr : (s.run text).result = .ok r) (style : Svg.Style) :
    ∀ x ∈ (Svg.picture style r.picture).numbers, Decimal.Finite x := by
  by_cases hne : (Document.read text).nodes = []
  · have hrun : s.run text = .empty (Document.read text) := if_pos hne
    rw [hrun] at hr
    obtain rfl := Except.ok.inj hr
    rw [Svg.picture, Svg.numbers_message]
    simp
  · obtain ⟨p, shift, d, hrun, hwithin⟩ := run_within h hc hne ht
    rw [hrun] at hr
    obtain rfl := Except.ok.inj hr
    exact Svg.finite_diagram hwithin (by decide) style

theorem run_not_finite (h : ofConfig c = .ok s) (hm : c.canvasMargin.InRange) {text : String}
    (hne : (Document.read text).nodes ≠ []) {q : Quantity Float} (hq : q ∈ c.essential)
    (hstray : q.number? = none) {r : Result Float} (hr : (s.run text).result = .ok r) (style : Svg.Style) :
    ∃ x ∈ (Svg.picture style r.picture).numbers, ¬ Decimal.Finite x := by
  obtain ⟨p, shift, d, hrun, hd⟩ := run_stray h hm hne hq hstray
  rw [hrun] at hr
  obtain rfl := Except.ok.inj hr
  exact Svg.not_finite_diagram hd style

theorem ofConfig_floats : ∃ s, ofConfig ({} : Config Float) = .ok s := ⟨_, rfl⟩

theorem moderate_default : ∀ q ∈ ({} : Config Float).quantities, q.Moderate := by
  have hlarge : (10 : Rat) ^ 3 ≤ 10 ^ 290 := pow_le_pow_right₀ (by norm_num) (by norm_num)
  have hint : ∀ n : Int, |n| ≤ 10 ^ 3 → (Quantity.int n : Quantity Float).Moderate :=
    fun n hn => ⟨n, rfl, hlarge.trans' (by exact_mod_cast hn)⟩
  simp only [Config.quantities, List.forall_mem_cons]
  exact ⟨hint 150 (by decide), hint 120 (by decide), hint 100 (by decide), hint 60 (by decide),
    hint 20 (by decide), hint 40 (by decide), by simp⟩

/-- The picture of a run on accepted settings, in any style. It is drawn if all settings are finite and of a
moderate size, and the text is of a moderate length. It fails to be drawn, in one of two ways, if the text declares
a node while a spacing, the base or the canvas margin is no finite number: the checks let such numbers pass. And in
every case it is drawn exactly if all its numbers are finite. -/
theorem run_renders (h : ofConfig c = .ok s) (hm : c.canvasMargin.InRange) (text : String) :
    ∃ r, (s.run text).result = .ok r ∧ ∀ style : Svg.Style,
      ((∀ q ∈ c.quantities, q.Moderate) → text.length ≤ 2 ^ 16 →
        ∃ drawing, Svg.render style r.picture = .ok drawing) ∧
      ((∃ q ∈ c.essential, q.number? = none) → (Document.read text).nodes ≠ [] →
        Svg.render style r.picture = .error .notANumber ∨ Svg.render style r.picture = .error .infinite) ∧
      ((∃ drawing, Svg.render style r.picture = .ok drawing) ↔
        ∀ x ∈ (Svg.picture style r.picture).numbers, Decimal.Finite x) := by
  obtain ⟨r, -, hr, -, -, -⟩ := run_returns h hm text
  refine ⟨r, hr, fun style => ⟨?_, ?_, Svg.render_ok_iff style r.picture⟩⟩
  · intro hc ht
    exact (Svg.render_ok_iff style r.picture).mpr (run_finite h hc ht hr style)
  · rintro ⟨q, hq, hstray⟩ hne
    obtain ⟨x, hx, hnot⟩ := run_not_finite h hm hne hq hstray hr style
    cases hrender : Svg.render style r.picture with
    | ok drawing => exact absurd ((Svg.render_ok_iff style r.picture).mp ⟨drawing, hrender⟩ x hx) hnot
    | error fault =>
      obtain rfl | rfl := Svg.render_error hrender
      · exact .inl rfl
      · exact .inr rfl

/-- A spacing of 10^200, on a flow with a loop and an undeclared end. -/
theorem run_renders_large : ∃ c : Config Float,
    c = { minSpacing := .real 1e200, canvasMargin := .real (-7.5) } ∧ (∀ q ∈ c.quantities, q.Moderate) ∧
      ∃ (s : Settings Float) (r : Result Float) (drawing : String), ofConfig c = .ok s ∧
        (s.run "task a \"A\"\ntask b \"B\"\na -> a |again|\nb -> c").result = .ok r ∧
        Svg.render {} r.picture = .ok drawing := by
  refine ⟨_, rfl, ?_⟩
  have hmoderate : ∀ q ∈ ({ minSpacing := .real 1e200, canvasMargin := .real (-7.5) } : Config Float).quantities,
      q.Moderate := by decide +kernel
  obtain ⟨s, hs⟩ : ∃ s, ofConfig
      ({ minSpacing := .real 1e200, canvasMargin := .real (-7.5) } : Config Float) = .ok s :=
    exists_ok (by decide +kernel)
  obtain ⟨r, hr, hrenders⟩ :=
    run_renders hs (Quantity.inRange_real _) "task a \"A\"\ntask b \"B\"\na -> a |again|\nb -> c"
  obtain ⟨drawing, hdrawing⟩ := (hrenders {}).1 hmoderate (by decide)
  exact ⟨hmoderate, s, r, drawing, hs, hr, hdrawing⟩

/-- A spacing that is no number is accepted, and the diagram has numbers that cannot be written. -/
theorem undefined_unrendered : ∃ undefined : Float, undefined = 0 / 0 ∧
    ∃ (s : Settings Float) (r : Result Float),
      ofConfig ({ minSpacing := .real undefined } : Config Float) = .ok s ∧
      (s.run "task a \"A\"").result = .ok r ∧ Svg.render {} r.picture = .error .notANumber := by
  have houtcome : ((do
      let s ← ofConfig ({ minSpacing := .real (0 / 0) } : Config Float)
      let r ← (s.run "task a \"A\"").result
      match Svg.render {} r.picture with
      | .ok _ => return none
      | .error fault => return some fault) : Except Fault (Option Fault)).toOption =
      some (some .notANumber) := by decide +kernel
  obtain ⟨s, hs⟩ : ∃ s, ofConfig ({ minSpacing := .real (0 / 0) } : Config Float) = .ok s :=
    exists_ok (by decide +kernel)
  obtain ⟨r, -, hr, -⟩ := run_returns hs ⟨_, rfl⟩ "task a \"A\""
  simp only [hs, hr, bind, Except.bind] at houtcome
  refine ⟨_, rfl, s, r, hs, hr, ?_⟩
  cases hrender : Svg.render {} r.picture with
  | ok drawing =>
    rw [hrender] at houtcome
    cases houtcome
  | error fault =>
    rw [hrender] at houtcome
    rw [Option.some.inj (Option.some.inj houtcome)]

end Settings

end FlowDiagram
