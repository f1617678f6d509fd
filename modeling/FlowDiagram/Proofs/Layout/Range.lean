import FlowDiagram.Proofs.Flow.Size
import FlowDiagram.Proofs.Layout.Magnitude
import FlowDiagram.Proofs.Layout.Route
import FlowDiagram.Proofs.Layout.Total

namespace FlowDiagram

open Binary64

def Point.Within (k : Nat) (p : Point Float) : Prop := Binary64.Within k p.x ∧ Binary64.Within k p.y

def PlacedNode.Within (k : Nat) (n : PlacedNode Float) : Prop := Point.Within k ⟨n.x, n.y⟩

theorem Point.Within.mono {j k : Nat} {p : Point Float} (h : p.Within j) (hjk : j ≤ k) : p.Within k :=
  ⟨h.1.mono hjk, h.2.mono hjk⟩

theorem PlacedNode.Within.mono {j k : Nat} {n : PlacedNode Float} (h : n.Within j) (hjk : j ≤ k) : n.Within k :=
  Point.Within.mono h hjk

namespace PlacedNode

variable {k : Nat} {n : PlacedNode Float}

theorem half_width (n : PlacedNode Float) : Binary64.Within 2 (Scalar.half n.kind.width : Float) :=
  .half ((Kind.width_le n.kind).trans_lt (by decide))

theorem half_height (n : PlacedNode Float) : Binary64.Within 2 (Scalar.half n.kind.height : Float) :=
  .half ((Kind.height_le n.kind).trans_lt (by decide))

variable (h : n.Within k) (hk : k ≤ 2 ^ 50)
include h hk

theorem left_within : Binary64.Within (k + 3) n.left := h.1.sub n.half_width (by omega)

theorem right_within : Binary64.Within (k + 3) n.right := h.1.add n.half_width (by omega)

theorem top_within : Binary64.Within (k + 3) n.top := h.2.sub n.half_height (by omega)

theorem bottom_within : Binary64.Within (k + 3) n.bottom := h.2.add n.half_height (by omega)

end PlacedNode

namespace Route

variable {k : Nat} {source target : PlacedNode Float}

/-- The legs of the course and both ends of its horizontal run are within so many units. -/
structure CourseWithin (k : Nat) (c : Course Float) : Prop where
  toX : ∀ x, Leg.toX x ∈ c.legs → Within k x
  toY : ∀ y, Leg.toY y ∈ c.legs → Within k y
  runStart : c.runStart.Within k
  runEnd : Within k c.runEnd

structure EdgeWithin (k : Nat) (e : RoutedEdge Float) : Prop where
  path : ∀ p ∈ e.path, p.Within k
  anchor : ∀ p, e.anchor = some p → p.Within k

theorem EdgeWithin.mono {j : Nat} {e : RoutedEdge Float} (h : EdgeWithin j e) (hjk : j ≤ k) : EdgeWithin k e :=
  ⟨fun p hp => (h.path p hp).mono hjk, fun p hp => (h.anchor p hp).mono hjk⟩

section Course

variable (hs : source.Within k) (ht : target.Within k) (hk : k ≤ 2 ^ 49)
include hs ht hk

theorem forward_within : CourseWithin (k + 5) (forward source target) := by
  have htop := target.top_within ht (by omega)
  have hsum := (source.bottom_within hs (by omega)).add htop (by omega)
  have hmiddle : Within (k + 5) ((source.bottom + target.top) / ((2 : Nat) : Float)) :=
    (hsum.mono (by omega)).div_natCast (n := 2) (k := k + 4) (by decide) (by decide) (by omega)
  refine ⟨?_, ?_, ⟨hs.1.mono (by omega), hmiddle⟩, ht.1.mono (by omega)⟩
  · intro x hx
    obtain rfl : x = target.x := by simpa [forward] using hx
    exact ht.1.mono (by omega)
  · intro y hy
    obtain rfl | rfl : y = (source.bottom + target.top) / ((2 : Nat) : Float) ∨ y = target.top := by
      simpa [forward] using hy
    · exact hmiddle
    · exact htop.mono (by omega)

theorem around_within : CourseWithin (k + 5) (around source target) := by
  have hclearance : Within 1 ((clearance : Nat) : Float) := .natCast (by decide)
  have htop := target.top_within ht (by omega)
  have hbelow := (source.bottom_within hs (by omega)).add hclearance (by omega)
  have habove := htop.sub hclearance (by omega)
  have hright := (source.right_within hs (by omega)).max (target.right_within ht (by omega))
  have hchannel := hright.add hclearance (by omega)
  refine ⟨?_, ?_, ⟨hchannel, habove⟩, ht.1.mono (by omega)⟩
  · intro x hx
    obtain rfl | rfl : x = Scalar.max source.right target.right + ((clearance : Nat) : Float) ∨ x = target.x := by
      simpa [around] using hx
    · exact hchannel
    · exact ht.1.mono (by omega)
  · intro y hy
    obtain rfl | rfl | rfl : y = source.bottom + ((clearance : Nat) : Float) ∨
        y = target.top - ((clearance : Nat) : Float) ∨ y = target.top := by
      simpa [around] using hy
    · exact hbelow
    · exact habove
    · exact htop.mono (by omega)

theorem course_within : CourseWithin (k + 5) (course source target) := by
  rw [course]
  split
  · exact forward_within hs ht hk
  · exact around_within hs ht hk

theorem path_within : ∀ p ∈ path source target, p.Within (k + 5) := by
  have hcourse := course_within hs ht hk
  have hexit : source.exit.Within (k + 5) :=
    ⟨hs.1.mono (by omega), (source.bottom_within hs (by omega)).mono (by omega)⟩
  intro p hp
  obtain rfl | hp := List.mem_cons.mp ((straighten_sublist _).subset hp)
  · exact hexit
  · exact corners_forall hexit hcourse.toX hcourse.toY p hp

end Course

theorem labelWidth_le (label : String) : labelWidth label ≤ label.length * 7 + 8 := by
  rw [labelWidth]
  split
  · exact Nat.zero_le _
  · exact Nat.le_refl _

theorem labelHeight_le (label : String) : labelHeight label ≤ 14 := by
  rw [labelHeight]
  split
  · exact Nat.zero_le _
  · exact Nat.le_refl _

theorem half_label {label : String} (h : label.length ≤ 2 ^ 16) :
    Within 2 (Scalar.half (labelWidth label) : Float) ∧ Within 2 (Scalar.half (labelHeight label) : Float) := by
  have hwidth := labelWidth_le label
  have hheight := labelHeight_le label
  exact ⟨.half (by omega), .half (by omega)⟩

theorem anchor_within {leftMargin : Float} (hm : Within 3 leftMargin) {label : String}
    (hlabel : label.length ≤ 2 ^ 16) {c : Course Float} (hc : CourseWithin k c) (hk : k ≤ 2 ^ 49) :
    (anchor leftMargin label c).Within (k + 6) := by
  obtain ⟨hwidth, hheight⟩ := half_label hlabel
  have hgap : Within 1 ((labelGap : Nat) : Float) := .natCast (by decide)
  have hmiddle : Within (k + 2) ((c.runStart.x + c.runEnd) / ((2 : Nat) : Float)) :=
    ((hc.runStart.1.add hc.runEnd (by omega)).mono (by omega)).div_natCast (n := 2) (k := k + 1) (by decide)
      (by decide) (by omega)
  have hright := (hc.runStart.1.add hgap (by omega)).add hwidth (by omega)
  have hleft := hm.add hwidth (by omega)
  have habove := (hc.runStart.2.sub hgap (by omega)).sub hheight (by omega)
  refine ⟨?_, habove.mono (by omega)⟩
  rw [anchor]
  refine Within.max ?_ (hleft.mono (by omega))
  split
  · exact hmiddle.mono (by omega)
  · exact hright.mono (by omega)

theorem edge_within {leftMargin : Float} (hm : Within 3 leftMargin) {nodes : List (PlacedNode Float)}
    (hnodes : ∀ n ∈ nodes, n.Within k) (hk : k ≤ 2 ^ 48) {e : Edge} (hlabel : e.label.length ≤ 2 ^ 16) :
    EdgeWithin (k + 11) (edge leftMargin (.ofList (nodes.map fun n => (n.id, n))) e) := by
  have hfound {id : String} {n : PlacedNode Float}
      (h : (Table.ofList (nodes.map fun n => (n.id, n))).get? id = some n) : n.Within k := by
    obtain hnone | hmem := Table.mem_entries_putAll (Table.mem_entries_of_get? h)
    · cases hnone
    · obtain ⟨m, hm, heq⟩ := List.mem_map.mp hmem
      obtain ⟨-, rfl⟩ := Prod.mk.inj heq
      exact hnodes m hm
  rw [edge]
  split
  · next source target hsource htarget =>
    have hs := hfound hsource
    have ht := hfound htarget
    refine ⟨?_, ?_⟩
    · intro p hp
      exact (path_within hs ht (by omega) p hp).mono (by omega)
    · intro p hp
      have hanchor := anchor_within hm hlabel (course_within hs ht (by omega)) (by omega)
      rw [between] at hp
      split at hp
      · cases hp
      · obtain rfl := Option.some.inj hp
        exact hanchor.mono (by omega)
  · exact ⟨by simp, by simp⟩

end Route

namespace Canvas

variable {k : Nat} {margin : Float} {nodes : List (PlacedNode Float)} {edges : List (RoutedEdge Float)}

section

variable (hn : ∀ n ∈ nodes, n.Within k) (he : ∀ e ∈ edges, Route.EdgeWithin k e ∧ e.label.length ≤ 2 ^ 16)
  (hk : k ≤ 2 ^ 49)
include hn he hk

theorem tops_within : ∀ y ∈ tops nodes edges, Within (k + 3) y := by
  intro y hy
  obtain hy | hy := List.mem_append.mp hy
  · obtain ⟨n, hmem, rfl⟩ := List.mem_map.mp hy
    exact n.top_within (hn n hmem) (by omega)
  · obtain ⟨e, hmem, hy⟩ := List.mem_flatMap.mp hy
    obtain ⟨hedge, hlabel⟩ := he e hmem
    obtain hy | hy := List.mem_append.mp hy
    · obtain ⟨p, hp, rfl⟩ := List.mem_map.mp hy
      exact (hedge.path p hp).2.mono (by omega)
    · obtain ⟨p, hp, rfl⟩ := Option.map_eq_some_iff.mp (Option.mem_toList.mp hy)
      exact (hedge.anchor p hp).2.sub (Route.half_label hlabel).2 (by omega)

theorem corners_within : ∀ p ∈ corners nodes edges, p.Within (k + 3) := by
  intro p hp
  obtain hp | hp := List.mem_append.mp hp
  · obtain ⟨n, hmem, rfl⟩ := List.mem_map.mp hp
    exact ⟨n.right_within (hn n hmem) (by omega), n.bottom_within (hn n hmem) (by omega)⟩
  · obtain ⟨e, hmem, hp⟩ := List.mem_flatMap.mp hp
    obtain ⟨hedge, hlabel⟩ := he e hmem
    obtain hp | hp := List.mem_append.mp hp
    · exact (hedge.path p hp).mono (by omega)
    · obtain ⟨q, hq, rfl⟩ := Option.map_eq_some_iff.mp (Option.mem_toList.mp hp)
      obtain ⟨hwidth, hheight⟩ := Route.half_label hlabel
      have hanchor := hedge.anchor q hq
      exact ⟨hanchor.1.add hwidth (by omega), hanchor.2.add hheight (by omega)⟩

theorem overflow_within (hm : Within 3 margin) : Within (k + 7) (overflow margin nodes edges) := by
  have htops := tops_within hn he hk
  rw [overflow]
  cases hl : tops nodes edges with
  | nil => exact Within.zero.mono (by omega)
  | cons y ys =>
    rw [hl, List.forall_mem_cons] at htops
    have hmissing := hm.sub (htops.1.least htops.2) (by omega)
    exact (Within.zero.mono (by omega)).max (hmissing.mono (by omega))

theorem size_within (hm : Within 3 margin) :
    Within (k + 7) (size margin nodes edges).1 ∧ Within (k + 7) (size margin nodes edges).2 := by
  have hcorners := corners_within hn he hk
  have hextent {xs : List Float} (h : ∀ x ∈ xs, Within (k + 3) x) : Within (k + 7) (extent margin xs) :=
    ((Within.foldl_max (Within.zero.mono (by omega)) h).add hm (by omega)).mono (by omega)
  constructor
  · apply hextent
    intro x hx
    obtain ⟨p, hp, rfl⟩ := List.mem_map.mp hx
    exact (hcorners p hp).1
  · apply hextent
    intro y hy
    obtain ⟨p, hp, rfl⟩ := List.mem_map.mp hy
    exact (hcorners p hp).2

end

variable {dy : Float} (hdy : Within (k + 7) dy) (hk : k ≤ 2 ^ 49)
include hdy hk

theorem movePoint_within {p : Point Float} (hp : p.Within k) : (movePoint dy p).Within (2 * k + 8) :=
  ⟨hp.1.mono (by omega), (hp.2.add hdy (by omega)).mono (by omega)⟩

theorem moveNode_within {n : PlacedNode Float} (hn : n.Within k) : (moveNode dy n).Within (2 * k + 8) :=
  movePoint_within hdy hk (p := ⟨n.x, n.y⟩) hn

theorem moveEdge_within {e : RoutedEdge Float} (he : Route.EdgeWithin k e) :
    Route.EdgeWithin (2 * k + 8) (moveEdge dy e) := by
  constructor
  · intro p hp
    obtain ⟨q, hq, rfl⟩ := List.mem_map.mp hp
    exact movePoint_within hdy hk (he.path q hq)
  · intro p hp
    obtain ⟨q, hq, rfl⟩ := Option.map_eq_some_iff.mp hp
    exact movePoint_within hdy hk (he.anchor q hq)

end Canvas

structure Diagram.Within (k : Nat) (d : Diagram Float) : Prop where
  nodes : ∀ n ∈ d.nodes, n.Within k
  edges : ∀ e ∈ d.edges, Route.EdgeWithin k e
  width : Binary64.Within k d.width
  height : Binary64.Within k d.height

theorem Diagram.Within.mono {j k : Nat} {d : Diagram Float} (h : d.Within j) (hjk : j ≤ k) : d.Within k :=
  ⟨fun n hn => (h.nodes n hn).mono hjk, fun e he => (h.edges e he).mono hjk, h.width.mono hjk, h.height.mono hjk⟩

namespace Quantity

/-- The number that was given, if it is finite. -/
def number? : Quantity Float → Option Rat
  | int n => some n
  | real x => real? x

/-- The setting is finite, and far from the limits of the coordinates. -/
def Moderate (q : Quantity Float) : Prop := ∃ r, q.number? = some r ∧ |r| ≤ 10 ^ 290

instance (q : Quantity Float) : Decidable q.Moderate :=
  match h : q.number? with
  | some r => decidable_of_iff (|r| ≤ 10 ^ 290) (by simp [Moderate, h])
  | none => .isFalse (by simp [Moderate, h])

theorem Moderate.value {q : Quantity Float} (h : q.Moderate) : ∃ x, q.value = .ok x ∧ Binary64.Within 3 x := by
  obtain ⟨r, hr, hle⟩ := h
  have hunit : |r / unit| ≤ 1 := by
    have hlarge : (10 : Rat) ^ 290 ≤ unit := by
      calc (10 : Rat) ^ 290 = (10 ^ 29) ^ 10 := by rw [← pow_mul]
        _ ≤ (2 ^ 97) ^ 10 := pow_le_pow_left₀ (by norm_num) (by norm_num) 10
        _ = 2 ^ 970 := by rw [← pow_mul]
        _ = unit := by rw [unit, zpow_ofNat]
    rw [abs_div, abs_of_pos unit_pos]
    exact (div_le_one unit_pos).mpr (hle.trans hlarge)
  have hscale : r / unit * unit = r := div_mul_cancel₀ r unit_pos.ne'
  cases q with
  | real x =>
    refine ⟨x, rfl, r / unit, ?_, hunit.trans (by norm_num)⟩
    rw [Amounts, hscale]
    exact hr
  | int n =>
    obtain rfl := Option.some.inj hr
    have hdouble : ((2 * n : Int) : Rat) / 2 = (n : Rat) / unit * unit := by
      rw [hscale]
      push_cast
      ring
    obtain ⟨x, a, hx, ha, herror⟩ := half?_amounts hdouble (hunit.trans (by norm_num))
    refine ⟨x, ?_, a, ha, ?_⟩
    · rw [Quantity.value, Scalar.ofInt, hx]
    · have htriangle := abs_sub_abs_le_abs_sub a (n / unit)
      push_cast
      linarith

end Quantity

def Config.quantities {α : Type} (c : Config α) : List (Quantity α) :=
  [c.minSpacing, c.levelSpacing, c.baseX, c.baseY, c.leftMargin, c.canvasMargin]

namespace Settings

variable {c : Config Float} {s : Settings Float}

def ValueWithin (q : Quantity Float) : Prop := ∃ x, q.value = .ok x ∧ Within 3 x

theorem ofConfig_moderate (h : ofConfig c = .ok s) (hc : ∀ q ∈ c.quantities, q.Moderate) :
    s.spacing.Moderate ∧ ValueWithin s.leftMargin ∧ ValueWithin s.canvasMargin := by
  have hvalue {q : Quantity Float} (hq : q ∈ c.quantities) : ValueWithin q := (hc q hq).value
  have hwithin {q : Quantity Float} (hq : q ∈ c.quantities) {x : Float} (hx : q.value = .ok x) : Within 3 x := by
    obtain ⟨y, hy, hle⟩ := hvalue hq
    obtain rfl := Except.ok.inj (hx.symm.trans hy)
    exact hle
  have hgiven := given h
  rw [hgiven.leftMargin, hgiven.canvasMargin]
  refine ⟨⟨hwithin ?_ hgiven.minSpacing, hwithin ?_ hgiven.levelSpacing, hwithin ?_ hgiven.baseX,
    hwithin ?_ hgiven.baseY, hwithin ?_ hgiven.margin⟩, hvalue ?_, hvalue ?_⟩
  all_goals simp [Config.quantities]

theorem fanned_parents {ids : List String} {edges : List Edge} {n : Nat} (h : edges.length ≤ n) :
    Spacing.Fanned n (Graph.build ids edges).parents := by
  intro id
  have harcs : (Graph.build ids edges).arcs.length ≤ n := by
    refine (length_distinct_le _).trans ?_
    rw [List.length_map]
    exact (List.length_filter_le _ _).trans h
  rw [Graph.get?_parents]
  split
  · rw [Graph.predecessors, List.length_map]
    exact (List.length_filter_le _ _).trans harcs
  · exact Nat.zero_le n

section Planned

variable {text : String} {p : Plan Float} (hp : s.Planned (Document.read text) p) (hs : s.spacing.Moderate)
  (hne : (Document.read text).nodes ≠ []) (ht : text.length ≤ 2 ^ 16)
include hp hs hne ht

theorem Planned.nodes_within : ∀ n ∈ p.nodes, n.Within (2 ^ 38) := by
  have hn := Document.nodup_ids text
  obtain ⟨reached, hsound⟩ := hp.sound hne hn
  have hperm := hsound.perm hn
  have hcap : p.levels.layers.flatten.length ≤ 2 ^ 16 := by
    rw [hperm.length_eq, List.length_map]
    exact (Document.length_nodes_le text).trans ht
  have hparents : Spacing.Fanned (2 ^ 16) p.graph.parents := by
    rw [hp.graph]
    exact fanned_parents ((Document.length_edges_le text).trans ht)
  obtain ⟨t, hpositions, hwithin⟩ := Spacing.positions_within hs hparents hsound.layered.nodup hsound.filled hcap
    (Document.kinds_layers hn hperm)
  obtain rfl := Except.ok.inj (hp.positions.symm.trans hpositions)
  intro n hmem
  obtain ⟨hx, hy⟩ := hwithin _ (Table.mem_entries_of_get? (hp.place n hmem))
  exact ⟨hx, hy⟩

theorem Planned.edges_within :
    ∀ e ∈ p.edges, Route.EdgeWithin (2 ^ 38 + 11) e ∧ e.label.length ≤ 2 ^ 16 := by
  intro e he
  rw [hp.edges] at he
  obtain ⟨e, hmem, rfl⟩ := List.mem_map.mp he
  have hlabel := (Document.length_label_le hmem).trans ht
  rw [Route.toEdge_edge]
  exact ⟨Route.edge_within hs.leftMargin (hp.nodes_within hs hne ht) (by decide) hlabel, hlabel⟩

end Planned

theorem frame_within (hleft : ValueWithin s.leftMargin) (hmargin : ValueWithin s.canvasMargin) {p : Plan Float}
    {k : Nat} (hn : ∀ n ∈ p.nodes, n.Within k)
    (he : ∀ e ∈ p.edges, Route.EdgeWithin k e ∧ e.label.length ≤ 2 ^ 16) (hk : k ≤ 2 ^ 47) :
    ∃ shift d, s.frame p = .ok (shift, d) ∧ d.Within (2 * k + 15) := by
  obtain ⟨left, hleft, hleft3⟩ := hleft
  obtain ⟨margin, hmargin, hmargin3⟩ := hmargin
  obtain ⟨shift, nodes, edges, hoverflow, hframe, hshifted⟩ := frame_eq hleft hmargin p
  have hshift : Within (k + 7) shift := hoverflow ▸ Canvas.overflow_within hn he (by omega) hleft3
  have hmoved : (∀ n ∈ nodes, n.Within (2 * k + 8)) ∧
      ∀ e ∈ edges, Route.EdgeWithin (2 * k + 8) e ∧ e.label.length ≤ 2 ^ 16 := by
    obtain ⟨rfl, rfl⟩ | ⟨rfl, rfl⟩ := hshifted
    · exact ⟨fun n hmem => (hn n hmem).mono (by omega),
        fun e hmem => ⟨(he e hmem).1.mono (by omega), (he e hmem).2⟩⟩
    · constructor
      · intro n hmem
        obtain ⟨m, hm, rfl⟩ := List.mem_map.mp hmem
        exact Canvas.moveNode_within hshift (by omega) (hn m hm)
      · intro e hmem
        obtain ⟨e, hm, rfl⟩ := List.mem_map.mp hmem
        exact ⟨Canvas.moveEdge_within hshift (by omega) (he e hm).1, (he e hm).2⟩
  obtain ⟨hnodes, hedges⟩ := hmoved
  have hsize := Canvas.size_within hnodes hedges (by omega) hmargin3
  exact ⟨shift, _, hframe, fun n hmem => (hnodes n hmem).mono (by omega),
    fun e hmem => (hedges e hmem).1.mono (by omega), hsize.1, hsize.2⟩

/-- On moderate settings every text of a moderate length has a diagram whose numbers are far from the limits, if it
has one. -/
theorem run_within (h : ofConfig c = .ok s) (hc : ∀ q ∈ c.quantities, q.Moderate) {text : String}
    (hne : (Document.read text).nodes ≠ []) (ht : text.length ≤ 2 ^ 16) :
    ∃ p shift d, s.run text = .framed (Document.read text) p shift d ∧ d.Within (2 ^ 40) := by
  obtain ⟨hs, hleft, hmargin⟩ := ofConfig_moderate h hc
  obtain ⟨p, hp, hplanned⟩ := plan_spec s hne (Document.nodup_ids text)
  have hnodes := hplanned.nodes_within hs hne ht
  have hedges := hplanned.edges_within hs hne ht
  obtain ⟨shift, d, hd, hwithin⟩ := frame_within hleft hmargin (k := 2 ^ 38 + 11)
    (fun n hmem => (hnodes n hmem).mono (by decide)) hedges (by decide)
  refine ⟨p, shift, d, ?_, hwithin.mono (by decide)⟩
  rw [run]
  simp only [if_neg hne, hp, hd]

end Settings

end FlowDiagram
