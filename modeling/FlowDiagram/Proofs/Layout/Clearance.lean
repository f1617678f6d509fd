import FlowDiagram.Proofs.Layout.Diagram
import FlowDiagram.Proofs.Layout.Line

namespace FlowDiagram

theorem Kind.height_ge (k : Kind) : 50 ≤ k.height := by cases k <;> decide

theorem PlacedNode.shortest_le_height (n : PlacedNode Rat) : 50 ≤ (n.kind.height : Rat) := by
  exact_mod_cast n.kind.height_ge

namespace Arranged

variable {s : Spacing Rat} {doc : Document} {nodes : List (PlacedNode Rat)} {u v n : PlacedNode Rat}

theorem y_eq (h : Arranged s doc nodes) (hu : u ∈ nodes) (hn : n ∈ nodes) (hlevel : n.level = u.level) :
    n.y = u.y := by
  have hy := h.y_sub hn hu
  rw [hlevel, sub_self, zero_mul] at hy
  exact sub_eq_zero.mp hy

theorem y_next (h : Arranged s doc nodes) (hu : u ∈ nodes) (hv : v ∈ nodes)
    (hnext : v.level = u.level + 1) : v.y = u.y + s.levelSpacing := by
  have hy := h.y_sub hv hu
  have hone : (v.level : Rat) - u.level = 1 := by
    rw [hnext]
    push_cast
    ring
  rw [hone, one_mul] at hy
  linarith

theorem level_next (h : Arranged s doc nodes) (hs : 80 < s.levelSpacing) {e : Edge} (he : e ∈ doc.edges)
    (hu : u ∈ nodes) (hv : v ∈ nodes) (hsource : u.id = e.source) (htarget : v.id = e.target)
    (hbelow : u.bottom < v.top) : v.level = u.level + 1 := by
  have hrise := h.rise e he u hu v hv hsource htarget
  have hlt := (h.bottom_lt_top hs hu hv).mp hbelow
  omega

/-- Far enough apart, two rows leave room for the middle line between any two of their boxes. -/
theorem middle_clear (h : Arranged s doc nodes) (hs : 95 < s.levelSpacing) (hu : u ∈ nodes)
    (hv : v ∈ nodes) (hn : n ∈ nodes) (hnext : v.level = u.level + 1) :
    (n.level = u.level → n.bottom < Route.middle u v) ∧
      (n.level = v.level → Route.middle u v < n.top) := by
  have hy := h.y_next hu hv hnext
  have hbottom := u.bottom_rat
  have htop := v.top_rat
  have hshort := u.shortest_le_height
  have htall := u.height_le_tallest
  have hshort' := v.shortest_le_height
  have htall' := v.height_le_tallest
  have hn' := n.height_le_tallest
  rw [Route.middle]
  constructor
  · intro hlevel
    have hrow := h.y_eq hu hn hlevel
    rw [n.bottom_rat]
    linarith
  · intro hlevel
    have hrow := h.y_eq hv hn hlevel
    rw [n.top_rat]
    linarith

theorem outside_column (h : Arranged s doc nodes) (hs : 100 ≤ s.minSpacing) (hu : u ∈ nodes) (hn : n ∈ nodes)
    (hne : n.id ≠ u.id) (hlevel : n.level = u.level) : ¬ (n.left ≤ u.x ∧ u.x ≤ n.right) := by
  intro hin
  obtain ⟨hleft, hright⟩ := hin
  rw [n.left_rat] at hleft
  rw [n.right_rat] at hright
  have hwidth := n.width_le_widest
  obtain hfar | hfar := le_abs.mp (h.apart n hn u hu hne hlevel) <;> linarith

theorem not_above (h : Arranged s doc nodes) (hs : 100 ≤ s.minSpacing) (hu : u ∈ nodes) (hn : n ∈ nodes)
    (hne : n.id ≠ u.id) (hlevel : n.level = u.level) : ¬ (n.left < u.x ∧ u.x < n.right) := fun hin =>
  h.outside_column hs hu hn hne hlevel ⟨hin.1.le, hin.2.le⟩

theorem line_clear (h : Arranged s doc nodes) (hids : (nodes.map (·.id)).Nodup) (hmin : 100 ≤ s.minSpacing)
    (hs : 95 < s.levelSpacing) (hu : u ∈ nodes) (hv : v ∈ nodes) (hn : n ∈ nodes)
    (hnext : v.level = u.level + 1) : Route.line (Route.path u v) ∩ n.extent.interior = ∅ := by
  have hlevels : 80 < s.levelSpacing := by linarith
  have hbelow : u.bottom < v.top := (h.bottom_lt_top hlevels hu hv).mpr (by omega)
  obtain ⟨hdown, hup⟩ := h.middle_clear hs hu hv hn hnext
  obtain habove | hrow | hlower := lt_trichotomy n.level u.level
  · have hclear := (h.bottom_lt_top hlevels hn hu).mpr habove
    exact Route.line_avoids_above hbelow (hclear.le.trans u.top_le_bottom)
  · by_cases hid : n.id = u.id
    · obtain rfl := List.inj_on_of_nodup_map hids hn hu hid
      exact Route.line_avoids_above hbelow le_rfl
    · exact Route.line_avoids_source hbelow (hdown hrow).le (h.not_above hmin hu hn hid hrow)
  · obtain hrow | hlower : n.level = v.level ∨ v.level < n.level := by omega
    · by_cases hid : n.id = v.id
      · obtain rfl := List.inj_on_of_nodup_map hids hn hv hid
        exact Route.line_avoids_below hbelow le_rfl
      · exact Route.line_avoids_target hbelow (hup hrow).le (h.not_above hmin hv hn hid hrow)
    · have hclear := (h.bottom_lt_top hlevels hv hn).mpr hlower
      exact Route.line_avoids_below hbelow (v.top_le_bottom.trans hclear.le)

/-- In two rows that are close together, the middle line between a task and a gateway is not below a gateway
that stands beside the task. -/
theorem middle_blocked (h : Arranged s doc nodes) (hs : s.levelSpacing ≤ 95) (hu : u ∈ nodes)
    (hv : v ∈ nodes) (hn : n ∈ nodes) (hnext : v.level = u.level + 1) (hrow : n.level = u.level)
    (hsource : u.kind = .task) (htarget : v.kind = .gateway) (hbeside : n.kind = .gateway) :
    Route.middle u v ≤ n.bottom := by
  have hy := h.y_next hu hv hnext
  have hy' := h.y_eq hu hn hrow
  have hsource' : (u.kind.height : Rat) = 50 := by rw [hsource]; rfl
  have htarget' : (v.kind.height : Rat) = 80 := by rw [htarget]; rfl
  have hbeside' : (n.kind.height : Rat) = 80 := by rw [hbeside]; rfl
  rw [Route.middle, u.bottom_rat, v.top_rat, n.bottom_rat, hsource', htarget', hbeside']
  linarith

end Arranged

/-- The horizontal run of each forward edge lies below all boxes of the row that it leaves and above all
boxes of the row that it leads to. -/
def Diagram.RunsClear (d : Diagram Rat) : Prop :=
  ∀ e ∈ d.edges, ∀ u ∈ d.nodes, ∀ v ∈ d.nodes, u.id = e.source → v.id = e.target → u.bottom < v.top →
    ∀ p q, [p, q] <:+: e.path → p.y = q.y → ∀ n ∈ d.nodes,
      (n.level = u.level → n.bottom < p.y) ∧ (n.level = v.level → p.y < n.top)

namespace Settings

variable {c : Config Rat} {s : Settings Rat}

namespace Drawn

variable {text : String} {shift : Rat} {d : Diagram Rat} {e : RoutedEdge Rat}
  {u v n : PlacedNode Rat}

theorem path_eq (h : Drawn c (Document.read text) shift d) (he : e ∈ d.edges) (hu : u ∈ d.nodes)
    (hv : v ∈ d.nodes) (hsource : u.id = e.source) (htarget : v.id = e.target) :
    e.toEdge ∈ (Document.read text).edges ∧ e.path = Route.path u v := by
  rw [h.edges] at he
  obtain ⟨hmem, hbetween⟩ := Route.mem_all h.nodup_ids he hu hv hsource htarget
  exact ⟨hmem, by rw [hbetween]; rfl⟩

theorem runsClear (h : Drawn c (Document.read text) shift d) (hlevel : 95 < c.exact.levelSpacing) :
    d.RunsClear := by
  intro e he u hu v hv hsource htarget hbelow p q hpq hy n hn
  obtain ⟨hmem, hpath⟩ := h.path_eq he hu hv hsource htarget
  have hnext := h.arranged.level_next (by linarith) hmem hu hv hsource htarget hbelow
  rw [hpath] at hpq
  obtain ⟨-, rfl, -⟩ := (Route.run_forward hbelow p q).mp ⟨hpq, hy⟩
  exact h.arranged.middle_clear hlevel hu hv hn hnext

/-- In rows that are close together, an edge from a task to a gateway of the next level is in the way of a
gateway beside the task, unless it leads straight down. -/
theorem straight (h : Drawn c (Document.read text) shift d) (hlevel : 80 < c.exact.levelSpacing)
    (hclose : c.exact.levelSpacing ≤ 95) (hclear : d.RunsClear) (he : e ∈ d.edges) (hu : u ∈ d.nodes)
    (hv : v ∈ d.nodes) (hsource : u.id = e.source) (htarget : v.id = e.target) (hnext : v.level = u.level + 1)
    (hn : n ∈ d.nodes) (hrow : n.level = u.level) (htask : u.kind = .task) (hgateway : v.kind = .gateway)
    (hbeside : n.kind = .gateway) : u.x = v.x := by
  by_contra hx
  have hbelow : u.bottom < v.top := (h.arranged.bottom_lt_top hlevel hu hv).mpr (by omega)
  obtain ⟨hrun, hy⟩ := (Route.run_forward hbelow _ _).mpr ⟨hx, rfl, rfl⟩
  rw [← (h.path_eq he hu hv hsource htarget).2] at hrun
  have hfree := (hclear e he u hu v hv hsource htarget hbelow _ _ hrun hy n hn).1 hrow
  have hblocked := h.arranged.middle_blocked hclose hu hv hn hnext hrow htask hgateway hbeside
  exact absurd hfree (not_lt.mpr hblocked)

end Drawn

/-- A task and a gateway in one row, and two edges from the task to a row of two gateways. -/
def crowded : String :=
  "startEvent s \"S\"\ntask a \"A\"\ngateway b \"B\"\ngateway c \"C\"\ngateway d \"D\"\n" ++
    "s -> a\ns -> b\na -> c\na -> d"

set_option maxRecDepth 2000 in
theorem read_crowded : Document.read crowded =
    ⟨[⟨"s", .startEvent, "S", none⟩, ⟨"a", .task, "A", none⟩, ⟨"b", .gateway, "B", none⟩,
      ⟨"c", .gateway, "C", none⟩, ⟨"d", .gateway, "D", none⟩],
      [⟨"s", "a", ""⟩, ⟨"s", "b", ""⟩, ⟨"a", "c", ""⟩, ⟨"a", "d", ""⟩], []⟩ := by
  rfl

/-- With rows at the usual distance, a forward edge passes through no box. Of its own two boxes it touches
one point each: the middle of the lower side of the source, and of the upper side of the target. -/
theorem run_forward_clear (h : ofConfig c = .ok s) (hlevel : c.levelSpacing.exact = 120) (text : String) :
    ∃ r, (s.run text).result = .ok r ∧
      (r.picture.diagram? = none ↔ (Document.read text).nodes = []) ∧
      ∀ d, r.picture.diagram? = some d →
        d.nodes.map (·.toNode) = (Document.read text).nodes ∧
        d.edges.map (·.toEdge) = (Document.read text).edges ∧
        ∀ e ∈ d.edges, ∀ u ∈ d.nodes, ∀ v ∈ d.nodes, u.id = e.source → v.id = e.target →
          u.bottom < v.top →
            (∀ n ∈ d.nodes, Route.line e.path ∩ n.extent.interior = ∅) ∧
            Route.line e.path ∩ u.extent.box = {u.exit} ∧
            Route.line e.path ∩ v.extent.box = {v.entry} := by
  obtain ⟨hmin, -, -, -, -⟩ := (ofConfig_eq_ok c s).mp h
  have hfar : 95 < c.exact.levelSpacing := by
    change 95 < c.levelSpacing.exact
    rw [hlevel]
    norm_num
  obtain ⟨r, hr, hnone, hsome⟩ := run_result h text
  refine ⟨r, hr, hnone, ?_⟩
  intro d hd
  obtain ⟨shift, hdrawn⟩ := hsome d hd
  refine ⟨hdrawn.arranged.declared, hdrawn.declared, ?_⟩
  intro e he u hu v hv hsource htarget hbelow
  obtain ⟨hmem, hpath⟩ := hdrawn.path_eq he hu hv hsource htarget
  have hnext := hdrawn.arranged.level_next (by linarith) hmem hu hv hsource htarget hbelow
  rw [hpath]
  refine ⟨?_, Route.line_inter_source hbelow, Route.line_inter_target hbelow⟩
  intro n hn
  exact hdrawn.arranged.line_clear hdrawn.nodup_ids hmin hfar hu hv hn hnext

theorem run_forward_clear_crowded :
    let s : Settings Rat := ⟨⟨150, 120, 100, 60, 20⟩, .int 20, .int 40⟩
    ofConfig {} = .ok s ∧ ({} : Config Rat).levelSpacing.exact = 120 ∧
      ∃ r d, (s.run crowded).result = .ok r ∧ r.picture.diagram? = some d ∧
        d.nodes.map (·.id) = ["s", "a", "b", "c", "d"] ∧
        ∀ e ∈ d.edges, ∀ u ∈ d.nodes, ∀ v ∈ d.nodes, u.id = e.source → v.id = e.target →
          u.bottom < v.top →
            (∀ n ∈ d.nodes, Route.line e.path ∩ n.extent.interior = ∅) ∧
            Route.line e.path ∩ u.extent.box = {u.exit} ∧
            Route.line e.path ∩ v.extent.box = {v.entry} := by
  intro s
  have hs : ofConfig {} = .ok s := ofConfig_default
  have hlevel : ({} : Config Rat).levelSpacing.exact = 120 := rfl
  obtain ⟨r, hr, hnone, hsome⟩ := run_forward_clear hs hlevel crowded
  rw [read_crowded] at hnone
  obtain ⟨d, hd⟩ := Option.ne_none_iff_exists'.mp fun hn => List.cons_ne_nil _ _ (hnone.mp hn)
  obtain ⟨hdecl, -, hall⟩ := hsome d hd
  refine ⟨hs, hlevel, r, d, hr, hd, ?_, hall⟩
  rw [ids_of_declared hdecl, read_crowded]
  rfl

theorem Planned.exists_moved {doc : Document} {p : Plan Rat} {shift : Rat} {d : Diagram Rat}
    (hp : s.Planned doc p) (hf : s.Framed p shift d) {m : Node} (hm : m ∈ doc.nodes) {k : Nat}
    (hk : p.levels.level.get? m.id = some k) : ∃ n ∈ d.nodes, n.toNode = m ∧ n.level = k := by
  rw [← hp.declared] at hm
  obtain ⟨n, hn, rfl⟩ := List.mem_map.mp hm
  obtain ⟨i, hi, hlevel⟩ := hp.level n hn
  obtain rfl : i = k := Option.some.inj (hi.symm.trans hk)
  refine ⟨Canvas.moveNode shift n, ?_, rfl, hlevel⟩
  rw [hf.nodes]
  exact List.mem_map_of_mem hn

theorem eq_ok_of_toOption {β : Type} {r : Except Fault β} {b : β} (h : r.toOption = some b) : r = .ok b := by
  cases r with
  | error fault => cases h
  | ok a => exact congrArg Except.ok (Option.some.inj h)

theorem assign_crowded :
    ∃ l, Levels.assign (.build ((Document.read crowded).nodes.map (·.id)) (Document.read crowded).edges)
        (Document.read crowded).nodes = .ok l ∧
      l.level.get? "a" = some 1 ∧ l.level.get? "b" = some 1 ∧ l.level.get? "c" = some 2 ∧
      l.level.get? "d" = some 2 := by
  rw [read_crowded]
  have hlevels : (Levels.assign (.build ["s", "a", "b", "c", "d"]
      [⟨"s", "a", ""⟩, ⟨"s", "b", ""⟩, ⟨"a", "c", ""⟩, ⟨"a", "d", ""⟩])
      [⟨"s", .startEvent, "S", none⟩, ⟨"a", .task, "A", none⟩, ⟨"b", .gateway, "B", none⟩,
        ⟨"c", .gateway, "C", none⟩, ⟨"d", .gateway, "D", none⟩]).toOption.map
      (fun l => ["a", "b", "c", "d"].map l.level.get?) = some [some 1, some 1, some 2, some 2] := rfl
  obtain ⟨l, hl, hget⟩ := Option.map_eq_some_iff.mp hlevels
  simp only [List.map_cons, List.map_nil, List.cons.injEq] at hget
  obtain ⟨ha, hb, hc, hd, -⟩ := hget
  exact ⟨l, eq_ok_of_toOption hl, ha, hb, hc, hd⟩

theorem crowded_blocked (h : ofConfig c = .ok s) (hclose : c.levelSpacing.exact ≤ 95) :
    ∃ r d, (s.run crowded).result = .ok r ∧ r.picture.diagram? = some d ∧ ¬ d.RunsClear := by
  obtain ⟨hmin, hlevel, -, -, -⟩ := (ofConfig_eq_ok c s).mp h
  have hne : (Document.read crowded).nodes ≠ [] := by
    rw [read_crowded]
    exact List.cons_ne_nil _ _
  obtain ⟨p, shift, d, hrun, hp, hf⟩ := run_planned s hne
  have hdrawn := hp.drawn h hne hf
  refine ⟨⟨.diagram d, Run.diagnostics (Document.read crowded) p⟩, d, by rw [hrun]; rfl, rfl, ?_⟩
  intro hclear
  have ha := hdrawn.arranged
  obtain ⟨l, hl, hla, hlb, hlc, hld⟩ := assign_crowded
  rw [← hp.graph, hp.levels] at hl
  obtain rfl := Except.ok.inj hl
  have hnodes : (⟨"a", .task, "A", none⟩ : Node) ∈ (Document.read crowded).nodes ∧
      ⟨"b", .gateway, "B", none⟩ ∈ (Document.read crowded).nodes ∧
      ⟨"c", .gateway, "C", none⟩ ∈ (Document.read crowded).nodes ∧
      ⟨"d", .gateway, "D", none⟩ ∈ (Document.read crowded).nodes := by
    rw [read_crowded]
    simp
  obtain ⟨hna, hnb, hnc, hnd⟩ := hnodes
  obtain ⟨a, hma, hta, hleva⟩ := hp.exists_moved hf hna hla
  obtain ⟨b, hmb, htb, hlevb⟩ := hp.exists_moved hf hnb hlb
  obtain ⟨v, hmv, htv, hlevv⟩ := hp.exists_moved hf hnc hlc
  obtain ⟨w, hmw, htw, hlevw⟩ := hp.exists_moved hf hnd hld
  have hida : a.id = "a" := congrArg Node.id hta
  have hidv : v.id = "c" := congrArg Node.id htv
  have hidw : w.id = "d" := congrArg Node.id htw
  have hstraight : ∀ n ∈ d.nodes, n.level = 2 → n.kind = .gateway →
      (⟨"a", n.id, ""⟩ : Edge) ∈ (Document.read crowded).edges → a.x = n.x := by
    intro n hn hlevn hkind he
    rw [← hdrawn.declared] at he
    obtain ⟨e, he, heq⟩ := List.mem_map.mp he
    exact hdrawn.straight hlevel hclose hclear he hma hn (hida.trans (congrArg Edge.source heq).symm)
      (congrArg Edge.target heq).symm (by omega) hmb (by omega) (congrArg Node.kind hta) hkind
      (congrArg Node.kind htb)
  have hxv := hstraight v hmv hlevv (congrArg Node.kind htv) (by rw [hidv, read_crowded]; simp)
  have hxw := hstraight w hmw hlevw (congrArg Node.kind htw) (by rw [hidw, read_crowded]; simp)
  have hapart := ha.apart v hmv w hmw (by rw [hidv, hidw]; decide) (by omega)
  have hmin' : 100 ≤ c.exact.minSpacing := hmin
  rw [← hxv, ← hxw, sub_self, abs_zero] at hapart
  linarith

/-- All runs keep clear of the boxes of the two rows, in every diagram, exactly if the rows are more than 95
apart: half the height of a task and the full height of a gateway must leave room above and below. -/
theorem runs_clear_iff (h : ofConfig c = .ok s) :
    (∀ text, ∃ r, (s.run text).result = .ok r ∧
      ∀ d, r.picture.diagram? = some d → d.RunsClear) ↔ 95 < c.levelSpacing.exact := by
  constructor
  · intro hall
    by_contra hclose
    obtain ⟨r, d, hr, hd, hblocked⟩ := crowded_blocked h (not_lt.mp hclose)
    obtain ⟨r', hr', hclear⟩ := hall crowded
    obtain rfl := Except.ok.inj (hr.symm.trans hr')
    exact hblocked (hclear d hd)
  · intro hfar text
    obtain ⟨r, hr, -, hsome⟩ := run_result h text
    refine ⟨r, hr, ?_⟩
    intro d hd
    obtain ⟨shift, hdrawn⟩ := hsome d hd
    exact hdrawn.runsClear hfar

theorem ofConfig_level (k : Int) (h : 80 < k) :
    ofConfig ({ levelSpacing := .int k } : Config Rat) =
      .ok ⟨⟨150, k, 100, 60, 20⟩, .int 20, .int 40⟩ := by
  have hk : (80 : Rat) < k := by exact_mod_cast h
  apply (ofConfig_eq_ok _ _).mpr
  refine ⟨?_, hk, ?_, ?_, rfl⟩ <;> norm_num [Quantity.exact]

theorem runs_clear_iff_ninetySix :
    let c : Config Rat := { levelSpacing := .int 96 }
    let s : Settings Rat := ⟨⟨150, 96, 100, 60, 20⟩, .int 20, .int 40⟩
    ofConfig c = .ok s ∧
      ∀ text, ∃ r, (s.run text).result = .ok r ∧ ∀ d, r.picture.diagram? = some d → d.RunsClear := by
  intro c s
  have hs : ofConfig c = .ok s := ofConfig_level 96 (by decide)
  have hfar : 95 < c.levelSpacing.exact := by decide +kernel
  exact ⟨hs, (runs_clear_iff hs).mpr hfar⟩

/-- At the least accepted whole distance, 81, a run passes through a gateway that is not its own. -/
theorem crowded_blocked_eightyOne :
    let c : Config Rat := { levelSpacing := .int 81 }
    let s : Settings Rat := ⟨⟨150, 81, 100, 60, 20⟩, .int 20, .int 40⟩
    ofConfig c = .ok s ∧
      ∃ r d, (s.run crowded).result = .ok r ∧ r.picture.diagram? = some d ∧ ¬ d.RunsClear := by
  intro c s
  have hs : ofConfig c = .ok s := ofConfig_level 81 (by decide)
  have hclose : c.levelSpacing.exact ≤ 95 := by decide +kernel
  exact ⟨hs, crowded_blocked hs hclose⟩

end Settings

end FlowDiagram
