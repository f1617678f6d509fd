import FlowDiagram.Proofs.Graph.Alike
import FlowDiagram.Proofs.Layout.Placement

namespace FlowDiagram

namespace Graph

theorem filter_successors (g : Graph) (u : String) (seen : List String) :
    (g.successors u).filter (· ∉ seen) =
      g.arcs.filterMap fun a => if a.1 = u ∧ a.2 ∉ seen then some a.2 else none := by
  rw [successors]
  induction g.arcs with
  | nil => rfl
  | cons a arcs ih =>
    by_cases hu : a.1 = u
    · by_cases hv : a.2 ∈ seen
      · simpa [hu, hv] using ih
      · simpa [hu, hv] using ih
    · simpa [hu] using ih

theorem filterMap_predecessors {β : Type} (g : Graph) (v : String) (f : String → Option β) :
    (g.predecessors v).filterMap f = g.arcs.filterMap fun a => if a.2 = v then f a.1 else none := by
  rw [predecessors]
  induction g.arcs with
  | nil => rfl
  | cons a arcs ih =>
    by_cases hv : a.2 = v
    · cases hf : f a.1 with
      | none => simpa [hv, hf] using ih
      | some b => simpa [hv, hf] using ih
    · simpa [hv] using ih

/-- The graphs differ in one arc at most: in whether it is there, and where it stands. -/
structure SameBut (a : String × String) (g g' : Graph) : Prop where
  nodes : g'.nodes = g.nodes
  arcs : g'.arcs.filter (· ≠ a) = g.arcs.filter (· ≠ a)

theorem arcs_insert_dangling {ids : List String} {e : Edge} (h : e.missing ids ≠ [])
    (before after : List Edge) :
    (build ids (before ++ e :: after)).arcs = (build ids (before ++ after)).arcs := by
  simp [build, h]

theorem sameBut_insert (ids : List String) (before after : List Edge) (e : Edge) :
    SameBut (e.source, e.target) (build ids (before ++ after)) (build ids (before ++ e :: after)) := by
  refine ⟨rfl, ?_⟩
  by_cases hm : e.missing ids = []
  · rw [arcs_build, arcs_build, pairs_insert hm, pairs_append]
    exact filter_distinct_insert _ _ _
  · rw [arcs_insert_dangling hm]

theorem arcs_insert_repeated (ids : List String) {before : List Edge} {e e' : Edge} (hmem : e' ∈ before)
    (hs : e'.source = e.source) (ht : e'.target = e.target) (after : List Edge) :
    (build ids (before ++ e :: after)).arcs = (build ids (before ++ after)).arcs := by
  by_cases hm : e.missing ids = []
  · have hm' : e'.missing ids = [] := by rw [Edge.missing, hs, ht, ← Edge.missing, hm]
    have hpair : (e.source, e.target) ∈ pairs ids before :=
      List.mem_map.mpr ⟨e', List.mem_filter.mpr ⟨hmem, decide_eq_true hm'⟩, by rw [hs, ht]⟩
    rw [arcs_build, arcs_build, pairs_insert hm, pairs_append]
    exact distinct_insert hpair _
  · exact arcs_insert_dangling hm before after

theorem alike_of_arcs {g g' : Graph} (hnodes : g'.nodes = g.nodes) (harcs : g'.arcs = g.arcs)
    (start : String) : Alike g g' start where
  size := by rw [hnodes]
  mem_nodes := by rw [hnodes]
  children u k hd seen hseen := by rw [successors, successors, harcs]

theorem sameParents_of_arcs {g g' : Graph} (hnodes : g'.nodes = g.nodes) (harcs : g'.arcs = g.arcs)
    (layers : List (List String)) (α : Type) [Scalar α] :
    Spacing.SameParents α layers g.parents g'.parents := by
  intro before layer after _ placed _ id _
  have hsame : g'.parents = g.parents := by
    simp only [parents, predecessors, hnodes, harcs]
  rw [hsame]

namespace SameBut

variable {g g' : Graph} {u v : String}

theorem filterMap_arcs {a : String × String} (h : SameBut a g g') {β : Type}
    {f : String × String → Option β} (hf : f a = none) : g'.arcs.filterMap f = g.arcs.filterMap f := by
  have hskip (arcs : List (String × String)) : (arcs.filter (· ≠ a)).filterMap f = arcs.filterMap f := by
    rw [List.filterMap_filter]
    apply List.filterMap_congr
    intro b _
    by_cases hb : b = a
    · simp [hb, hf]
    · simp [hb]
  rw [← hskip, h.arcs, hskip]

theorem alike (h : SameBut (u, v) g g') {start : String}
    (hback : ∀ k, Distance g.Joins start u k → ∃ j, j ≤ k ∧ Distance g.Joins start v j) :
    Alike g g' start where
  size := by rw [h.nodes]
  mem_nodes := by rw [h.nodes]
  children w k hd seen hseen := by
    rw [filter_successors, filter_successors]
    apply h.filterMap_arcs
    rw [if_neg]
    rintro ⟨rfl, hv⟩
    obtain ⟨j, hj, hdj⟩ := hback k hd
    exact hv (hseen v j hj hdj)

theorem sameParents (h : SameBut (u, v) g g') {layers : List (List String)}
    (hlate : ∀ before layer after, layers = before ++ layer :: after → v ∈ layer → u ∉ before.flatten)
    (α : Type) [Scalar α] : Spacing.SameParents α layers g.parents g'.parents := by
  intro before layer after hlayers placed hplaced id hid
  have hxs : Spacing.parentXs g'.parents placed id = Spacing.parentXs g.parents placed id := by
    rw [Spacing.parentXs, Spacing.parentXs, get?_parents, get?_parents, h.nodes]
    split
    · rw [filterMap_predecessors, filterMap_predecessors]
      apply h.filterMap_arcs
      by_cases hv : v = id
      · have hu : u ∉ placed.keys := by
          intro hmem
          exact hlate before layer after hlayers (hv ▸ hid) (hplaced u hmem)
        rw [if_pos hv, (Table.get?_eq_none_iff placed u).mpr hu]
        rfl
      · rw [if_neg hv]
    · rfl
  rw [Spacing.desired?, Spacing.desired?, hxs]

end SameBut

end Graph

namespace Levels

variable {g : Graph} {ids : List String} {reached : Ranking} {l : Levels}

theorem Sound.mem_of_level (h : Sound g ids reached l) (hn : ids.Nodup) {id : String} {k : Nat}
    (hk : l.level.get? id = some k) : id ∈ ids := by
  obtain ⟨layer, hl, hid⟩ := (h.layered.get?_eq_some_iff id k).mp hk
  exact (h.perm hn).mem_iff.mp (List.mem_flatten_of_mem (List.mem_of_getElem? hl) hid)

theorem Sound.distance_le (h : Sound g ids reached l) {u v : String} (hv : v ∈ ids) {i j k : Nat}
    (hi : l.level.get? u = some i) (hj : l.level.get? v = some j) (hle : j ≤ i)
    (hd : Distance g.Joins l.start u k) : ∃ m, m ≤ k ∧ Distance g.Joins l.start v m := by
  obtain rfl : k = i := Option.some.inj ((h.level_of_distance hd).symm.trans hi)
  have hk := h.exhausted.all u k hd
  obtain ⟨m, hm, -, hlev⟩ | ⟨-, hlev⟩ := h.level_cases hv
  · obtain rfl : m = j := Option.some.inj (hlev.symm.trans hj)
    exact ⟨m, hle, hm⟩
  · obtain rfl := Option.some.inj (hlev.symm.trans hj)
    omega

theorem Sound.not_mem_before (h : Sound g ids reached l) {u v : String} {i j : Nat}
    (hi : l.level.get? u = some i) (hj : l.level.get? v = some j) (hle : j ≤ i)
    {before after : List (List String)} {layer : List String} (hl : l.layers = before ++ layer :: after)
    (hv : v ∈ layer) : u ∉ before.flatten := by
  intro hu
  have hlayer : l.level.get? v = some before.length :=
    (h.layered.get?_eq_some_iff v _).mpr ⟨layer, by simp [hl], hv⟩
  obtain ⟨first, hfirst, hmem⟩ := List.mem_flatten.mp hu
  obtain ⟨k, hk, hget⟩ := List.mem_iff_getElem.mp hfirst
  have hlevel : l.level.get? u = some k := by
    apply (h.layered.get?_eq_some_iff u k).mpr
    refine ⟨first, ?_, hmem⟩
    rw [hl, List.getElem?_append_left hk, List.getElem?_eq_getElem hk, hget]
  obtain rfl := Option.some.inj (hlevel.symm.trans hi)
  obtain rfl := Option.some.inj (hlayer.symm.trans hj)
  omega

theorem Sound.alike_insert {before after : List Edge} {e : Edge}
    (h : Sound (.build ids (before ++ after)) ids reached l) (hn : ids.Nodup)
    (he : (e.source ∉ ids ∨ e.target ∉ ids) ∨
      (∃ i j, l.level.get? e.source = some i ∧ l.level.get? e.target = some j ∧ j ≤ i) ∨
      ∃ e' ∈ before, e'.source = e.source ∧ e'.target = e.target) :
    (Graph.build ids (before ++ after)).Alike (.build ids (before ++ e :: after)) l.start ∧
      ∀ (α : Type) [Scalar α], Spacing.SameParents α l.layers
        (Graph.build ids (before ++ after)).parents (Graph.build ids (before ++ e :: after)).parents := by
  have hbut := Graph.sameBut_insert ids before after e
  obtain hends | ⟨i, j, hi, hj, hle⟩ | ⟨e', hmem, hs, ht⟩ := he
  · have hmissing : e.missing ids ≠ [] := by
      rw [ne_eq, Edge.missing_eq_nil]
      tauto
    have harcs := Graph.arcs_insert_dangling hmissing before after
    exact ⟨Graph.alike_of_arcs hbut.nodes harcs _, Graph.sameParents_of_arcs hbut.nodes harcs _⟩
  · have hv := h.mem_of_level hn hj
    have hlate {first rest : List (List String)} {layer : List String}
        (hlayers : l.layers = first ++ layer :: rest) (hmem : e.target ∈ layer) :=
      h.not_mem_before hi hj hle hlayers hmem
    refine ⟨hbut.alike fun k hd => h.distance_le hv hi hj hle hd, ?_⟩
    exact hbut.sameParents fun first layer rest => hlate
  · have harcs := Graph.arcs_insert_repeated ids hmem hs ht after
    exact ⟨Graph.alike_of_arcs hbut.nodes harcs _, Graph.sameParents_of_arcs hbut.nodes harcs _⟩

/-- An edge moves no node if one of its ends is undeclared, if it leads to no deeper level, or if an
earlier edge joins the same nodes: with it or without, all is ranked and placed alike. -/
theorem assign_insert (nodes : List Node) (before after : List Edge) (e : Edge) (hne : nodes ≠ [])
    (hn : (nodes.map (·.id)).Nodup)
    (he : (e.source ∉ nodes.map (·.id) ∨ e.target ∉ nodes.map (·.id)) ∨
      (∃ l i j, assign (.build (nodes.map (·.id)) (before ++ after)) nodes = .ok l ∧
        l.level.get? e.source = some i ∧ l.level.get? e.target = some j ∧ j ≤ i) ∨
      ∃ e' ∈ before, e'.source = e.source ∧ e'.target = e.target) :
    ∃ l, assign (.build (nodes.map (·.id)) (before ++ after)) nodes = .ok l ∧
      assign (.build (nodes.map (·.id)) (before ++ e :: after)) nodes = .ok l ∧
      ∀ (α : Type) [Scalar α] (s : Spacing α) (kinds : Table String Kind),
        (∀ n ∈ nodes, ∃ kind, kinds.get? n.id = some kind) →
        ∃ t, s.positions l.layers (Graph.build (nodes.map (·.id)) (before ++ after)).parents kinds = .ok t ∧
          s.positions l.layers (Graph.build (nodes.map (·.id)) (before ++ e :: after)).parents kinds = .ok t := by
  obtain ⟨start, -, hstart, l, reached, hl, hls, h⟩ := assign_sound (before ++ after) hne hn
  have hquiet : (e.source ∉ nodes.map (·.id) ∨ e.target ∉ nodes.map (·.id)) ∨
      (∃ i j, l.level.get? e.source = some i ∧ l.level.get? e.target = some j ∧ j ≤ i) ∨
      ∃ e' ∈ before, e'.source = e.source ∧ e'.target = e.target := by
    apply he.imp_right
    apply Or.imp_left
    rintro ⟨l', i, j, hl', hlevels⟩
    obtain rfl : l = l' := Except.ok.inj (hl.symm.trans hl')
    exact ⟨i, j, hlevels⟩
  obtain ⟨halike, hparents⟩ := h.alike_insert hn hquiet
  have hassign : assign (.build (nodes.map (·.id)) (before ++ e :: after)) nodes =
      assign (.build (nodes.map (·.id)) (before ++ after)) nodes := by
    apply assign_congr (Graph.proper_build _ _) rfl (.refl _) hn
    intro start' hstart'
    obtain rfl := Except.ok.inj (hstart.symm.trans hstart')
    exact hls ▸ halike
  refine ⟨l, hl, hassign.trans hl, ?_⟩
  intro α _ s kinds hk
  apply s.positions_same h.layered.nodup (hparents α)
  intro id hid
  obtain ⟨n, hmem, rfl⟩ := List.mem_map.mp ((h.perm hn).mem_iff.mp hid)
  exact hk n hmem

/-- An edge from a node on the last level, which no path leads to, put in before an edge of its target. -/
theorem assign_insert_unreached :
    let nodes : List Node := [⟨"c", .gateway, "", none⟩, ⟨"s", .startEvent, "", none⟩,
      ⟨"a", .task, "", none⟩, ⟨"b", .task, "", none⟩]
    let before : List Edge := [⟨"s", "a", ""⟩]
    let after : List Edge := [⟨"a", "b", ""⟩, ⟨"b", "a", ""⟩]
    let e : Edge := ⟨"c", "a", ""⟩
    let s : Spacing Rat := ⟨150, 120, 100, 60, 20⟩
    let kinds := Table.ofList (nodes.map fun n => (n.id, n.kind))
    ∃ l t, assign (.build (nodes.map (·.id)) (before ++ e :: after)) nodes = .ok l ∧
      l.layers = [["s"], ["a"], ["b"], ["c"]] ∧
      s.positions l.layers (Graph.build (nodes.map (·.id)) (before ++ after)).parents kinds = .ok t ∧
      s.positions l.layers (Graph.build (nodes.map (·.id)) (before ++ e :: after)).parents kinds = .ok t := by
  intro nodes before after e s kinds
  have he : (assign (.build (nodes.map (·.id)) (before ++ after)) nodes).toOption.map
      (fun l => (l.level.get? "c", l.level.get? "a", l.layers)) =
        some (some 3, some 1, [["s"], ["a"], ["b"], ["c"]]) := by
    decide +kernel
  have hk : ∀ n ∈ nodes, (kinds.get? n.id).isSome = true := by decide +kernel
  cases ha : assign (.build (nodes.map (·.id)) (before ++ after)) nodes with
  | error fault =>
    rw [ha] at he
    cases he
  | ok l =>
    rw [ha] at he
    obtain ⟨hi, hrest⟩ := Prod.mk.inj (Option.some.inj he)
    obtain ⟨hj, hlayers⟩ := Prod.mk.inj hrest
    obtain ⟨l', hl, hl', hsame⟩ := assign_insert nodes before after e (by decide) (by decide)
      (.inr (.inl ⟨l, 3, 1, ha, hi, hj, by decide⟩))
    obtain rfl : l = l' := Except.ok.inj (ha.symm.trans hl)
    obtain ⟨t, ht, ht'⟩ := hsame Rat s kinds fun n hn => Option.isSome_iff_exists.mp (hk n hn)
    exact ⟨l, t, hl', hlayers, ht, ht'⟩

end Levels

end FlowDiagram
