import FlowDiagram.Proofs.Graph.Growth

namespace FlowDiagram

namespace Graph

/-- The place of the first edge between these ends; past the last edge, if there is none. -/
def firstLink (edges : List Edge) (arc : String × String) : Nat :=
  edges.findIdx fun e => e.source = arc.1 ∧ e.target = arc.2

theorem firstLink_lt_iff {edges : List Edge} {arc : String × String} :
    firstLink edges arc < edges.length ↔ ∃ e ∈ edges, e.source = arc.1 ∧ e.target = arc.2 := by
  rw [firstLink, List.findIdx_lt_length]
  simp only [decide_eq_true_eq]

theorem firstLink_concat {edges : List Edge} {arc : String × String} (h : firstLink edges arc < edges.length)
    (e : Edge) : firstLink (edges ++ [e]) arc = firstLink edges arc := by
  rw [firstLink, List.findIdx_append]
  exact if_pos h

theorem firstLink_concat_new {edges : List Edge} {e : Edge}
    (h : ¬ firstLink edges (e.source, e.target) < edges.length) :
    firstLink (edges ++ [e]) (e.source, e.target) = edges.length := by
  rw [firstLink, List.findIdx_append]
  exact (if_neg h).trans (by simp)

theorem linked_of_mem_arcs {ids : List String} {edges : List Edge} {arc : String × String}
    (h : arc ∈ (build ids edges).arcs) : firstLink edges arc < edges.length :=
  firstLink_lt_iff.mpr ((mem_arcs_build ids edges arc.1 arc.2).mp h).2.2

/-- The arcs stand in the order of their first edges: an edge that is taken in adds its arc at the end, or
none if an earlier edge has the same ends. -/
theorem arcs_ordered (ids : List String) (edges : List Edge) :
    (build ids edges).arcs.Pairwise fun a b => firstLink edges a < firstLink edges b := by
  -- The last edge adds its arc behind all others, or an earlier edge has added it.
  induction edges using List.reverseRecOn with
  | nil => exact List.Pairwise.nil
  | append_singleton edges e ih =>
    have hkept : (build ids edges).arcs.Pairwise fun a b =>
        firstLink (edges ++ [e]) a < firstLink (edges ++ [e]) b := by
      apply ih.imp_of_mem
      intro a b ha hb hab
      rwa [firstLink_concat (linked_of_mem_arcs ha), firstLink_concat (linked_of_mem_arcs hb)]
    rw [← grow_build, grow]
    split
    · rename_i hends
      obtain ⟨hsource, htarget⟩ := hends
      change (distinct ((build ids edges).arcs ++ [(e.source, e.target)])).Pairwise _
      rw [distinct_concat, distinct_of_nodup (proper_build ids edges).arcs]
      split
      · exact hkept
      · rename_i hnew
        rw [mem_nodes_build] at hsource htarget
        have hfirst : ¬ firstLink edges (e.source, e.target) < edges.length := fun hlt =>
          hnew ((mem_arcs_build ..).mpr ⟨hsource, htarget, firstLink_lt_iff.mp hlt⟩)
        refine List.pairwise_append.mpr ⟨hkept, List.pairwise_singleton _ _, ?_⟩
        intro a ha b hb
        obtain rfl := List.mem_singleton.mp hb
        rw [firstLink_concat (linked_of_mem_arcs ha), firstLink_concat_new hfirst]
        exact linked_of_mem_arcs ha
    · exact hkept

theorem pairwise_far {arcs : List (String × String)} {R : String × String → String × String → Prop}
    (h : arcs.Pairwise R) {near far : String × String → String} {u : String} {arc : String → String × String}
    (harc : ∀ a, near a = u → arc (far a) = a) :
    ((arcs.filter fun a => near a = u).map far).Pairwise fun v w => R (arc v) (arc w) := by
  apply List.pairwise_map.mpr
  apply (h.filter _).imp_of_mem
  intro a b ha hb hab
  rwa [harc a (of_decide_eq_true (List.mem_filter.mp ha).2), harc b (of_decide_eq_true (List.mem_filter.mp hb).2)]

/-- The table has the declared ids as its keys, each once. Under an id it lists the declared ids that some
edge joins it with, each once, in the order in which the edges first do so. The arc says which of the two
ids is the source. -/
structure Lists (t : Table String (List String)) (ids : List String) (edges : List Edge)
    (arc : String → String → String × String) : Prop where
  nodup_keys : t.keys.Nodup
  mem_keys : ∀ id, id ∈ t.keys ↔ id ∈ ids
  mem : ∀ u ∈ ids, ∀ v, v ∈ (t.get? u).getD [] ↔
    v ∈ ids ∧ ∃ e ∈ edges, e.source = (arc u v).1 ∧ e.target = (arc u v).2
  nodup : ∀ u ∈ ids, ((t.get? u).getD []).Nodup
  order : ∀ u ∈ ids, ((t.get? u).getD []).Pairwise fun v w =>
    firstLink edges (arc u v) < firstLink edges (arc u w)

section Lists

variable (ids : List String) (edges : List Edge)

theorem lists_of_rows {rows : String → List String} {arc : String → String → String × String}
    (hmem : ∀ u ∈ ids, ∀ v, v ∈ rows u ↔
      v ∈ ids ∧ ∃ e ∈ edges, e.source = (arc u v).1 ∧ e.target = (arc u v).2)
    (horder : ∀ u, (rows u).Pairwise fun v w => firstLink edges (arc u v) < firstLink edges (arc u w)) :
    Lists ⟨(build ids edges).nodes.map fun id => (id, rows id)⟩ ids edges arc := by
  have hkeys := Table.keys_mk_map rows (build ids edges).nodes
  have hget : ∀ u ∈ ids,
      ((Table.mk ((build ids edges).nodes.map fun id => (id, rows id))).get? u).getD [] = rows u := by
    intro u hu
    rw [Table.get?_mk_map, if_pos ((mem_nodes_build ..).mpr hu)]
    rfl
  refine ⟨?_, ?_, ?_, ?_, ?_⟩
  · rw [hkeys]
    exact (proper_build ids edges).nodes
  · intro id
    rw [hkeys]
    exact mem_nodes_build ids edges id
  · intro u hu v
    rw [hget u hu]
    exact hmem u hu v
  · intro u hu
    rw [hget u hu]
    apply (horder u).imp
    rintro v _ hlt rfl
    exact Nat.lt_irrefl _ hlt
  · intro u hu
    rw [hget u hu]
    exact horder u

theorem children_lists : Lists (build ids edges).children ids edges fun u v => (u, v) := by
  apply lists_of_rows
  · intro u hu v
    rw [mem_successors, joins_build]
    exact and_iff_right hu
  · intro u
    apply pairwise_far (arcs_ordered ids edges)
    rintro ⟨_, v⟩ rfl
    rfl

theorem parents_lists : Lists (build ids edges).parents ids edges fun v u => (u, v) := by
  apply lists_of_rows
  · intro v hv u
    rw [mem_predecessors, joins_build]
    exact and_congr_right fun _ => and_iff_right hv
  · intro v
    apply pairwise_far (arcs_ordered ids edges)
    rintro ⟨u, _⟩ rfl
    rfl

end Lists

theorem dangling_build (ids : List String) (edges : List Edge) :
    (build ids edges).dangling = edges.filter fun e => e.source ∉ ids ∨ e.target ∉ ids := by
  apply List.filter_congr
  intro e _
  rw [decide_eq_decide, ne_eq, e.missing_eq_nil, not_and_or]

/-- Children and parents are the two directions of the edges between declared ids. All other edges are put
aside, as often as they stand there. Taking the edges in one by one gives the same graph, and at no time
does it know an id that is not declared, whatever edges went before. -/
theorem build_dual (nodes : List Node) (edges : List Edge) :
    let ids := nodes.map (·.id)
    let g := build ids edges
    (Lists g.children ids edges fun u v => (u, v)) ∧ (Lists g.parents ids edges fun v u => (u, v)) ∧
      (∀ u ∈ ids, ∀ v ∈ ids,
        (v ∈ (g.children.get? u).getD [] ↔ u ∈ (g.parents.get? v).getD []) ∧
        (u ∈ (g.parents.get? v).getD [] ↔ ∃ e ∈ edges, e.source = u ∧ e.target = v)) ∧
      g.dangling = edges.filter (fun e => e.source ∉ ids ∨ e.target ∉ ids) ∧
      g = edges.foldl grow (bare ids) ∧
      ∀ before id, id ∈ (List.foldl grow (bare ids) before).nodes ↔ id ∈ ids := by
  intro ids g
  have hchildren := children_lists ids edges
  have hparents := parents_lists ids edges
  refine ⟨hchildren, hparents, ?_, dangling_build ids edges, (foldl_grow ids edges).symm, ?_⟩
  · intro u hu v hv
    have hdown := (hchildren.mem u hu v).trans (and_iff_right hv)
    have hup := (hparents.mem v hv u).trans (and_iff_right hu)
    exact ⟨hdown.trans hup.symm, hup⟩
  · intro before id
    rw [foldl_grow]
    exact mem_nodes_build ids before id

/-- An id that is declared twice, a loop, edges that are repeated, and edges to and from an id that is not
declared. -/
theorem build_dual_repeated :
    let ids := ["a", "b", "a", "c"]
    let edges : List Edge := [⟨"b", "a", ""⟩, ⟨"a", "x", ""⟩, ⟨"a", "a", ""⟩, ⟨"a", "x", ""⟩, ⟨"x", "b", ""⟩,
      ⟨"a", "b", "no"⟩, ⟨"b", "a", "yes"⟩, ⟨"c", "b", ""⟩, ⟨"a", "c", ""⟩]
    let nodes : List Node := [⟨"a", .task, "", none⟩, ⟨"b", .gateway, "", none⟩, ⟨"a", .task, "again", none⟩,
      ⟨"c", .endEvent, "", none⟩]
    nodes.map (·.id) = ids ∧ "a" ∈ ids ∧ "b" ∈ ids ∧
      (build ids edges).children.get? "a" = some ["a", "b", "c"] ∧
      (build ids edges).parents.get? "b" = some ["a", "c"] ∧
      ["a", "c"].Pairwise (fun u w => firstLink edges (u, "b") < firstLink edges (w, "b")) ∧
      "a" ∈ ((build ids edges).parents.get? "b").getD [] ∧
      (build ids edges).dangling = [⟨"a", "x", ""⟩, ⟨"a", "x", ""⟩, ⟨"x", "b", ""⟩] ∧
      "x" ∉ ((edges.take 5).foldl grow (bare ids)).nodes := by
  intro ids edges nodes
  have hids : nodes.map (·.id) = ids := rfl
  have ha : "a" ∈ ids := by decide
  have hb : "b" ∈ ids := by decide
  have hdown : (build ids edges).children.get? "a" = some ["a", "b", "c"] := by decide
  have hup : (build ids edges).parents.get? "b" = some ["a", "c"] := by decide
  obtain ⟨-, hparents, hdual, hdangling, -, hknown⟩ := build_dual nodes edges
  have horder := hparents.order "b" hb
  rw [hids, hup] at horder
  refine ⟨hids, ha, hb, hdown, hup, horder, ?_, hdangling.trans (by decide), ?_⟩
  · apply (hdual "a" ha "b" hb).1.mp
    rw [hids, hdown]
    decide
  · rw [← hids, hknown]
    decide

end Graph

end FlowDiagram
