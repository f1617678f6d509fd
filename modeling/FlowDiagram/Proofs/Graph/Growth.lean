import FlowDiagram.Proofs.Graph.Path

namespace FlowDiagram

/-- The ends of an edge that are not declared, the source first; one that is both ends counts once. -/
def Edge.unknownEnds (e : Edge) (ids : List String) : List String :=
  (if e.source ∈ ids then [] else [e.source]) ++
    (if e.target ∈ ids ∨ e.target = e.source then [] else [e.target])

theorem Edge.missing_eq_unknownEnds (e : Edge) (ids : List String) :
    e.missing ids = e.unknownEnds ids := by
  rw [missing, unknownEnds]
  by_cases hs : e.source ∈ ids <;> by_cases ht : e.target ∈ ids <;>
    by_cases he : e.target = e.source <;> simp_all [distinct]

namespace Graph

def bare (ids : List String) : Graph := ⟨distinct ids, [], []⟩

/-- Takes in an edge. If the graph lacks one of its ends, the edge is put aside; otherwise its arc is
added, and with it the ends as nodes, so far as they are new. -/
def grow (g : Graph) (e : Edge) : Graph :=
  if e.source ∈ g.nodes ∧ e.target ∈ g.nodes then
    { g with
      nodes := distinct (g.nodes ++ [e.source, e.target])
      arcs := distinct (g.arcs ++ [(e.source, e.target)]) }
  else { g with dangling := g.dangling ++ [e] }

theorem nodes_grow {g : Graph} (h : g.nodes.Nodup) (e : Edge) : (g.grow e).nodes = g.nodes := by
  rw [grow]
  split
  · rename_i hends
    obtain ⟨hsource, htarget⟩ := hends
    change distinct (g.nodes ++ [e.source, e.target]) = g.nodes
    rw [List.append_cons, distinct_concat, distinct_concat, if_pos hsource, if_pos (by simp [htarget]),
      distinct_of_nodup h]
  · rfl

theorem grow_build (ids : List String) (edges : List Edge) (e : Edge) :
    (build ids edges).grow e = build ids (edges ++ [e]) := by
  have hends : (e.source ∈ (build ids edges).nodes ∧ e.target ∈ (build ids edges).nodes) ↔
      e.missing ids = [] := by
    rw [mem_nodes_build, mem_nodes_build, e.missing_eq_nil]
  have hnodes := nodes_grow (proper_build ids edges).nodes e
  by_cases hmiss : e.missing ids = []
  · have harcs : distinct ((build ids edges).arcs ++ [(e.source, e.target)]) =
        (build ids (edges ++ [e])).arcs := by
      rw [arcs_build, arcs_build, distinct_distinct_concat, pairs_insert hmiss edges []]
      rfl
    have hdangling : (build ids (edges ++ [e])).dangling = (build ids edges).dangling := by
      simp [build, hmiss]
    rw [grow, if_pos (hends.mpr hmiss)] at hnodes ⊢
    rw [harcs, ← hdangling]
    exact congrArg (fun nodes => Graph.mk nodes _ _) hnodes
  · rw [grow, if_neg (mt hends.mp hmiss)]
    simp [build, hmiss]

theorem foldl_grow (ids : List String) (edges : List Edge) :
    edges.foldl grow (bare ids) = build ids edges := by
  induction edges using List.reverseRecOn with
  | nil => rfl
  | append_singleton edges e ih =>
    rw [List.foldl_append, ih, List.foldl_cons, List.foldl_nil, grow_build]

end Graph

end FlowDiagram
