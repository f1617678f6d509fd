import FlowDiagram.Proofs.Graph.Growth
import Mathlib.Data.List.Perm.Subperm

namespace FlowDiagram

/-- A breadth-first search goes on: it looks at the nodes in the order in which they were found, and from
each it takes the arcs to those of its successors that are not found yet, in their order. -/
inductive Search (successors : String → List String) :
    List String → List String → List (String × String) → Prop
  | done (found : List String) : Search successors [] found []
  | look {id : String} {queue found : List String} {arcs : List (String × String)} :
      Search successors (queue ++ (successors id).filter (· ∉ found))
        (found ++ (successors id).filter (· ∉ found)) arcs →
      Search successors (id :: queue) found
        (((successors id).filter (· ∉ found)).map (fun child => (id, child)) ++ arcs)

theorem Search.unique {successors : String → List String} {queue found : List String}
    {arcs arcs' : List (String × String)} (h : Search successors queue found arcs)
    (h' : Search successors queue found arcs') : arcs = arcs' := by
  induction h generalizing arcs' with
  | done =>
    cases h'
    rfl
  | look _ ih =>
    cases h' with
    | look hrest => rw [ih hrest]

/-- The list with one more entry, unless it has it already. -/
def arrive (ks : List String) (k : String) : List String := if k ∈ ks then ks else ks ++ [k]

theorem distinct_concat_eq_arrive {ks : List String} (h : ks.Nodup) (k : String) :
    distinct (ks ++ [k]) = arrive ks k := by
  rw [distinct_concat, distinct_of_nodup h, arrive]

theorem nodup_arrive {ks : List String} (h : ks.Nodup) (k : String) : (arrive ks k).Nodup := by
  rw [← distinct_concat_eq_arrive h]
  exact nodup_distinct _

/-- What a library of directed graphs offers. -/
structure GraphLibrary where
  Carrier : Type
  empty : Carrier
  addNode : Carrier → String → Carrier
  addArc : Carrier → String → String → Carrier
  nodes : Carrier → List String
  successors : Carrier → String → List String
  predecessors : Carrier → String → List String
  search : Carrier → String → Except Fault (List (String × String))

namespace GraphLibrary

/-- Nodes, successors and predecessors stand in the order in which they came in, none of them twice. An
arc brings its ends with it. A search from a node is a breadth-first one. -/
structure Lawful (L : GraphLibrary) : Prop where
  nodes_empty : L.nodes L.empty = []
  successors_empty : ∀ u, L.successors L.empty u = []
  predecessors_empty : ∀ v, L.predecessors L.empty v = []
  nodes_addNode : ∀ g v, L.nodes (L.addNode g v) = arrive (L.nodes g) v
  successors_addNode : ∀ g v u, L.successors (L.addNode g v) u = L.successors g u
  predecessors_addNode : ∀ g v u, L.predecessors (L.addNode g v) u = L.predecessors g u
  nodes_addArc : ∀ g u v, L.nodes (L.addArc g u v) = arrive (arrive (L.nodes g) u) v
  successors_addArc : ∀ g u v w,
    L.successors (L.addArc g u v) w = if w = u then arrive (L.successors g w) v else L.successors g w
  predecessors_addArc : ∀ g u v w,
    L.predecessors (L.addArc g u v) w = if w = v then arrive (L.predecessors g w) u else L.predecessors g w
  search : ∀ g start, start ∈ L.nodes g →
    ∃ arcs, L.search g start = .ok arcs ∧ Search (L.successors g) [start] [start] arcs
  search_missing : ∀ g start, start ∉ L.nodes g → L.search g start = .error (.notInGraph start)

variable (L : GraphLibrary)

/-- Takes in an edge, or puts it aside if the graph lacks one of its ends. -/
def take (g : L.Carrier × List Edge) (e : Edge) : L.Carrier × List Edge :=
  if e.source ∈ L.nodes g.1 ∧ e.target ∈ L.nodes g.1 then (L.addArc g.1 e.source e.target, g.2)
  else (g.1, g.2 ++ [e])

def build (ids : List String) (edges : List Edge) : L.Carrier × List Edge :=
  edges.foldl L.take (ids.foldl L.addNode L.empty, [])

/-- The library shows the graph. -/
structure Shows (L : GraphLibrary) (g : L.Carrier × List Edge) (h : Graph) : Prop where
  nodes : L.nodes g.1 = h.nodes
  successors : ∀ u, L.successors g.1 u = h.successors u
  predecessors : ∀ v, L.predecessors g.1 v = h.predecessors v
  dangling : g.2 = h.dangling

end GraphLibrary

namespace Graph

def addArc (g : Graph) (u v : String) : Graph :=
  { g with
    nodes := distinct (g.nodes ++ [u, v])
    arcs := distinct (g.arcs ++ [(u, v)]) }

def addNode (g : Graph) (v : String) : Graph := { g with nodes := distinct (g.nodes ++ [v]) }

theorem nodes_addArc {g : Graph} (h : g.nodes.Nodup) (u v : String) :
    (g.addArc u v).nodes = arrive (arrive g.nodes u) v := by
  rw [addArc, List.append_cons, ← distinct_distinct_concat, distinct_concat_eq_arrive h,
    distinct_concat_eq_arrive (nodup_arrive h u)]

theorem far_concat {arcs : List (String × String)} (hn : arcs.Nodup) {near far : String × String → String}
    (hends : ∀ a b, near a = near b → far a = far b → a = b) (arc : String × String) (w : String) :
    ((distinct (arcs ++ [arc])).filter fun a => near a = w).map far =
      if w = near arc then arrive ((arcs.filter fun a => near a = w).map far) (far arc)
      else (arcs.filter fun a => near a = w).map far := by
  rw [distinct_concat, distinct_of_nodup hn]
  by_cases hw : w = near arc
  · have hold : far arc ∈ (arcs.filter fun a => near a = w).map far ↔ arc ∈ arcs := by
      simp only [List.mem_map, List.mem_filter, decide_eq_true_eq]
      constructor
      · intro h
        obtain ⟨a, ⟨ha, hnear⟩, hfar⟩ := h
        exact hends a arc (hnear.trans hw) hfar ▸ ha
      · exact fun harc => ⟨arc, ⟨harc, hw.symm⟩, rfl⟩
    rw [if_pos hw, arrive]
    by_cases harc : arc ∈ arcs
    · rw [if_pos harc, if_pos (hold.mpr harc)]
    · rw [if_neg harc, if_neg (mt hold.mp harc)]
      simp [hw]
  · rw [if_neg hw]
    split <;> simp [Ne.symm hw]

theorem successors_addArc {g : Graph} (h : g.arcs.Nodup) (u v w : String) :
    (g.addArc u v).successors w = if w = u then arrive (g.successors w) v else g.successors w :=
  far_concat h (fun _ _ => Prod.ext) (u, v) w

theorem predecessors_addArc {g : Graph} (h : g.arcs.Nodup) (u v w : String) :
    (g.addArc u v).predecessors w = if w = v then arrive (g.predecessors w) u else g.predecessors w :=
  far_concat h (fun _ _ htarget hsource => Prod.ext hsource htarget) (u, v) w

theorem Proper.addNode {g : Graph} (h : g.Proper) (v : String) : (g.addNode v).Proper where
  nodes := nodup_distinct _
  arcs := h.arcs
  target u w hjoins := mem_distinct.mpr (List.mem_append_left _ (h.target u w hjoins))

theorem Proper.addArc {g : Graph} (h : g.Proper) (u v : String) : (g.addArc u v).Proper where
  nodes := nodup_distinct _
  arcs := nodup_distinct _
  target a b hjoins := by
    apply mem_distinct.mpr
    rcases List.mem_append.mp (mem_distinct.mp hjoins) with hold | hnew
    · exact List.mem_append_left _ (h.target a b hold)
    · obtain ⟨rfl, rfl⟩ := Prod.mk.inj (List.mem_singleton.mp hnew)
      simp

/-- The steps of a walk are enough for the nodes in the queue and those not seen yet. -/
theorem walk_search {g : Graph} (hg : g.Proper) (n : Nat) {queue seen : List String} (hseen : seen.Nodup)
    (hnodes : ∀ v ∈ seen, v ∈ g.nodes) (hn : queue.length + g.nodes.length ≤ n + seen.length) :
    Search g.successors queue seen (g.walk n queue seen) := by
  have hbound {seen : List String} (hseen : seen.Nodup) (hnodes : ∀ v ∈ seen, v ∈ g.nodes) :
      seen.length ≤ g.nodes.length := (List.subperm_of_subset hseen hnodes).length_le
  induction n generalizing queue seen with
  | zero =>
    have hle := hbound hseen hnodes
    obtain rfl : queue = [] := List.length_eq_zero_iff.mp (by omega)
    exact .done seen
  | succ n ih =>
    cases queue with
    | nil => exact .done seen
    | cons id queue =>
      have hfresh : ∀ v ∈ (g.successors id).filter (· ∉ seen), v ∉ seen ∧ v ∈ g.nodes := by
        intro v hv
        obtain ⟨hsucc, hnew⟩ := List.mem_filter.mp hv
        exact ⟨of_decide_eq_true hnew, hg.target id v ((mem_successors ..).mp hsucc)⟩
      apply Search.look
      apply ih
      · apply hseen.append ((hg.nodup_successors id).filter _)
        exact fun v hold hnew => (hfresh v hnew).1 hold
      · intro v hv
        exact (List.mem_append.mp hv).elim (hnodes v) fun hnew => (hfresh v hnew).2
      -- What is fresh goes from the nodes not seen into the queue, so the bound stays.
      · simp only [List.length_append, List.length_cons] at hn ⊢
        omega

theorem traverse_search {g : Graph} (hg : g.Proper) {start : String} (hs : start ∈ g.nodes) :
    ∃ arcs, g.traverse start = .ok arcs ∧ Search g.successors [start] [start] arcs := by
  refine ⟨_, if_pos hs, walk_search hg _ (List.nodup_singleton start) ?_ ?_⟩
  · simpa using hs
  · simp [Nat.add_comm]

/-- The graphs of this development as a library. -/
def library : GraphLibrary where
  Carrier := { g : Graph // g.Proper }
  empty := ⟨⟨[], [], []⟩, List.nodup_nil, List.nodup_nil, fun _ _ h => nomatch h⟩
  addNode g v := ⟨g.1.addNode v, g.2.addNode v⟩
  addArc g u v := ⟨g.1.addArc u v, g.2.addArc u v⟩
  nodes g := g.1.nodes
  successors g := g.1.successors
  predecessors g := g.1.predecessors
  search g := g.1.traverse

theorem lawful_library : library.Lawful where
  nodes_empty := rfl
  successors_empty _ := rfl
  predecessors_empty _ := rfl
  nodes_addNode g v := distinct_concat_eq_arrive g.2.nodes v
  successors_addNode _ _ _ := rfl
  predecessors_addNode _ _ _ := rfl
  nodes_addArc g u v := nodes_addArc g.2.nodes u v
  successors_addArc g u v w := successors_addArc g.2.arcs u v w
  predecessors_addArc g u v w := predecessors_addArc g.2.arcs u v w
  search g _ hs := traverse_search g.2 hs
  search_missing _ _ hs := if_neg hs

end Graph

namespace GraphLibrary

variable {L : GraphLibrary} {g : L.Carrier × List Edge} {h : Graph}

theorem Lawful.shows_bare (hL : L.Lawful) (ids : List String) :
    L.Shows (ids.foldl L.addNode L.empty, []) (.bare ids) := by
  induction ids using List.reverseRecOn with
  | nil => exact ⟨hL.nodes_empty, hL.successors_empty, hL.predecessors_empty, rfl⟩
  | append_singleton ids v ih =>
    rw [List.foldl_concat]
    refine ⟨?_, fun u => (hL.successors_addNode ..).trans (ih.successors u),
      fun u => (hL.predecessors_addNode ..).trans (ih.predecessors u), rfl⟩
    rw [hL.nodes_addNode, ih.nodes, Graph.bare, Graph.bare, ← distinct_distinct_concat,
      distinct_concat_eq_arrive (nodup_distinct ids)]

theorem Lawful.shows_take (hL : L.Lawful) (hg : L.Shows g h) (hnodes : h.nodes.Nodup) (harcs : h.arcs.Nodup)
    (e : Edge) : L.Shows (L.take g e) (h.grow e) := by
  rw [take, Graph.grow, hg.nodes]
  split
  · refine ⟨?_, ?_, ?_, hg.dangling⟩
    · rw [hL.nodes_addArc, hg.nodes]
      exact (Graph.nodes_addArc hnodes ..).symm
    · intro u
      rw [hL.successors_addArc, hg.successors]
      exact (Graph.successors_addArc harcs ..).symm
    · intro v
      rw [hL.predecessors_addArc, hg.predecessors]
      exact (Graph.predecessors_addArc harcs ..).symm
  · exact ⟨hg.nodes, hg.successors, hg.predecessors, by rw [hg.dangling]⟩

theorem Lawful.shows_build (hL : L.Lawful) (ids : List String) (edges : List Edge) :
    L.Shows (L.build ids edges) (.build ids edges) := by
  induction edges using List.reverseRecOn with
  | nil => exact hL.shows_bare ids
  | append_singleton edges e ih =>
    have hproper := Graph.proper_build ids edges
    rw [build, List.foldl_concat, ← Graph.grow_build]
    exact hL.shows_take ih hproper.nodes hproper.arcs e

theorem Lawful.search_eq (hL : L.Lawful) (hg : L.Shows g h) (hh : h.Proper) (start : String) :
    L.search g.1 start = h.traverse start := by
  by_cases hs : start ∈ h.nodes
  · obtain ⟨arcs, harcs, hsearch⟩ := hL.search g.1 start (hg.nodes ▸ hs)
    obtain ⟨arcs', harcs', hsearch'⟩ := Graph.traverse_search hh hs
    rw [funext hg.successors] at hsearch
    rw [harcs, harcs', hsearch.unique hsearch']
  · rw [hL.search_missing g.1 start (hg.nodes ▸ hs)]
    exact (if_neg hs).symm

/-- The laws of a library settle all that it shows of a flow, and every search in it. -/
theorem Lawful.build_eq (hL : L.Lawful) (ids : List String) (edges : List Edge) :
    L.Shows (L.build ids edges) (.build ids edges) ∧
      ∀ start, L.search (L.build ids edges).1 start = (Graph.build ids edges).traverse start :=
  have hshows := hL.shows_build ids edges
  ⟨hshows, hL.search_eq hshows (Graph.proper_build ids edges)⟩

end GraphLibrary

end FlowDiagram
