import FlowDiagram.Proofs.Table
import FlowDiagram.Graph.Basic
import Mathlib.Data.Nat.Find
import Mathlib.Order.Bounds.Defs

namespace FlowDiagram

section Path

variable {ν : Type} {R : ν → ν → Prop} {u v w : ν} {n : Nat}

/-- A path of n steps from u. -/
inductive Path (R : ν → ν → Prop) (u : ν) : Nat → ν → Prop
  | nil : Path R u 0 u
  | snoc {n : Nat} {v w : ν} : Path R u n v → R v w → Path R u (n + 1) w

/-- The length of a shortest path. -/
def Distance (R : ν → ν → Prop) (u v : ν) (n : Nat) : Prop := IsLeast {m | Path R u m v} n

theorem distance_self : Distance R u u 0 := ⟨.nil, fun _ _ => Nat.zero_le _⟩

theorem distance_zero : Distance R u v 0 ↔ v = u := by
  constructor
  · intro h
    cases h.1
    rfl
  · intro h
    rw [h]
    exact distance_self

theorem Distance.unique {m : Nat} (h : Distance R u v m) (k : Distance R u v n) : m = n :=
  Nat.le_antisymm (h.2 k.1) (k.2 h.1)

theorem Path.distance (h : Path R u n v) : ∃ d, d ≤ n ∧ Distance R u v d := by
  classical
  have he : ∃ m, Path R u m v := ⟨n, h⟩
  exact ⟨Nat.find he, Nat.find_min' he h, Nat.find_spec he, fun m hm => Nat.find_min' he hm⟩

theorem Distance.pred (h : Distance R u w (n + 1)) : ∃ v, Distance R u v n ∧ R v w := by
  obtain ⟨hp, hmin⟩ := h
  cases hp with
  | @snoc n v w hv hr =>
    refine ⟨v, ⟨hv, ?_⟩, hr⟩
    intro m hm
    have hle := hmin (show Path R u (m + 1) w from hm.snoc hr)
    omega

theorem Distance.nearer (h : Distance R u w n) (m : Nat) (hm : m ≤ n) :
    ∃ v, Distance R u v m := by
  induction n generalizing w with
  | zero => exact ⟨w, by rwa [Nat.le_zero.mp hm]⟩
  | succ n ih =>
    rcases Nat.eq_or_lt_of_le hm with rfl | hm
    · exact ⟨w, h⟩
    · obtain ⟨v, hv, -⟩ := h.pred
      exact ih hv (by omega)

end Path

/-- Both ids are declared, and some edge goes from the first to the second. -/
def Linked (ids : List String) (edges : List Edge) (u v : String) : Prop :=
  u ∈ ids ∧ v ∈ ids ∧ ∃ e ∈ edges, e.source = u ∧ e.target = v

theorem Edge.missing_eq_nil (e : Edge) (ids : List String) :
    e.missing ids = [] ↔ e.source ∈ ids ∧ e.target ∈ ids := by
  have hd (l : List String) : distinct l = [] ↔ l = [] := by
    cases l <;> simp [distinct]
  rw [missing, hd]
  simp

namespace Graph

theorem mem_nodes_build (ids : List String) (edges : List Edge) (id : String) :
    id ∈ (build ids edges).nodes ↔ id ∈ ids := mem_distinct

theorem mem_arcs_build (ids : List String) (edges : List Edge) (u v : String) :
    (u, v) ∈ (build ids edges).arcs ↔ Linked ids edges u v := by
  simp only [build, mem_distinct, List.mem_map, List.mem_filter, decide_eq_true_eq,
    Edge.missing_eq_nil, Prod.mk.injEq, Linked]
  constructor
  · intro h
    obtain ⟨e, ⟨he, hs, ht⟩, rfl, rfl⟩ := h
    exact ⟨hs, ht, e, he, rfl, rfl⟩
  · intro h
    obtain ⟨hu, hv, e, he, rfl, rfl⟩ := h
    exact ⟨e, ⟨he, hu, hv⟩, rfl, rfl⟩

def Joins (g : Graph) (u v : String) : Prop := (u, v) ∈ g.arcs

theorem joins_build (ids : List String) (edges : List Edge) :
    (build ids edges).Joins = Linked ids edges := by
  funext u v
  exact propext (mem_arcs_build ids edges u v)

theorem mem_successors (g : Graph) (u v : String) : v ∈ g.successors u ↔ g.Joins u v := by
  simp only [successors, Joins, List.mem_map, List.mem_filter, decide_eq_true_eq]
  constructor
  · intro h
    obtain ⟨a, ⟨ha, rfl⟩, rfl⟩ := h
    exact ha
  · intro h
    exact ⟨(u, v), ⟨h, rfl⟩, rfl⟩

theorem mem_predecessors (g : Graph) (u v : String) : u ∈ g.predecessors v ↔ g.Joins u v := by
  simp only [predecessors, Joins, List.mem_map, List.mem_filter, decide_eq_true_eq]
  constructor
  · intro h
    obtain ⟨a, ⟨ha, rfl⟩, rfl⟩ := h
    exact ha
  · intro h
    exact ⟨(u, v), ⟨h, rfl⟩, rfl⟩

/-- What a traversal relies on: nothing is listed twice, and arcs end in nodes. -/
structure Proper (g : Graph) : Prop where
  nodes : g.nodes.Nodup
  arcs : g.arcs.Nodup
  target : ∀ u v, g.Joins u v → v ∈ g.nodes

theorem proper_build (ids : List String) (edges : List Edge) : (build ids edges).Proper where
  nodes := nodup_distinct _
  arcs := nodup_distinct _
  target u v h := by
    rw [joins_build] at h
    exact (mem_nodes_build ids edges v).mpr h.2.1

theorem Proper.nodup_successors {g : Graph} (h : g.Proper) (u : String) :
    (g.successors u).Nodup := by
  refine List.Nodup.map_on ?_ (h.arcs.filter _)
  intro a ha b hb hab
  have hu : a.1 = u := by simpa using (List.mem_filter.mp ha).2
  have hv : b.1 = u := by simpa using (List.mem_filter.mp hb).2
  exact Prod.ext (hu.trans hv.symm) hab

/-- The ends of the edges that are no dangling ones. -/
def pairs (ids : List String) (edges : List Edge) : List (String × String) :=
  (edges.filter fun e => e.missing ids = []).map fun e => (e.source, e.target)

theorem arcs_build (ids : List String) (edges : List Edge) :
    (build ids edges).arcs = distinct (pairs ids edges) := rfl

theorem pairs_append (ids : List String) (before after : List Edge) :
    pairs ids (before ++ after) = pairs ids before ++ pairs ids after := by simp [pairs]

theorem pairs_insert {ids : List String} {e : Edge} (h : e.missing ids = []) (before after : List Edge) :
    pairs ids (before ++ e :: after) = pairs ids before ++ (e.source, e.target) :: pairs ids after := by
  simp [pairs, h]

theorem get?_children (g : Graph) (id : String) :
    (g.children.get? id).getD [] = if id ∈ g.nodes then g.successors id else [] := by
  rw [children, Table.get?_mk_map]
  split <;> rfl

theorem get?_parents (g : Graph) (id : String) :
    (g.parents.get? id).getD [] = if id ∈ g.nodes then g.predecessors id else [] := by
  rw [parents, Table.get?_mk_map]
  split <;> rfl

theorem Proper.mem_parents {g : Graph} (h : g.Proper) (u v : String) :
    u ∈ (g.parents.get? v).getD [] ↔ g.Joins u v := by
  rw [get?_parents]
  split
  · exact g.mem_predecessors u v
  · next hv => exact iff_of_false List.not_mem_nil fun hjoins => hv (h.target u v hjoins)

end Graph

end FlowDiagram
