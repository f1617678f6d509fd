import FlowDiagram.Proofs.Graph.Path

namespace FlowDiagram.Graph

/-- The arcs to the nodes first found from the nodes of a layer, these taken in order. -/
def found (g : Graph) : List String → List String → List (String × String)
  | [], _ => []
  | u :: layer, seen =>
    ((g.successors u).filter (· ∉ seen)).map (fun v => (u, v)) ++
      g.found layer (seen ++ (g.successors u).filter (· ∉ seen))

def next (g : Graph) (layer seen : List String) : List String := (g.found layer seen).map (·.2)

theorem next_cons (g : Graph) (u : String) (layer seen : List String) :
    g.next (u :: layer) seen = (g.successors u).filter (· ∉ seen) ++
      g.next layer (seen ++ (g.successors u).filter (· ∉ seen)) := by
  have hm (vs : List String) : (vs.map fun v => (u, v)).map (·.2) = vs := by
    rw [List.map_map]
    exact List.map_id vs
  rw [next, found, List.map_append, hm]
  rfl

/-- The traversal takes one layer from the queue and has found the next one then. -/
theorem walk_layer (g : Graph) (n : Nat) (layer later seen : List String) :
    g.walk (layer.length + n) (layer ++ later) seen =
      g.found layer seen ++ g.walk n (later ++ g.next layer seen) (seen ++ g.next layer seen) := by
  -- The next layer gathers behind what is left of the queue.
  induction layer generalizing later seen with
  | nil => simp [found, next]
  | cons u layer ih =>
    have hl : (u :: layer).length + n = (layer.length + n) + 1 := by
      rw [List.length_cons]
      omega
    rw [hl, List.cons_append, walk, found, next_cons]
    simp only [List.append_assoc]
    rw [ih]
    simp only [List.append_assoc]

theorem source_mem_of_found {g : Graph} {layer seen : List String} {a : String × String}
    (h : a ∈ g.found layer seen) : a.1 ∈ layer := by
  induction layer generalizing seen with
  | nil => simp [found] at h
  | cons u layer ih =>
    rw [found, List.mem_append] at h
    rcases h with h | h
    · obtain ⟨v, -, rfl⟩ := List.mem_map.mp h
      simp
    · exact List.mem_cons_of_mem _ (ih h)

theorem mem_next (g : Graph) (layer seen : List String) (v : String) :
    v ∈ g.next layer seen ↔ v ∉ seen ∧ ∃ u ∈ layer, g.Joins u v := by
  induction layer generalizing seen with
  | nil => simp [next, found]
  | cons u layer ih =>
    rw [next_cons, List.mem_append, ih]
    simp only [List.mem_filter, mem_successors, List.mem_append, decide_eq_true_eq,
      List.mem_cons, exists_eq_or_imp]
    tauto

theorem Proper.nodup_next {g : Graph} (h : g.Proper) (layer seen : List String) :
    (g.next layer seen).Nodup := by
  induction layer generalizing seen with
  | nil => simp [next, found]
  | cons u layer ih =>
    rw [next_cons]
    apply ((h.nodup_successors u).filter _).append (ih _)
    intro v hv hv'
    exact ((mem_next ..).mp hv').1 (List.mem_append_right _ hv)

/-- A round finds the children of the layer in order, each where it stands first, without those seen. -/
theorem Proper.next_eq {g : Graph} (h : g.Proper) (layer seen : List String) :
    g.next layer seen = distinct ((layer.flatMap g.successors).filter (· ∉ seen)) := by
  induction layer generalizing seen with
  | nil => rfl
  | cons u layer ih =>
    have hfresh : distinct ((g.successors u).filter (· ∉ seen)) = (g.successors u).filter (· ∉ seen) :=
      distinct_of_nodup ((h.nodup_successors u).filter _)
    have hlater : ((layer.flatMap g.successors).filter (· ∉ seen)).filter
          (· ∉ (g.successors u).filter (· ∉ seen)) =
        (layer.flatMap g.successors).filter (· ∉ seen ++ (g.successors u).filter (· ∉ seen)) := by
      rw [List.filter_filter]
      apply List.filter_congr
      intro v _
      simp only [List.mem_append, not_or, Bool.decide_and, Bool.and_comm]
    rw [next_cons, ih, List.flatMap_cons, List.filter_append, distinct_append, hfresh, filter_distinct, hlater]

end FlowDiagram.Graph
