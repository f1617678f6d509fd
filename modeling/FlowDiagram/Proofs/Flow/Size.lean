import FlowDiagram.Proofs.Flow.Declaration

namespace FlowDiagram

namespace Text

theorem length_pushFirst (c : Char) (ls : List (List Char)) : (pushFirst c ls).length = max 1 ls.length := by
  cases ls <;> simp [pushFirst]

theorem length_lines_le (cs : List Char) : (lines cs).length ≤ cs.length := by
  fun_induction lines cs with
  | case1 => exact Nat.le_refl _
  | case2 cs ih =>
    simp only [List.length_cons]
    omega
  | case3 c cs hpair hbreak ih =>
    simp only [List.length_cons]
    omega
  | case4 c cs hpair hbreak ih =>
    rw [length_pushFirst, List.length_cons]
    omega

theorem flatten_pushFirst (c : Char) (ls : List (List Char)) : (pushFirst c ls).flatten = c :: ls.flatten := by
  cases ls <;> simp [pushFirst]

theorem flatten_lines_sublist (cs : List Char) : (lines cs).flatten.Sublist cs := by
  fun_induction lines cs with
  | case1 => exact List.Sublist.refl _
  | case2 cs ih => exact (ih.cons '\n').cons '\r'
  | case3 c cs hpair hbreak ih => exact ih.cons c
  | case4 c cs hpair hbreak ih =>
    rw [flatten_pushFirst]
    exact ih.cons_cons c

theorem length_le_of_mem_lines {cs line : List Char} (h : line ∈ lines cs) : line.length ≤ cs.length :=
  ((List.sublist_flatten_of_mem h).trans (flatten_lines_sublist cs)).length_le

theorem length_trim_le (cs : List Char) : (trim cs).length ≤ cs.length := by
  obtain ⟨⟨before, behind, hcs⟩, -⟩ := trim_spec cs
  have hlength := congrArg List.length hcs
  rw [List.length_append, List.length_append] at hlength
  omega

end Text

theorem length_distinct_le {κ : Type} [DecidableEq κ] (ks : List κ) : (distinct ks).length ≤ ks.length := by
  induction ks with
  | nil => exact Nat.le_refl _
  | cons k ks ih =>
    rw [distinct, List.length_cons, List.length_cons]
    exact Nat.succ_le_succ ((List.length_filter_le ..).trans ih)

theorem EdgeForm.length_label_le (f : EdgeForm) : f.label.length ≤ f.text.length := by
  rw [label, text]
  cases hfirst : f.first with
  | some first =>
    simp [firstText]
    omega
  | none =>
    cases hlast : f.last with
    | some last =>
      simp [lastText]
      omega
    | none => simp

namespace Document

theorem length_nodes_le (text : String) : (read text).nodes.length ≤ text.length := by
  calc (read text).nodes.length = ((read text).nodes.map (·.id)).length := (List.length_map _).symm
    _ = (distinct ((nodeLines text.toList).map (·.id))).length := by rw [ids_read]
    _ ≤ ((nodeLines text.toList).map (·.id)).length := length_distinct_le _
    _ = (nodeLines text.toList).length := List.length_map _
    _ ≤ (Text.lines text.toList).length := List.length_filterMap_le _ _
    _ ≤ text.length := Text.length_lines_le _

theorem length_edges_le (text : String) : (read text).edges.length ≤ text.length := by
  rw [edges_read, edgeLines]
  exact (List.length_filterMap_le _ _).trans (Text.length_lines_le _)

theorem length_label_le {text : String} {e : Edge} (h : e ∈ (read text).edges) : e.label.length ≤ text.length := by
  rw [edges_read] at h
  obtain ⟨line, hline, he⟩ := List.mem_filterMap.mp h
  obtain ⟨doubled, hs⟩ := Statement.asEdge?_eq_some.mp he
  obtain ⟨f, hf, rfl⟩ := Statement.exists_form_of_edge hs
  calc (String.ofList (Text.trim f.label)).length = (Text.trim f.label).length := String.length_ofList
    _ ≤ f.label.length := Text.length_trim_le _
    _ ≤ f.text.length := f.length_label_le
    _ = (Text.trim line).length := by rw [hf]
    _ ≤ line.length := Text.length_trim_le _
    _ ≤ text.length := Text.length_le_of_mem_lines hline

end Document

end FlowDiagram
