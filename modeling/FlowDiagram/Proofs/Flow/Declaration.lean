import FlowDiagram.Proofs.Flow.Content

namespace FlowDiagram.Document

open Statement

/-- The node lines of the text filed by their ids. -/
def filed (text : List Char) : Table String Node := .ofList ((nodeLines text).map fun n => (n.id, n))

theorem nodes_read_filed (text : String) :
    (read text).nodes = (filed text.toList).entries.map (·.2) := by
  have hlines : (nodeLines text.toList).map (fun n => (n.id, n)) =
      ((statements text.toList).filterMap fun s => s.1.asNode?.map fun n => (n.id, s.2, n)).map
        fun e => (e.1, e.2.2) := by
    rw [nodeLines, ← filterMap_statements asNode?, List.map_filterMap, List.map_filterMap]
    simp [Function.comp_def]
  rw [filed, hlines, Table.ofList_map, Table.map, List.map_map, read, Reading.document,
    Reading.declared_foldl_take]
  rfl

theorem keys_filed (text : List Char) : (filed text).keys = distinct ((nodeLines text).map (·.id)) := by
  rw [filed, Table.keys_ofList, List.map_map]
  rfl

theorem filed_own {text : List Char} {e : String × Node} (h : e ∈ (filed text).entries) :
    e.1 = e.2.id := by
  obtain h | h := Table.mem_entries_putAll h
  · cases h
  · obtain ⟨n, -, rfl⟩ := List.mem_map.mp h
    rfl

theorem ids_read (text : String) :
    (read text).nodes.map (·.id) = distinct ((nodeLines text.toList).map (·.id)) := by
  rw [nodes_read_filed, List.map_map, ← keys_filed]
  exact List.map_congr_left fun e he => (filed_own he).symm

theorem last_of_mem_nodes {text : String} {n : Node} (h : n ∈ (read text).nodes) :
    ((nodeLines text.toList).filter (·.id = n.id)).getLast? = some n := by
  rw [nodes_read_filed] at h
  obtain ⟨e, he, rfl⟩ := List.mem_map.mp h
  have hnodup : (filed text.toList).keys.Nodup := keys_filed text.toList ▸ nodup_distinct _
  have hget : (filed text.toList).get? e.2.id = some e.2 :=
    (Table.get?_eq_some_iff hnodup _ _).mpr (filed_own he ▸ he)
  rw [filed, Table.get?_ofList_last, List.filter_map, List.getLast?_map, Option.map_map] at hget
  have hid : ((fun f : String × Node => f.2) ∘ fun n : Node => (n.id, n)) = id := rfl
  rw [hid, Option.map_id] at hget
  exact hget

inductive Role where
  | node
  | edge
  | header
  | unrecognized

/-- Those of the lines with content that count as such. Only the first can be the header. -/
def counted (ls : List (List Char × Nat)) : Role → List (List Char × Nat)
  | .node => ls.filter fun l => (node? l.1).isSome
  | .edge => ls.filter fun l => (edge? l.1).isSome
  | .header => (ls.take 1).filter fun l => l.1.all isWordChar
  | .unrecognized => ls.filter fun l => ¬(node? l.1).isSome ∧ ¬(edge? l.1).isSome ∧
      ¬(l ∈ ls.take 1 ∧ l.1.all isWordChar)

theorem counted_sublist (ls : List (List Char × Nat)) (role : Role) : (counted ls role).Sublist ls := by
  cases role with
  | header => exact List.filter_sublist.trans (List.take_sublist 1 _)
  | node => exact List.filter_sublist
  | edge => exact List.filter_sublist
  | unrecognized => exact List.filter_sublist

theorem counted_once {text : List Char} {l : List Char × Nat} (h : l ∈ content text) :
    ∃! role, l ∈ counted (content text) role := by
  obtain ⟨-, -, hapart, hword⟩ := recognizes_forms (trim_of_mem_content h)
  have hnode : l ∈ counted (content text) .node ↔ (node? l.1).isSome = true := by simp [counted, h]
  have hedge : l ∈ counted (content text) .edge ↔ (edge? l.1).isSome = true := by simp [counted, h]
  have hheader : l ∈ counted (content text) .header ↔
      l ∈ (content text).take 1 ∧ l.1.all isWordChar = true := by
    rw [counted, List.mem_filter]
  have hother : l ∈ counted (content text) .unrecognized ↔
      ¬(node? l.1).isSome = true ∧ ¬(edge? l.1).isSome = true ∧
      ¬(l ∈ (content text).take 1 ∧ l.1.all isWordChar = true) := by
    rw [counted, List.mem_filter, decide_eq_true_iff]
    exact and_iff_right h
  by_cases hn : (node? l.1).isSome = true
  · refine ⟨.node, hnode.mpr hn, ?_⟩
    have he := hapart hn
    have hw := (hword (.inl hn)).2
    intro role hrole
    cases role <;> simp_all
  by_cases he : (edge? l.1).isSome = true
  · refine ⟨.edge, hedge.mpr he, ?_⟩
    have hw := (hword (.inr he)).2
    intro role hrole
    cases role <;> simp_all
  by_cases hh : l ∈ (content text).take 1 ∧ l.1.all isWordChar = true
  · refine ⟨.header, hheader.mpr hh, ?_⟩
    intro role hrole
    cases role <;> simp_all
  · refine ⟨.unrecognized, hother.mpr ⟨hn, he, hh⟩, ?_⟩
    intro role hrole
    cases role <;> simp_all

theorem map_some_filterMap {α β : Type} (f : α → Option β) (as : List α) :
    (as.filterMap f).map some = (as.filter fun a => (f a).isSome).map f := by
  induction as with
  | nil => rfl
  | cons a as ih => cases h : f a <;> simp [h, ih]

theorem filterMap_content {β : Type} {f : Statement → Option β} (hf : f .blank = none) (text : List Char) :
    ((content text).filterMap fun l => f (ofContent l.1)) =
      (Text.lines text).filterMap fun line => f (ofLine line) := by
  have hskip : ((statements text).filter (·.1 ≠ .blank)).filterMap (fun s => f s.1) =
      (statements text).filterMap fun s => f s.1 := by
    rw [List.filterMap_filter]
    apply List.filterMap_congr
    intro s _
    by_cases hs : s.1 = .blank <;> simp [hs, hf]
  rw [← filterMap_statements, ← hskip, statements_content, List.filterMap_map]
  rfl

theorem isSome_asNode? (line : List Char) : ((ofContent line).asNode?).isSome = (node? line).isSome := by
  cases hn : node? line with
  | some n =>
    obtain ⟨m, hread, -⟩ := ofContent_node hn
    rw [hread]
    rfl
  | none =>
    rw [ofContent, hn]
    split
    · rename_i h
      cases h
    · split
      · rfl
      · split <;> rfl

theorem asEdge?_ofContent {line : List Char} (h : Text.trim line = line) :
    (ofContent line).asEdge? = (edge? line).map (·.1) := by
  obtain ⟨-, -, hapart, -⟩ := recognizes_forms h
  cases hn : node? line with
  | some n =>
    obtain ⟨m, hread, -⟩ := ofContent_node hn
    rw [hread, hapart (by rw [hn, Option.isSome_some])]
    rfl
  | none =>
    rw [ofContent, hn]
    cases edge? line with
    | some e => rfl
    | none =>
      simp only
      split <;> rfl

theorem nodeLines_counted (text : List Char) : (nodeLines text).map some =
    (counted (content text) .node).map fun l => (ofContent l.1).asNode? := by
  rw [nodeLines, ← filterMap_content rfl, map_some_filterMap]
  simp only [isSome_asNode?]
  rfl

theorem edgeLines_counted (text : List Char) : (edgeLines text).map some =
    (counted (content text) .edge).map fun l => (edge? l.1).map (·.1) := by
  have hread : ∀ l ∈ content text, (ofContent l.1).asEdge? = (edge? l.1).map (·.1) := by
    intro l hl
    exact asEdge?_ofContent (trim_of_mem_content hl)
  rw [edgeLines, ← filterMap_content rfl, List.filterMap_congr hread, map_some_filterMap]
  simp only [Option.isSome_map]
  rfl

def isUnrecognized : Diagnostic → Bool
  | .unrecognized .. => true
  | _ => false

theorem filter_lineWarnings (before : List (List Char × Nat)) (l : List Char × Nat) :
    (lineWarnings before l).filter isUnrecognized =
      if ¬(node? l.1).isSome ∧ ¬(edge? l.1).isSome ∧ ¬(before = [] ∧ l.1.all isWordChar) then
        [.unrecognized l.2 (String.ofList l.1)] else [] := by
  rw [lineWarnings]
  cases node? l.1 with
  | some n =>
    -- Neither warning about a node calls its line unrecognized.
    have hnone {β : Type} (f : β → Diagnostic) (hf : ∀ b, isUnrecognized (f b) = false) (o : Option β) :
        (o.map f).toList.filter isUnrecognized = [] := by
      cases o <;> simp [hf]
    simp only [List.filter_append]
    rw [hnone _ fun _ => rfl]
    split
    · simp
    · rw [hnone _ fun _ => rfl]
      simp
  | none =>
    cases edge? l.1 with
    | some e =>
      simp only
      split <;> simp [isUnrecognized]
    | none =>
      by_cases hfirst : before = [] ∧ l.1.all isWordChar = true
      · simp [hfirst]
      · have hpos : ¬(none : Option Node).isSome = true ∧ ¬(none : Option (Edge × Bool)).isSome = true ∧
            ¬(before = [] ∧ l.1.all isWordChar = true) :=
          ⟨Bool.false_ne_true, Bool.false_ne_true, hfirst⟩
        rw [if_pos hpos]
        simp only [if_neg hfirst]
        rfl

theorem counted_concat {ls : List (List Char × Nat)} {l : List Char × Nat} (h : l ∉ ls) :
    counted (ls ++ [l]) .unrecognized = counted ls .unrecognized ++
      if ¬(node? l.1).isSome ∧ ¬(edge? l.1).isSome ∧ ¬(ls = [] ∧ l.1.all isWordChar) then [l]
        else [] := by
  have hfirst (m : List Char × Nat) (hm : m ∈ ls) : m ∈ (ls ++ [l]).take 1 ↔ m ∈ ls.take 1 := by
    rw [List.take_append_of_le_length (List.length_pos_of_mem hm)]
  have hlast : l ∈ (ls ++ [l]).take 1 ↔ ls = [] := by
    cases ls with
    | nil => simp
    | cons first ls => simpa using fun heq : l = first => h (heq ▸ List.mem_cons_self)
  have hbefore : ls.filter (fun m => ¬(node? m.1).isSome ∧ ¬(edge? m.1).isSome ∧
      ¬(m ∈ (ls ++ [l]).take 1 ∧ m.1.all isWordChar)) = counted ls .unrecognized := by
    apply List.filter_congr
    intro m hm
    simp only [hfirst m hm]
  rw [counted, List.filter_append, hbefore, List.filter_singleton]
  simp only [hlast, Bool.cond_decide]

theorem unrecognized_warnings {ls : List (List Char × Nat)} (hn : ls.Nodup) :
    (warnings ls).filter isUnrecognized =
      (counted ls .unrecognized).map fun l => .unrecognized l.2 (String.ofList l.1) := by
  induction ls using List.reverseRecOn with
  | nil => rfl
  | append_singleton ls l ih =>
    obtain ⟨hls, -, hdisjoint⟩ := List.nodup_append.mp hn
    have hnew : l ∉ ls := fun hl => hdisjoint l hl l (List.mem_singleton_self l) rfl
    rw [warnings_concat, List.filter_append, ih hls, filter_lineWarnings, counted_concat hnew]
    split <;> simp

/-- Each line with content counts as one thing, and the node lines, the edge lines and the warnings of
unrecognized lines are those that count as such, one by one and in order. -/
structure Accounted (text : String) : Prop where
  nodup : (content text.toList).Nodup
  sublist : ∀ role, (counted (content text.toList) role).Sublist (content text.toList)
  once : ∀ l ∈ content text.toList, ∃! role, l ∈ counted (content text.toList) role
  nodes : (nodeLines text.toList).map some =
    (counted (content text.toList) .node).map fun l => (ofContent l.1).asNode?
  edges : (edgeLines text.toList).map some =
    (counted (content text.toList) .edge).map fun l => (edge? l.1).map (·.1)
  unrecognized : (read text).diagnostics.filter isUnrecognized =
    (counted (content text.toList) .unrecognized).map fun l => .unrecognized l.2 (String.ofList l.1)

theorem accounted (text : String) : Accounted text where
  nodup := nodup_content text.toList
  sublist := counted_sublist (content text.toList)
  once _ h := counted_once h
  nodes := nodeLines_counted text.toList
  edges := edgeLines_counted text.toList
  unrecognized := by
    rw [diagnostics_content, unrecognized_warnings (nodup_content text.toList)]

theorem filterMap_lines_insert {β : Type} {f : Statement → Option β} (hf : f .blank = none)
    {before after : List (List Char)} {line : List Char} (hline : ofLine line = .blank)
    {text again : List Char} (htext : Text.lines text = before ++ after)
    (hagain : Text.lines again = before ++ line :: after) :
    ((Text.lines again).filterMap fun line => f (ofLine line)) =
      (Text.lines text).filterMap fun line => f (ofLine line) := by
  rw [htext, hagain]
  simp [hline, hf]

theorem read_insert_blank {before after : List (List Char)} {line : List Char} {text again : String}
    (hline : Text.trim line = [] ∨ isComment (Text.trim line) = true)
    (htext : Text.lines text.toList = before ++ after)
    (hagain : Text.lines again.toList = before ++ line :: after) :
    (read again).nodes = (read text).nodes ∧ (read again).edges = (read text).edges := by
  have hblank := (ofLine_eq_blank line).mpr hline
  constructor
  · have hnodes : nodeLines again.toList = nodeLines text.toList :=
      filterMap_lines_insert rfl hblank htext hagain
    rw [nodes_read_filed, nodes_read_filed, filed, filed, hnodes]
  · rw [edges_read, edges_read]
    exact filterMap_lines_insert rfl hblank htext hagain

/-- The nodes of a text stand in the order in which their ids are first declared, each as it was
declared last, and its edges are those of the edge lines. Lines with content count once each, and
those without change neither nodes nor edges. -/
theorem read_keeps_last (text : String) :
    ((read text).nodes.map (·.id)).Nodup ∧
      (read text).nodes.map (·.id) = distinct ((nodeLines text.toList).map (·.id)) ∧
      (∀ n ∈ (read text).nodes, ((nodeLines text.toList).filter (·.id = n.id)).getLast? = some n) ∧
      (read text).edges = edgeLines text.toList ∧ Accounted text ∧
      ∀ (before after : List (List Char)) (line : List Char) (again : String),
        Text.lines text.toList = before ++ after →
        Text.lines again.toList = before ++ line :: after →
        Text.trim line = [] ∨ isComment (Text.trim line) = true →
        (read again).nodes = (read text).nodes ∧ (read again).edges = (read text).edges := by
  refine ⟨nodup_ids text, ids_read text, fun n => last_of_mem_nodes, edges_read text, accounted text, ?_⟩
  intro before after line again htext hagain hline
  exact read_insert_blank hline htext hagain

/-- A task becomes a gateway, and a comment is put in before that. -/
theorem read_keeps_last_gateway : ∃ text again : String,
    text = "flow\ntask a \"A\" [actor: Ann]\nendEvent b \"B\"\na -> b\ngateway a \"C\"" ∧
    again = "flow\ntask a \"A\" [actor: Ann]\nendEvent b \"B\"\na -> b\n  %% later\ngateway a \"C\"" ∧
    (read text).nodes = [⟨"a", .gateway, "C", none⟩, ⟨"b", .endEvent, "B", none⟩] ∧
    (nodeLines text.toList).map (·.id) = ["a", "b", "a"] ∧
    (read again).nodes = (read text).nodes ∧ (read again).edges = (read text).edges := by
  refine ⟨_, _, rfl, rfl, by decide +kernel, by decide +kernel, ?_⟩
  have hinsert := (read_keeps_last
    "flow\ntask a \"A\" [actor: Ann]\nendEvent b \"B\"\na -> b\ngateway a \"C\"").2.2.2.2.2
  exact hinsert ["flow".toList, "task a \"A\" [actor: Ann]".toList, "endEvent b \"B\"".toList,
    "a -> b".toList] ["gateway a \"C\"".toList] "  %% later".toList _ (by decide +kernel)
    (by decide +kernel) (by decide +kernel)

end FlowDiagram.Document
