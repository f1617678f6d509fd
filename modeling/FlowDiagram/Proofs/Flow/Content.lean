import FlowDiagram.Proofs.Flow.Document
import FlowDiagram.Proofs.Flow.Grammar

namespace FlowDiagram

open Statement

namespace Statement

theorem ofNode_eq (n : Node) :
    ∃ m, ofNode n = .node m (if n.kind = .task then none else n.actor) ∧ m.id = n.id ∧ m.kind = n.kind := by
  by_cases htask : n.kind = .task
  · rw [ofNode, if_pos htask, if_pos htask]
    exact ⟨n, rfl, rfl, rfl⟩
  · rw [ofNode, if_neg htask, if_neg htask]
    exact ⟨{ n with actor := none }, rfl, rfl, rfl⟩

theorem ofContent_ne_blank (cs : List Char) : ofContent cs ≠ .blank := by
  rw [ofContent]
  split
  · rename_i n _
    obtain ⟨m, hn, -⟩ := ofNode_eq n
    simp [hn]
  · split
    · simp
    · split <;> simp

theorem ofLine_eq_blank (line : List Char) :
    ofLine line = .blank ↔ Text.trim line = [] ∨ isComment (Text.trim line) = true := by
  rw [ofLine]
  split
  · rename_i h
    exact iff_of_true rfl h
  · rename_i h
    exact iff_of_false (ofContent_ne_blank _) h

end Statement

namespace Document

/-- The lines that are neither blank nor comments, trimmed, each with its number in the text. -/
def content (text : List Char) : List (List Char × Nat) :=
  (((Text.lines text).map Text.trim).zipIdx 1).filter fun l => ¬(l.1 = [] ∨ isComment l.1 = true)

theorem trim_of_mem_content {text : List Char} {l : List Char × Nat} (h : l ∈ content text) :
    Text.trim l.1 = l.1 := by
  have hmem := List.fst_mem_of_mem_zipIdx (List.mem_of_mem_filter h)
  obtain ⟨line, -, hline⟩ := List.mem_map.mp hmem
  rw [← hline, Text.trim_trim]

theorem nodup_content (text : List Char) : (content text).Nodup := by
  apply List.Nodup.filter
  apply List.Nodup.of_map Prod.snd
  rw [List.zipIdx_map_snd]
  exact List.nodup_range'

theorem statements_content (text : List Char) :
    (statements text).filter (·.1 ≠ .blank) = (content text).map fun l => (ofContent l.1, l.2) := by
  rw [statements, content]
  generalize 1 = k
  induction Text.lines text generalizing k with
  | nil => rfl
  | cons line ls ih =>
    rw [List.map_cons, List.map_cons, List.zipIdx_cons, List.zipIdx_cons]
    by_cases hblank : Text.trim line = [] ∨ isComment (Text.trim line) = true
    · have hline := (ofLine_eq_blank line).mpr hblank
      rw [List.filter_cons_of_neg (by simpa using hline),
        List.filter_cons_of_neg (by simpa only [decide_eq_true_eq, not_not] using hblank), ih]
    · have hline : ofLine line ≠ .blank := mt (ofLine_eq_blank line).mp hblank
      have hcontent : ofLine line = ofContent (Text.trim line) := by rw [ofLine, if_neg hblank]
      rw [List.filter_cons_of_pos (by simpa using hline), List.filter_cons_of_pos (by simpa using hblank),
        List.map_cons, ih, hcontent]

theorem read_content (text : String) :
    read text = (((content text.toList).map fun l => (ofContent l.1, l.2)).foldl
      (fun (r : Reading) s => r.take s.2 s.1) {}).document := by
  rw [read, ← statements_content, List.foldl_filter]
  congr 2
  funext r s
  by_cases hs : s.1 = .blank
  · simp [hs, Reading.take]
  · simp [hs]

/-- The lines that declare an id, whatever their kind. -/
def declares (id : String) (l : List Char × Nat) : Bool := (node? l.1).any (·.id = id)

/-- The warnings about a line with content behind the lines before it: a node can be given an actor
that it cannot have, and can replace the latest declaration of its id; an edge can have two labels;
and any other line is unrecognized unless it is a bare word that nothing stands before. -/
def lineWarnings (before : List (List Char × Nat)) (l : List Char × Nat) : List Diagnostic :=
  match node? l.1, edge? l.1 with
  | some n, _ =>
    (if n.kind = .task then [] else (n.actor.map fun a => .droppedActor l.2 a n.kind n.id).toList) ++
      ((before.filter (declares n.id)).getLast?.map fun earlier =>
        .redeclared l.2 n.id earlier.2).toList
  | none, some (e, doubled) => if doubled then [.twoLabels l.2 e.label] else []
  | none, none =>
    if before = [] ∧ l.1.all isWordChar then [] else [.unrecognized l.2 (String.ofList l.1)]

def warnings (ls : List (List Char × Nat)) : List Diagnostic :=
  ls.zipIdx.flatMap fun l => lineWarnings (ls.take l.2) l.1

theorem warnings_concat (ls : List (List Char × Nat)) (l : List Char × Nat) :
    warnings (ls ++ [l]) = warnings ls ++ lineWarnings ls l := by
  have hbefore : (ls.zipIdx.flatMap fun k => lineWarnings ((ls ++ [l]).take k.2) k.1) = warnings ls := by
    rw [warnings, List.flatMap_def, List.flatMap_def]
    congr 1
    apply List.map_congr_left
    intro k hk
    have hlt := List.snd_lt_of_mem_zipIdx hk
    rw [List.take_append_of_le_length (by omega)]
  rw [warnings, List.zipIdx_append, List.flatMap_append, hbefore]
  simp

def readingOf (ls : List (List Char × Nat)) : Reading :=
  (ls.map fun l => (ofContent l.1, l.2)).foldl (fun (r : Reading) s => r.take s.2 s.1) {}

theorem readingOf_concat (ls : List (List Char × Nat)) (l : List Char × Nat) :
    readingOf (ls ++ [l]) = (readingOf ls).take l.2 (ofContent l.1) := by
  simp [readingOf]

theorem ofContent_node {line : List Char} {n : Node} (h : node? line = some n) :
    ∃ m, ofContent line = .node m (if n.kind = .task then none else n.actor) ∧ m.id = n.id ∧
      m.kind = n.kind := by
  rw [ofContent, h]
  exact ofNode_eq n

theorem declared_take_other {r : Reading} {l : List Char × Nat} (h : node? l.1 = none) :
    (r.take l.2 (ofContent l.1)).declared = r.declared := by
  rw [ofContent, h]
  cases edge? l.1 with
  | some e => rfl
  | none =>
    by_cases hword : l.1.all isWordChar = true
    · simp only [hword]
      rfl
    · simp only [hword]
      rfl

theorem get?_declared (ls : List (List Char × Nat)) (id : String) :
    ((readingOf ls).declared.get? id).map (·.1) = (ls.filter (declares id)).getLast?.map (·.2) := by
  induction ls using List.reverseRecOn with
  | nil => rfl
  | append_singleton ls l ih =>
    rw [readingOf_concat, List.filter_append]
    cases hn : node? l.1 with
    | none =>
      have hdeclares : declares id l = false := by rw [declares, hn, Option.any_none]
      rw [declared_take_other hn, List.filter_singleton, hdeclares, ih]
      simp
    | some n =>
      obtain ⟨m, hread, hid, -⟩ := ofContent_node hn
      have hdeclares : declares id l = decide (n.id = id) := by rw [declares, hn, Option.any_some]
      have hput : ((readingOf ls).take l.2 (ofContent l.1)).declared =
          (readingOf ls).declared.put m.id (l.2, m) := by rw [hread]; rfl
      rw [hput, Table.get?_put, List.filter_singleton, hdeclares, hid]
      by_cases heq : n.id = id
      · simp [heq]
      · simp [heq, ih]

theorem started_readingOf (ls : List (List Char × Nat)) :
    (readingOf ls).started = true ↔ ls ≠ [] := by
  cases ls using List.reverseRecOn with
  | nil => simp [readingOf]
  | append_singleton ls l =>
    rw [readingOf_concat]
    have hne := ofContent_ne_blank l.1
    cases h : ofContent l.1 <;> simp_all [Reading.take, Reading.warn]

theorem diagnostics_take_node {ls : List (List Char × Nat)} {l : List Char × Nat} {n : Node}
    (hn : node? l.1 = some n) :
    ((readingOf ls).take l.2 (ofContent l.1)).diagnostics =
      (readingOf ls).diagnostics ++ lineWarnings ls l := by
  obtain ⟨m, hread, hid, hkind⟩ := ofContent_node hn
  have hearlier : ((readingOf ls).declared.get? n.id).map (fun e => Diagnostic.redeclared l.2 n.id e.1) =
      (ls.filter (declares n.id)).getLast?.map fun earlier => .redeclared l.2 n.id earlier.2 := by
    have hget := congrArg (Option.map (Diagnostic.redeclared l.2 n.id)) (get?_declared ls n.id)
    rwa [Option.map_map, Option.map_map] at hget
  have htake : ((readingOf ls).take l.2 (ofContent l.1)).diagnostics = (readingOf ls).diagnostics ++
      ((if n.kind = .task then none else n.actor).map fun a =>
        Diagnostic.droppedActor l.2 a n.kind n.id).toList ++
      (((readingOf ls).declared.get? n.id).map fun e => .redeclared l.2 n.id e.1).toList := by
    rw [hread, ← hid, ← hkind]
    rfl
  rw [htake, hearlier, List.append_assoc, lineWarnings, hn]
  by_cases htask : n.kind = .task
  · rw [if_pos htask]
    simp only [if_pos htask]
    rfl
  · rw [if_neg htask]
    simp only [if_neg htask]

theorem diagnostics_take_other {ls : List (List Char × Nat)} {l : List Char × Nat}
    (hn : node? l.1 = none) :
    ((readingOf ls).take l.2 (ofContent l.1)).diagnostics =
      (readingOf ls).diagnostics ++ lineWarnings ls l := by
  rw [lineWarnings, hn]
  cases he : edge? l.1 with
  | some e => simp [ofContent, hn, he, Reading.take, Reading.warn]
  | none =>
    by_cases hword : l.1.all isWordChar = true
    · have htake : ((readingOf ls).take l.2 (ofContent l.1)).diagnostics = (readingOf ls).diagnostics ++
          if (readingOf ls).started = true then [.unrecognized l.2 (String.ofList l.1)] else [] := by
        simp [ofContent, hn, he, hword, Reading.take, Reading.warn]
      rw [htake]
      simp only [started_readingOf]
      by_cases hfirst : ls = [] <;> simp [hfirst, hword]
    · simp [ofContent, hn, he, hword, Reading.take, Reading.warn]

theorem diagnostics_readingOf (ls : List (List Char × Nat)) :
    (readingOf ls).diagnostics = warnings ls := by
  induction ls using List.reverseRecOn with
  | nil => rfl
  | append_singleton ls l ih =>
    rw [readingOf_concat, warnings_concat, ← ih]
    cases hn : node? l.1 with
    | some n => exact diagnostics_take_node hn
    | none => exact diagnostics_take_other hn

theorem diagnostics_content (text : String) :
    (read text).diagnostics = warnings (content text.toList) := by
  rw [read_content, ← diagnostics_readingOf]
  rfl

end Document
end FlowDiagram
