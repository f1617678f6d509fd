import FlowDiagram.Proofs.Flow.Size
import FlowDiagram.Proofs.Flow.Written

namespace FlowDiagram

open Text

/-- Every character of the part is one of the text, and ends no line. -/
def Excerpt (text part : String) : Prop := ∀ c ∈ part.toList, c ∈ text.toList ∧ isBreak c = false

def Node.texts (n : Node) : List String := n.label :: n.actor.toList

theorem NodeForm.mem_text {f : NodeForm} : ∀ part ∈ f.node.texts, ∀ c ∈ part.toList, c ∈ f.text := by
  intro part hpart c hc
  rw [Node.texts, List.mem_cons, Option.mem_toList] at hpart
  obtain rfl | hactor := hpart
  · rw [node, String.toList_ofList] at hc
    simp [text, hc]
  · rw [node] at hactor
    split at hactor
    · obtain ⟨raw, hraw, -, rfl⟩ := f.actor.name_of_given hactor
      rw [String.toList_ofList] at hc
      have hmem := (f.actor.name_spec hraw).2 c (mem_of_mem_trim hc)
      simp [text, hmem]
    · cases hactor

namespace Document

theorem excerpt_of_mem_lines {text part : String} {line : List Char} (hline : line ∈ lines text.toList)
    (h : ∀ c ∈ part.toList, c ∈ trim line) : Excerpt text part := by
  intro c hc
  have hmem := mem_of_mem_trim (h c hc)
  exact ⟨((List.sublist_flatten_of_mem hline).trans (flatten_lines_sublist _)).subset hmem,
    not_isBreak_of_mem_lines hline c hmem⟩

theorem excerpt_node {text : String} {n : Node} (h : n ∈ (read text).nodes) :
    ∀ part ∈ n.texts, Excerpt text part := by
  obtain ⟨line, hline, hn⟩ := List.mem_filterMap.mp (mem_nodeLines h)
  obtain ⟨dropped, hs⟩ := Statement.asNode?_eq_some.mp hn
  obtain ⟨f, hf, rfl⟩ := Statement.exists_form_of_node hs
  intro part hpart
  exact excerpt_of_mem_lines hline (hf ▸ f.mem_text part hpart)

theorem excerpt_edge {text : String} {e : Edge} (h : e ∈ (read text).edges) : Excerpt text e.label := by
  rw [edges_read] at h
  obtain ⟨line, hline, he⟩ := List.mem_filterMap.mp h
  obtain ⟨doubled, hs⟩ := Statement.asEdge?_eq_some.mp he
  obtain ⟨f, hf, rfl⟩ := Statement.exists_form_of_edge hs
  refine excerpt_of_mem_lines hline ?_
  rw [EdgeForm.edge, String.toList_ofList, ← hf]
  intro c hc
  exact (EdgeForm.mem_text_of_mem_label (mem_of_mem_trim hc)).1

theorem exists_labelled {label : String} (hquote : '"' ∉ label.toList)
    (hline : ∀ c ∈ label.toList, isBreak c = false) :
    ∃ text : String, text.length = label.length + 9 ∧ (read text).nodes = [⟨"a", .task, label, none⟩] := by
  let n : Node := ⟨"a", .task, label, none⟩
  have hwritable : n.Writable := ⟨by simp [n], by simp [n, isWordChar], hquote, hline, nofun⟩
  have hjoined : Joined [line (.inl n)] n.line.toList := .last _
  have hread := @read_lines [.inl n] n.line (List.forall_mem_singleton.mpr hwritable) (by simp) hjoined
  refine ⟨n.line, ?_, congrArg nodes hread⟩
  simp only [n, Node.line, Node.actorText, Kind.word, String.length_append]
  have hlengths : "task".length = 4 ∧ " ".length = 1 ∧ "a".length = 1 ∧ " \"".length = 2 ∧ "\"".length = 1 ∧
      "".length = 0 := ⟨rfl, rfl, rfl, rfl, rfl, rfl⟩
  omega

end Document

end FlowDiagram
