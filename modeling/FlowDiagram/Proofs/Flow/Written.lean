import FlowDiagram.Proofs.Flow.Document
import FlowDiagram.Proofs.Flow.Grammar

namespace FlowDiagram

open Text

namespace Node

/-- An actor stands in brackets, or in quotes if the name has a closing bracket. -/
def actorText : Option String → String
  | none => ""
  | some name =>
    if ']' ∈ name.toList then " actor=\"" ++ name ++ "\"" else " [actor: " ++ name ++ "]"

def line (n : Node) : String :=
  n.kind.word ++ " " ++ n.id ++ " \"" ++ n.label ++ "\"" ++ actorText n.actor

end Node

def Edge.line (e : Edge) : String :=
  if e.label = "" then e.source ++ " --> " ++ e.target
  else e.source ++ " -->|" ++ e.label ++ "| " ++ e.target

/-- An actor whose name can be written: in brackets or in quotes, on one line. -/
structure Named (name : String) : Prop where
  trimmed : trim name.toList = name.toList
  ne_nil : name.toList ≠ []
  free : ']' ∉ name.toList ∨ '"' ∉ name.toList
  line : ∀ c ∈ name.toList, isBreak c = false

/-- What is known of a node that was read from a line. -/
structure Node.Writable (n : Node) : Prop where
  id_ne : n.id.toList ≠ []
  id_word : ∀ c ∈ n.id.toList, isWordChar c = true
  label_free : '"' ∉ n.label.toList
  label_line : ∀ c ∈ n.label.toList, isBreak c = false
  actor : ∀ name, n.actor = some name → n.kind = .task ∧ Named name

structure Edge.Writable (e : Edge) : Prop where
  source_ne : e.source.toList ≠ []
  source_word : ∀ c ∈ e.source.toList, isWordChar c = true
  target_ne : e.target.toList ≠ []
  target_word : ∀ c ∈ e.target.toList, isWordChar c = true
  label_free : '|' ∉ e.label.toList
  label_trimmed : trim e.label.toList = e.label.toList
  label_line : ∀ c ∈ e.label.toList, isBreak c = false

section Read

theorem ActorForm.name_of_given {f : ActorForm} {name : String} (h : f.given = some name) :
    ∃ raw, f.name = some raw ∧ trim raw ≠ [] ∧ name = String.ofList (trim raw) := by
  obtain ⟨raw, hraw, hname⟩ := Option.bind_eq_some_iff.mp h
  by_cases hnil : trim raw = []
  · rw [if_pos hnil] at hname
    cases hname
  · rw [if_neg hnil] at hname
    exact ⟨raw, hraw, hnil, (Option.some.inj hname).symm⟩

theorem ActorForm.name_spec {f : ActorForm} {raw : List Char} (h : f.name = some raw) :
    (']' ∉ raw ∨ '"' ∉ raw) ∧ ∀ c ∈ raw, c ∈ f.text := by
  cases f with
  | absent => cases h
  | bracketed _ _ _ as =>
    obtain rfl := Option.some.inj h
    refine ⟨.inl as.free, ?_⟩
    intro c hc
    simp [ActorForm.text, hc]
  | quoted _ _ _ as =>
    obtain rfl := Option.some.inj h
    refine ⟨.inr as.free, ?_⟩
    intro c hc
    simp [ActorForm.text, hc]

theorem ActorForm.named_given {f : ActorForm} {name : String} (h : f.given = some name)
    (hline : ∀ c ∈ f.text, isBreak c = false) : Named name := by
  obtain ⟨raw, hraw, hne, rfl⟩ := f.name_of_given h
  obtain ⟨hfree, hmem⟩ := f.name_spec hraw
  refine ⟨?_, ?_, ?_, ?_⟩
  · rw [String.toList_ofList]
    exact trim_trim raw
  · rw [String.toList_ofList]
    exact hne
  · rw [String.toList_ofList]
    exact hfree.imp (mt mem_of_mem_trim) (mt mem_of_mem_trim)
  · rw [String.toList_ofList]
    intro c hc
    exact hline c (hmem c (mem_of_mem_trim hc))

theorem NodeForm.writable {f : NodeForm} (hline : ∀ c ∈ f.text, isBreak c = false) :
    f.node.Writable := by
  refine ⟨?_, ?_, ?_, ?_, ?_⟩
  · simpa [node] using f.id.ne_nil
  · simpa [node] using f.id.word
  · simpa [node] using f.label.free
  · intro c hc
    have hlabel : c ∈ f.label.chars := by simpa [node] using hc
    apply hline
    simp [text, hlabel]
  · intro name hname
    simp only [node] at hname ⊢
    split at hname
    · rename_i hk
      refine ⟨hk, f.actor.named_given hname ?_⟩
      intro c hc
      apply hline
      simp [text, hc]
    · cases hname

theorem EdgeForm.mem_text_of_mem_label {f : EdgeForm} {c : Char} (h : c ∈ f.label) :
    c ∈ f.text ∧ c ≠ '|' := by
  rw [label] at h
  cases hfirst : f.first with
  | some first =>
    have hc : c ∈ first.1.chars := by simpa [hfirst] using h
    refine ⟨by simp [text, hfirst, firstText, hc], ?_⟩
    rintro rfl
    exact first.1.free hc
  | none =>
    cases hlast : f.last with
    | some last =>
      have hc : c ∈ last.2.chars := by simpa [hfirst, hlast] using h
      refine ⟨by simp [text, hlast, lastText, hc], ?_⟩
      rintro rfl
      exact last.2.free hc
    | none => simp [hfirst, hlast] at h

theorem EdgeForm.writable {f : EdgeForm} (hline : ∀ c ∈ f.text, isBreak c = false) :
    f.edge.Writable := by
  refine ⟨?_, ?_, ?_, ?_, ?_, ?_, ?_⟩
  · simpa [edge] using f.source.ne_nil
  · simpa [edge] using f.source.word
  · simpa [edge] using f.target.ne_nil
  · simpa [edge] using f.target.word
  · simp only [edge, String.toList_ofList]
    intro hbar
    exact (mem_text_of_mem_label (mem_of_mem_trim hbar)).2 rfl
  · simp only [edge, String.toList_ofList]
    exact trim_trim f.label
  · simp only [edge, String.toList_ofList]
    intro c hc
    exact hline c (mem_text_of_mem_label (mem_of_mem_trim hc)).1

namespace Document

theorem writable_node {text : String} {n : Node} (h : n ∈ (read text).nodes) : n.Writable := by
  obtain ⟨line, hline, hn⟩ := List.mem_filterMap.mp (mem_nodeLines h)
  have hfree := not_isBreak_of_mem_lines hline
  obtain ⟨dropped, hs⟩ := Statement.asNode?_eq_some.mp hn
  obtain ⟨f, hf, rfl⟩ := Statement.exists_form_of_node hs
  apply NodeForm.writable
  intro c hc
  exact hfree c (mem_of_mem_trim (hf ▸ hc))

theorem writable_edge {text : String} {e : Edge} (h : e ∈ (read text).edges) : e.Writable := by
  rw [edges_read] at h
  obtain ⟨line, hline, he⟩ := List.mem_filterMap.mp h
  have hfree := not_isBreak_of_mem_lines hline
  obtain ⟨doubled, hs⟩ := Statement.asEdge?_eq_some.mp he
  obtain ⟨f, hf, rfl⟩ := Statement.exists_form_of_edge hs
  apply EdgeForm.writable
  intro c hc
  exact hfree c (mem_of_mem_trim (hf ▸ hc))

end Document

end Read

section Write

theorem not_isBreak_of_isWordChar {c : Char} (h : isWordChar c = true) : isBreak c = false := by
  rw [Bool.eq_false_iff]
  intro hb
  have hblank := isBlank_of_isBreak hb
  rw [isBlank_of_isWordChar h] at hblank
  cases hblank

theorem ActorForm.exists_written (actor : Option String) (h : ∀ name, actor = some name → Named name) :
    ∃ f : ActorForm, f.text = (Node.actorText actor).toList ∧ f.given = actor := by
  cases actor with
  | none => exact ⟨.absent, rfl, rfl⟩
  | some name =>
    obtain ⟨htrim, hne, hfree, -⟩ := h name rfl
    by_cases hclose : ']' ∈ name.toList
    · have hquote := hfree.resolve_left (not_not_intro hclose)
      refine ⟨.quoted .space .none .none ⟨name.toList, hquote⟩, ?_, ?_⟩
      · simp [text, Node.actorText, hclose, Blanks.space, Blanks.none]
      · simp [given, ActorForm.name, htrim, hne]
    · refine ⟨.bracketed .space .none .none ⟨' ' :: name.toList, by simp [hclose]⟩, ?_, ?_⟩
      · simp [text, Node.actorText, hclose, Blanks.space, Blanks.none]
      · simp [given, ActorForm.name, trim_space, htrim, hne]

theorem NodeForm.exists_written {n : Node} (h : n.Writable) :
    ∃ f : NodeForm, f.text = n.line.toList ∧ f.statement = .node n none := by
  obtain ⟨actor, htext, hgiven⟩ := ActorForm.exists_written n.actor fun name hname => (h.actor name hname).2
  have hspace : Blanks.space.chars ≠ [] := List.cons_ne_nil _ _
  refine ⟨⟨n.kind, .space, hspace, ⟨n.id.toList, h.id_ne, h.id_word⟩, .space,
    ⟨n.label.toList, h.label_free⟩, actor⟩, ?_, ?_⟩
  · simp [text, Node.line, htext, Blanks.space]
  · obtain ⟨id, kind, label, given⟩ := n
    cases given with
    | none => simp [statement, node, hgiven]
    | some name =>
      have hkind := (h.actor name rfl).1
      simp at hkind
      simp [statement, node, hgiven, hkind]

theorem EdgeForm.exists_written {e : Edge} (h : e.Writable) :
    ∃ f : EdgeForm, f.text = e.line.toList ∧ f.statement = .edge e false := by
  obtain ⟨source, target, label⟩ := e
  obtain ⟨hsource, hsourceWord, htarget, htargetWord, hfree, htrim, -⟩ := h
  by_cases hlabel : label = ""
  · refine ⟨⟨⟨source.toList, hsource, hsourceWord⟩, .space, true, .space, none,
      ⟨target.toList, htarget, htargetWord⟩, none⟩, ?_, ?_⟩
    · simp [text, Edge.line, hlabel, Blanks.space, arrow, firstText, lastText]
    · subst hlabel
      simp [statement, edge, EdgeForm.label, doubled]
      rfl
  · refine ⟨⟨⟨source.toList, hsource, hsourceWord⟩, .space, true, .none,
      some (⟨label.toList, hfree⟩, .space), ⟨target.toList, htarget, htargetWord⟩, none⟩, ?_, ?_⟩
    · simp [text, Edge.line, hlabel, Blanks.space, Blanks.none, arrow, firstText, lastText]
    · simp at htrim
      simp [statement, edge, EdgeForm.label, doubled, htrim]

theorem not_isBreak_of_any {cs : List Char} (h : cs.any isBreak = false) : ∀ c ∈ cs, isBreak c = false := by
  simpa using h

theorem Node.line_free {n : Node} (h : n.Writable) : ∀ c ∈ n.line.toList, isBreak c = false := by
  have hword : ∀ c ∈ n.kind.word.toList, isBreak c = false :=
    fun c hc => not_isBreak_of_isWordChar (n.kind.isWordChar_of_mem_word c hc)
  have hid : ∀ c ∈ n.id.toList, isBreak c = false :=
    fun c hc => not_isBreak_of_isWordChar (h.id_word c hc)
  have hactor : ∀ c ∈ (actorText n.actor).toList, isBreak c = false := by
    cases ha : n.actor with
    | none => simp [actorText]
    | some name =>
      have hname := (h.actor name ha).2.line
      rw [actorText]
      split
      · simp only [String.toList_append, List.forall_mem_append]
        exact ⟨⟨not_isBreak_of_any (by decide), hname⟩, not_isBreak_of_any (by decide)⟩
      · simp only [String.toList_append, List.forall_mem_append]
        exact ⟨⟨not_isBreak_of_any (by decide), hname⟩, not_isBreak_of_any (by decide)⟩
  have hspace : ∀ c ∈ " ".toList, isBreak c = false := not_isBreak_of_any (by decide)
  have hopen : ∀ c ∈ " \"".toList, isBreak c = false := not_isBreak_of_any (by decide)
  have hclose : ∀ c ∈ "\"".toList, isBreak c = false := not_isBreak_of_any (by decide)
  simp only [line, String.toList_append, List.forall_mem_append]
  exact ⟨⟨⟨⟨⟨⟨hword, hspace⟩, hid⟩, hopen⟩, h.label_line⟩, hclose⟩, hactor⟩

theorem Edge.line_free {e : Edge} (h : e.Writable) : ∀ c ∈ e.line.toList, isBreak c = false := by
  have hsource : ∀ c ∈ e.source.toList, isBreak c = false :=
    fun c hc => not_isBreak_of_isWordChar (h.source_word c hc)
  have htarget : ∀ c ∈ e.target.toList, isBreak c = false :=
    fun c hc => not_isBreak_of_isWordChar (h.target_word c hc)
  rw [line]
  split
  · simp only [String.toList_append, List.forall_mem_append]
    exact ⟨⟨hsource, not_isBreak_of_any (by decide)⟩, htarget⟩
  · simp only [String.toList_append, List.forall_mem_append]
    exact ⟨⟨⟨⟨hsource, not_isBreak_of_any (by decide)⟩, h.label_line⟩, not_isBreak_of_any (by decide)⟩, htarget⟩

namespace Document

def line (item : Node ⊕ Edge) : List Char := (item.elim Node.line Edge.line).toList

def declaration (item : Node ⊕ Edge) : Statement :=
  item.elim (fun n => .node n none) (fun e => .edge e false)

theorem line_spec {item : Node ⊕ Edge} (h : item.elim Node.Writable Edge.Writable) :
    line item ≠ [] ∧ (∀ c ∈ line item, isBreak c = false) ∧
      Statement.ofLine (line item) = declaration item := by
  cases item with
  | inl n =>
    obtain ⟨f, htext, hs⟩ := NodeForm.exists_written h
    obtain ⟨c, rest, hhead, -⟩ := f.exists_head
    have hline : line (.inl n) = f.text := htext.symm
    refine ⟨?_, Node.line_free h, ?_⟩
    · rw [hline, hhead]
      exact List.cons_ne_nil _ _
    · rw [hline, Statement.ofLine_node]
      exact hs
  | inr e =>
    obtain ⟨f, htext, hs⟩ := EdgeForm.exists_written h
    obtain ⟨c, rest, hhead, -⟩ := f.exists_head
    have hline : line (.inr e) = f.text := htext.symm
    refine ⟨?_, Edge.line_free h, ?_⟩
    · rw [hline, hhead]
      exact List.cons_ne_nil _ _
    · rw [hline, Statement.ofLine_edge]
      exact hs

theorem plain_declaration (item : Node ⊕ Edge) : (declaration item).Plain := by
  cases item with
  | inl n => exact .node n
  | inr e => exact .edge e

theorem read_lines {items : List (Node ⊕ Edge)} {text : String}
    (h : ∀ item ∈ items, item.elim Node.Writable Edge.Writable)
    (hn : ((items.filterMap Sum.getLeft?).map (·.id)).Nodup)
    (hjoined : Joined (items.map line) text.toList) :
    read text = ⟨items.filterMap Sum.getLeft?, items.filterMap Sum.getRight?, []⟩ := by
  -- The text comes apart into the written lines, and each of them is read as what was written.
  have hlines : lines text.toList = items.map line := by
    apply hjoined.lines
    intro l hl
    obtain ⟨item, hitem, rfl⟩ := List.mem_map.mp hl
    obtain ⟨hne, hfree, -⟩ := line_spec (h item hitem)
    exact ⟨hne, hfree⟩
  have hread {α : Type} (f : Statement → Option α) :
      ((lines text.toList).filterMap fun l => f (Statement.ofLine l)) =
        items.filterMap fun item => f (declaration item) := by
    rw [hlines, List.filterMap_map]
    apply List.filterMap_congr
    intro item hitem
    rw [Function.comp_apply, (line_spec (h item hitem)).2.2]
  have hnodes : nodeLines text.toList = items.filterMap Sum.getLeft? := by
    rw [nodeLines, hread]
    apply List.filterMap_congr
    rintro (n | e) - <;> rfl
  have hedges : edgeLines text.toList = items.filterMap Sum.getRight? := by
    rw [edgeLines, hread]
    apply List.filterMap_congr
    rintro (n | e) - <;> rfl
  have hplain : ∀ l ∈ lines text.toList, (Statement.ofLine l).Plain := by
    rw [hlines]
    intro l hl
    obtain ⟨item, hitem, rfl⟩ := List.mem_map.mp hl
    rw [(line_spec (h item hitem)).2.2]
    exact plain_declaration item
  rw [← hnodes] at hn
  calc
    read text = ⟨(read text).nodes, (read text).edges, (read text).diagnostics⟩ := rfl
    _ = _ := by rw [nodes_read hn, edges_read, diagnostics_read hn hplain, hnodes, hedges]

/-- What was read can be written, a line for each node and each edge, and is read again as it was: in
any order that keeps the nodes in order and the edges, and with any breaks between the lines. -/
theorem read_written (text again : String) (items : List (Node ⊕ Edge))
    (hnodes : items.filterMap Sum.getLeft? = (read text).nodes)
    (hedges : items.filterMap Sum.getRight? = (read text).edges)
    (hjoined : Joined (items.map line) again.toList) :
    read again = ⟨(read text).nodes, (read text).edges, []⟩ := by
  have hwritable : ∀ item ∈ items, item.elim Node.Writable Edge.Writable := by
    intro item hitem
    cases item with
    | inl n =>
      have hmem : n ∈ (read text).nodes := by
        rw [← hnodes]
        exact List.mem_filterMap.mpr ⟨_, hitem, rfl⟩
      exact writable_node hmem
    | inr e =>
      have hmem : e ∈ (read text).edges := by
        rw [← hedges]
        exact List.mem_filterMap.mpr ⟨_, hitem, rfl⟩
      exact writable_edge hmem
  have hnodup : ((items.filterMap Sum.getLeft?).map (·.id)).Nodup := by
    rw [hnodes]
    exact nodup_ids text
  rw [read_lines hwritable hnodup hjoined, hnodes, hedges]

theorem read_written_quoted : ∃ text again : String,
    (read text).nodes = [⟨"a", .task, "Go", some "x]y"⟩, ⟨"b", .endEvent, "Done", none⟩] ∧
    (read text).edges = [⟨"a", "b", "yes"⟩] ∧ (read text).diagnostics ≠ [] ∧
    again = "a -->|yes| b\r\ntask a \"Go\" actor=\"x]y\"\r\nendEvent b \"Done\"" ∧
    read again = ⟨(read text).nodes, (read text).edges, []⟩ := by
  have hjoined : Joined ([.inr ⟨"a", "b", "yes"⟩, .inl ⟨"a", .task, "Go", some "x]y"⟩,
      .inl ⟨"b", .endEvent, "Done", none⟩].map line)
      "a -->|yes| b\r\ntask a \"Go\" actor=\"x]y\"\r\nendEvent b \"Done\"".toList := by
    have hcrlf : ['\r', '\n'] ∈ breaks := by decide
    have htext : "a -->|yes| b\r\ntask a \"Go\" actor=\"x]y\"\r\nendEvent b \"Done\"".toList =
        ['\r', '\n'].intercalate ([.inr ⟨"a", "b", "yes"⟩, .inl ⟨"a", .task, "Go", some "x]y"⟩,
          .inl ⟨"b", .endEvent, "Done", none⟩].map line) := by decide +kernel
    rw [htext]
    exact joined_intercalate hcrlf _
  refine ⟨"graph\n task a\"Go\"actor = \" x]y \"\nendEvent b \"Done\" [actor: Ann]\na->b | yes |",
    _, by decide +kernel, by decide +kernel, by decide +kernel, rfl, ?_⟩
  exact read_written _ _ _ (by decide +kernel) (by decide +kernel) hjoined

end Document

end Write

end FlowDiagram
