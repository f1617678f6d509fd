import FlowDiagram.Proofs.Flow.Declaration
import FlowDiagram.Proofs.Flow.Message
import FlowDiagram.Proofs.Graph.Growth
import FlowDiagram.Proofs.Layout.Total
import FlowDiagram.Session.Basic

namespace FlowDiagram

/-- The start node of a flow with a given first node. -/
def Document.start (doc : Document) (first : Node) : Node :=
  (doc.nodes.find? fun n => n.kind = .startEvent).getD first

/-- The warnings about a flow with a given first node: there are no edges, an edge has an end that is
not declared, there is no start event, or a node cannot be reached. -/
def Document.flowWarnings (doc : Document) (first : Node) (unreached : List String) (trailing : Nat) :
    List Diagnostic :=
  (if doc.edges = [] then [.noEdges] else []) ++
    ((doc.edges.filter fun e => e.unknownEnds (doc.nodes.map (·.id)) ≠ []).map fun e =>
      .unknownEnd e.source e.target (e.unknownEnds (doc.nodes.map (·.id)))) ++
    (if doc.nodes.any (·.kind = .startEvent) then [] else [.noStart first.id]) ++
    unreached.map fun id => .unreachable id (doc.start first).id trailing

/-- The ids that no path from the start leads to, in the order of their code points, and the level that
their nodes share. -/
structure Document.Unreached {α : Type} (doc : Document) (first : Node) (nodes : List (PlacedNode α))
    (unreached : List String) (trailing : Nat) : Prop where
  sorted : unreached.Pairwise (· < ·)
  mem_iff : ∀ id, id ∈ unreached ↔ id ∈ doc.nodes.map (·.id) ∧
    ¬∃ k, Path (Linked (doc.nodes.map (·.id)) doc.edges) (doc.start first).id k id
  level : ∀ n ∈ nodes, n.id ∈ unreached → n.level = trailing

section Start

variable {doc : Document} {first start : Node} {rest : List Node}

theorem start_of_startNode (hnodes : doc.nodes = first :: rest) (h : startNode doc.nodes = .ok start) :
    start = doc.start first := by
  rw [Document.start]
  rw [hnodes] at h ⊢
  exact (Except.ok.inj h).symm

theorem noStart_start (hnodes : doc.nodes = first :: rest) :
    (if (doc.start first).kind = .startEvent then [] else [Diagnostic.noStart (doc.start first).id]) =
      if doc.nodes.any (·.kind = .startEvent) then [] else [.noStart first.id] := by
  cases hfind : doc.nodes.find? fun n => n.kind = .startEvent with
  | some n =>
    have hkind : n.kind = .startEvent := by simpa using List.find?_some hfind
    have hany : doc.nodes.any (·.kind = .startEvent) = true :=
      List.any_eq_true.mpr ⟨n, List.mem_of_find?_eq_some hfind, decide_eq_true hkind⟩
    rw [Document.start, hfind, Option.getD_some, if_pos hkind, if_pos hany]
  | none =>
    have hnone := List.find?_eq_none.mp hfind
    have hfirst : first.kind ≠ .startEvent := by simpa using hnone first (by simp [hnodes])
    have hany : ¬doc.nodes.any (·.kind = .startEvent) = true := by
      rw [List.any_eq_true]
      rintro ⟨n, hn, hkind⟩
      exact hnone n hn hkind
    rw [Document.start, hfind, Option.getD_none, if_neg hfirst, if_neg hany]

end Start

theorem Ranking.length_of_trail {r r' : Ranking} {ids : List String} (hne : ids ≠ [])
    (h : r.trail ids = r'.trail ids) : r.layers.length = r'.layers.length := by
  have hlayers := congrArg (fun t : Ranking => t.layers.length) h
  simpa [Ranking.layers_trail _ hne] using hlayers

namespace Settings

variable {α : Type} [Scalar α] {s : Settings α} {doc : Document} {p : Plan α} {first : Node}
  {rest : List Node}

theorem Planned.level_diagnostics (h : s.Planned doc p) (hnodes : doc.nodes = first :: rest)
    (hn : (doc.nodes.map (·.id)).Nodup) : ∃ trailing,
      p.levels.diagnostics = (if doc.nodes.any (·.kind = .startEvent) then [] else [.noStart first.id]) ++
        p.levels.unreached.map (fun id => .unreachable id (doc.start first).id trailing) ∧
      doc.Unreached first p.nodes p.levels.unreached trailing := by
  have hne : doc.nodes ≠ [] := hnodes ▸ List.cons_ne_nil first rest
  obtain ⟨reached', hsound⟩ := h.sound hne hn
  obtain ⟨start, arcs, reached, hstart, -, -, hid, htrail, hdiagnostics⟩ := Levels.assign_eq_ok h.levels
  obtain rfl := start_of_startNode hnodes hstart
  refine ⟨reached.layers.length, ?_, hsound.sorted, ?_, ?_⟩
  · rw [hdiagnostics, noStart_start hnodes]
  · intro id
    rw [hsound.mem_unreached, hsound.mem_flatten_iff, hid, h.graph, Graph.joins_build]
  · intro n hm hu
    obtain ⟨k, hk, hlevel⟩ := h.level n hm
    have hlast := hsound.level_of_unreached hu
    have hsame : reached.layers.length = reached'.layers.length :=
      Ranking.length_of_trail (List.ne_nil_of_mem hu) (htrail.symm.trans hsound.ranking)
    rw [hlevel, hsame, Option.some.inj (hk.symm.trans hlast)]

theorem Planned.diagnostics_eq (h : s.Planned doc p) (hnodes : doc.nodes = first :: rest)
    (hn : (doc.nodes.map (·.id)).Nodup) : ∃ trailing,
      Run.diagnostics doc p = doc.diagnostics ++ doc.flowWarnings first p.levels.unreached trailing ∧
      doc.Unreached first p.nodes p.levels.unreached trailing := by
  obtain ⟨trailing, hlevels, hrest⟩ := h.level_diagnostics hnodes hn
  refine ⟨trailing, ?_, hrest⟩
  rw [Run.diagnostics, hlevels, Graph.diagnostics, Document.flowWarnings]
  simp only [Edge.missing_eq_unknownEnds, List.append_assoc]

theorem Shifted.unreached {shift : α} {d : Diagram α} (h : Shifted shift p d) {unreached : List String}
    {trailing : Nat} (hu : doc.Unreached first p.nodes unreached trailing) :
    doc.Unreached first d.nodes unreached trailing where
  sorted := hu.sorted
  mem_iff := hu.mem_iff
  level n hn hid := by
    obtain ⟨hnodes, -⟩ | ⟨hnodes, -⟩ := h
    · exact hu.level n (hnodes ▸ hn) hid
    · rw [hnodes] at hn
      obtain ⟨m, hm, rfl⟩ := List.mem_map.mp hn
      exact hu.level m hm hid

end Settings

/-- The messages of the log that are warnings. -/
def Record.warnings (records : List (Record Float)) : List String :=
  (records.filter (·.severity = .warning)).map message

theorem Record.warnings_diagnostics (ds : List Diagnostic) :
    warnings (ds.map .warning) = ds.map Diagnostic.message := by
  rw [warnings, List.filter_eq_self.mpr (by simp [severity]), List.map_map]
  rfl

theorem Record.warnings_append (rs rs' : List (Record Float)) :
    warnings (rs ++ rs') = warnings rs ++ warnings rs' := by
  rw [warnings, List.filter_append, List.map_append]
  rfl

theorem Session.generate_debug {session : Session} {text : String} {r : Result Float}
    (h : (session.settings.run text).result = .ok r) : (session.generate text true).2 = .ok r ∧
      (session.generate text true).1.trace = some ((session.settings.run text).trace text) := by
  simp [generate, h]

namespace Settings

/-- The warnings of a run are those about the lines of its text, one after the other, and those about
its flow; the nodes that cannot be reached are warned about in the order of their ids. Each message names
its line, the ids, and the actor or label that it is about. The warnings in the log are the same, with
the message of a text without nodes behind them, and so are those in the trace. -/
theorem run_reports {c : Config Float} {s : Settings Float} (h : ofConfig c = .ok s)
    (hm : c.canvasMargin.InRange) (text : String) : ∃ r records,
      (s.run text).result = .ok r ∧ (s.run text).log = .ok records ∧
      Record.warnings records = r.diagnostics.map Diagnostic.message ++
        (if (Document.read text).nodes = [] then [noNodesMessage] else []) ∧
      (∀ d ∈ r.diagnostics, Text.Names d.parts d.message) ∧
      (∀ session : Session, session.settings = s → ∃ t, (session.generate text true).2 = .ok r ∧
        (session.generate text true).1.trace = some t ∧
        t.diagnostics = r.diagnostics.map Diagnostic.message) ∧
      ((Document.read text).nodes = [] →
        r.diagnostics = Document.warnings (Document.content text.toList)) ∧
      ∀ first rest, (Document.read text).nodes = first :: rest → ∃ d unreached trailing,
        r.picture = .diagram d ∧ (Document.read text).Unreached first d.nodes unreached trailing ∧
        r.diagnostics = Document.warnings (Document.content text.toList) ++
          (Document.read text).flowWarnings first unreached trailing := by
  have hread := Document.diagnostics_content text
  have htrace {r : Result Float} (hr : (s.run text).result = .ok r)
      (ht : ((s.run text).trace text).diagnostics = r.diagnostics.map Diagnostic.message) :
      ∀ session : Session, session.settings = s → ∃ t, (session.generate text true).2 = .ok r ∧
        (session.generate text true).1.trace = some t ∧
        t.diagnostics = r.diagnostics.map Diagnostic.message := by
    rintro session rfl
    obtain ⟨hresult, hkept⟩ := Session.generate_debug hr
    exact ⟨_, hresult, hkept, ht⟩
  by_cases hne : (Document.read text).nodes = []
  · have hrun : s.run text = .empty (Document.read text) := if_pos hne
    rw [hrun] at htrace ⊢
    refine ⟨_, _, rfl, rfl, ?_, fun d _ => d.names_message, htrace rfl rfl, fun _ => hread, ?_⟩
    · rw [Record.warnings_append, Record.warnings_diagnostics, if_pos hne]
      rfl
    · intro first rest hnodes
      rw [hne] at hnodes
      cases hnodes
  · obtain ⟨p, shift, d, hrun, hplanned, hshifted⟩ := run_shifted h hm hne
    rw [hrun] at htrace ⊢
    refine ⟨_, _, rfl, rfl, ?_, fun d _ => d.names_message, htrace rfl rfl, fun hnil => absurd hnil hne, ?_⟩
    · have hshift : Record.warnings
          (if Scalar.eq shift ((0 : Nat) : Float) then [] else [.shifted shift]) = [] := by
        split <;> rfl
      rw [Record.warnings_append, Record.warnings_append, Record.warnings_diagnostics, if_neg hne, hshift]
      rfl
    · intro first rest hnodes
      obtain ⟨trailing, hdiagnostics, hunreached⟩ := hplanned.diagnostics_eq hnodes (Document.nodup_ids text)
      refine ⟨d, _, trailing, rfl, hshifted.unreached hunreached, ?_⟩
      rw [← hread]
      exact hdiagnostics

theorem result_eq {β : Type} (f : Result Float → β) {c : Config Float} {s : Settings Float} {text : String}
    {r : Result Float} {b : β} (hs : ofConfig c = .ok s) (hr : (s.run text).result = .ok r)
    (h : ((ofConfig c).toOption.bind fun s => (s.run text).result.toOption.map f) = some b) : f r = b := by
  rw [hs] at h
  change (s.run text).result.toOption.map f = some b at h
  rw [hr] at h
  exact Option.some.inj h

def flawed : String := "flow\nendEvent a \"A\" [actor: Bo]\n\ntask a \"B\"\ntask z \"Z\"\na ->|x| b |y|\n?"

/-- An actor, a label and a line too much, an end that is missing, no start, and a node that cannot be
reached; then a text without edges, and one without nodes. -/
theorem run_reports_each :
    ∃ s : Settings Float, ofConfig ({ canvasMargin := .real 40 } : Config Float) = .ok s ∧
      (∃ r t, (s.run flawed).result = .ok r ∧
        r.diagnostics.map Diagnostic.message = [
          "Line 2: Actor 'Bo' ignored on endEvent 'a' (only tasks have actors)",
          "Line 4: Duplicate node id 'a' replaces the declaration on line 2",
          "Line 6: Edge has two labels, keeping 'x'", "Line 7: Unrecognized statement skipped: ?",
          "Edge a --> b references unknown node 'b'; excluded from layout",
          "No startEvent found; starting layout from first node 'a'",
          "Node 'z' is not reachable from 'a'; placed on trailing level 1"] ∧
        (r.picture.diagram?.map fun d => d.nodes.map fun n => (n.id, n.level)) = some [("a", 0), ("z", 1)] ∧
        (Session.generate { settings := s } flawed true).1.trace = some t ∧
        t.diagnostics = r.diagnostics.map Diagnostic.message) ∧
      (∃ r, (s.run "task a \"A\"").result = .ok r ∧ r.diagnostics.map Diagnostic.message = [
        "No edges found; rendering nodes only.", "No startEvent found; starting layout from first node 'a'"]) ∧
      ∃ records, (s.run "flow\n?").log = .ok records ∧ Record.warnings records = [
        "Line 2: Unrecognized statement skipped: ?", "No nodes found in DSL"] := by
  obtain ⟨s, hs⟩ : ∃ s, ofConfig ({ canvasMargin := .real 40 } : Config Float) = .ok s :=
    exists_ok (by decide +kernel)
  have hreports := run_reports hs (Quantity.inRange_real _)
  let messages (r : Result Float) := r.diagnostics.map Diagnostic.message
  refine ⟨s, hs, ?_, ?_, ?_⟩
  · obtain ⟨r, records, hr, -, -, -, htrace, -, -⟩ := hreports flawed
    obtain ⟨t, -, ht, hkept⟩ := htrace { settings := s } rfl
    refine ⟨r, t, hr, ?_, ?_, ht, hkept⟩
    · exact result_eq messages hs hr (by decide +kernel)
    · let levels (d : Diagram Float) := d.nodes.map fun n => (n.id, n.level)
      exact result_eq (fun r => r.picture.diagram?.map levels) hs hr (by decide +kernel)
  · obtain ⟨r, records, hr, -⟩ := hreports "task a \"A\""
    exact ⟨r, hr, result_eq messages hs hr (by decide +kernel)⟩
  · obtain ⟨r, records, hr, hlog, hwarnings, -⟩ := hreports "flow\n?"
    have hread : (Document.read "flow\n?").nodes = [] := by decide +kernel
    have hmessages : r.diagnostics.map Diagnostic.message = ["Line 2: Unrecognized statement skipped: ?"] :=
      result_eq messages hs hr (by decide +kernel)
    refine ⟨records, hlog, ?_⟩
    rw [hwarnings, hmessages, if_pos hread]
    rfl

end Settings

end FlowDiagram
