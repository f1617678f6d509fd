import FlowDiagram.Proofs.Flow.Written
import FlowDiagram.Proofs.Layout.Diagram

namespace FlowDiagram

/-- Edges are found by their names, for ids have no dash. -/
theorem Run.edgeName_inj {e f : Edge} (he : e.Writable) (hf : f.Writable) :
    edgeName e = edgeName f ↔ e.source = f.source ∧ e.target = f.target := by
  constructor
  · intro h
    have hlist := congrArg String.toList h
    simp only [edgeName, String.toList_append, List.append_assoc] at hlist
    have hstops : ∀ rest, Text.Stops isWordChar ("->".toList ++ rest) := fun rest => Text.stops_cons.mpr rfl
    obtain ⟨hsource, hrest⟩ := Text.run_inj he.source_word (hstops _) hf.source_word (hstops _) hlist
    exact ⟨String.toList_inj.mp hsource, String.toList_inj.mp (List.append_cancel_left hrest)⟩
  · rintro ⟨hsource, htarget⟩
    rw [edgeName, edgeName, hsource, htarget]

namespace Route

/-- The label and the gaps beside it fit on the run. -/
def Fits (label : String) (c : Course Rat) : Prop :=
  (labelWidth label : Rat) + 16 ≤ |c.runEnd - c.runStart.x|

theorem labelMiddle_of_fits {label : String} {c : Course Rat} (h : Fits label c) :
    labelMiddle label c = (c.runStart.x + c.runEnd) / 2 := if_pos h

theorem labelMiddle_of_not_fits {label : String} {c : Course Rat} (h : ¬Fits label c) :
    labelMiddle label c = c.runStart.x + 8 + (labelWidth label : Rat) / 2 := if_neg h

theorem labelMiddle_ne {label label' : String} {c : Course Rat} (h : Fits label c) (h' : ¬Fits label' c) :
    labelMiddle label c ≠ labelMiddle label' c := by
  rw [labelMiddle_of_fits h, labelMiddle_of_not_fits h']
  intro heq
  have hwidth : 0 ≤ (labelWidth label' : Rat) := Nat.cast_nonneg _
  have hshort := not_le.mp h'
  obtain ⟨hright, -⟩ | ⟨-, hleft⟩ := abs_cases (c.runEnd - c.runStart.x) <;> linarith

/-- Two labels stand at one place of a run if they are of one width, or if both fit on it. -/
theorem labelMiddle_inj (label label' : String) (c : Course Rat) :
    labelMiddle label c = labelMiddle label' c ↔
      labelWidth label = labelWidth label' ∨ Fits label c ∧ Fits label' c := by
  by_cases hwidth : labelWidth label = labelWidth label'
  · rw [labelMiddle, labelMiddle, hwidth]
    exact iff_of_true rfl (.inl rfl)
  rw [or_iff_right hwidth]
  by_cases h : Fits label c
  · by_cases h' : Fits label' c
    · exact iff_of_true ((labelMiddle_of_fits h).trans (labelMiddle_of_fits h').symm) ⟨h, h'⟩
    · exact iff_of_false (labelMiddle_ne h h') fun hboth => h' hboth.2
  · refine iff_of_false ?_ fun hboth => h hboth.1
    by_cases h' : Fits label' c
    · exact (labelMiddle_ne h' h).symm
    · rw [labelMiddle_of_not_fits h, labelMiddle_of_not_fits h']
      intro heq
      have hcast : (labelWidth label : Rat) = labelWidth label' := by linarith
      exact hwidth (by exact_mod_cast hcast)

theorem labelWidth_inj {label label' : String} (h : label ≠ "") (h' : label' ≠ "") :
    labelWidth label = labelWidth label' ↔ label.length = label'.length := by
  rw [labelWidth, labelWidth, if_neg h, if_neg h']
  omega

/-- Where the boxes keep the margin, labels of parallel edges are at one place if they are of one length, or if the
run has room for both. -/
theorem anchor_inj {left : Rat} {m n : PlacedNode Rat} (hm : left ≤ m.left) (hn : left ≤ n.left)
    {label label' : String} (h : label ≠ "") (h' : label' ≠ "") :
    anchor left label (course m n) = anchor left label' (course m n) ↔
      label.length = label'.length ∨ Fits label (course m n) ∧ Fits label' (course m n) := by
  obtain ⟨hstart, hend⟩ := run_left hm hn
  rw [anchor_of_left hstart hend, anchor_of_left hstart hend, labelHeight, labelHeight, if_neg h, if_neg h',
    Point.mk.injEq, and_iff_left rfl, labelMiddle_inj, labelWidth_inj h h']

theorem fits_loop (label : String) (n : PlacedNode Rat) :
    Fits label (course n n) ↔ (labelWidth label : Rat) ≤ n.kind.width / 2 + 4 := by
  have hloop : ¬n.bottom < n.top := not_lt.mpr n.top_le_bottom
  have hrun : |n.x - (n.right + 20)| = n.kind.width / 2 + 20 := by
    have hwidth : 0 ≤ (n.kind.width : Rat) := Nat.cast_nonneg _
    rw [n.right_rat, abs_of_neg] <;> linarith
  rw [course_of_not_below hloop, around_rat, max_self]
  change (labelWidth label : Rat) + 16 ≤ |n.x - (n.right + 20)| ↔ _
  rw [hrun]
  constructor <;> intro h <;> linarith

end Route

namespace Trace

variable {α : Type} (t : Trace α)

def value? (stage key : String) : Option (Value α) := (t.stage? stage).bind fun s => s.data.get? key

/-- What a stage holds under a name, in the map under one of its keys. -/
def found? (stage key name : String) : Option (Value α) :=
  match t.value? stage key with
  | some (.map entries) => Table.get? ⟨entries⟩ name
  | _ => none

/-- The trace has the anchor of the edge's label, if there is one, as it was before the move down. -/
def HasLabel (t : Trace Rat) (shift : Rat) (e : RoutedEdge Rat) : Prop :=
  ∀ a, e.anchor = some a → ∃ q, t.found? "routes" "labels" (Run.edgeName e.toEdge) = some (Run.pointValue q) ∧
    Canvas.movePoint shift q = a

end Trace

structure RoutedEdge.Labelled (e : RoutedEdge Rat) (m n : PlacedNode Rat) : Prop where
  source : m.id = e.source
  target : n.id = e.target
  label : e.label ≠ ""

/-- The anchor of the last labelled edge from one node to another. -/
def Diagram.lastAnchor? {α : Type} (d : Diagram α) (source target : String) : Option (Point α) :=
  ((d.edges.filter fun e => e.source = source ∧ e.target = target).filterMap RoutedEdge.anchor).getLast?

/-- The trace has the layout of a diagram as it was before the move down, and the move: the center of every node, the
path of every edge, and of the labels the last for each pair of ends. -/
structure Trace.Keeps (t : Trace Rat) (shift : Rat) (d : Diagram Rat) : Prop where
  move : t.value? "canvas" "shift" = some (.real shift)
  centers : ∀ n ∈ d.nodes, ∃ q, t.found? "positions" "positions" n.id = some (Run.pointValue q) ∧
    Canvas.movePoint shift q = ⟨n.x, n.y⟩
  paths : ∀ e ∈ d.edges, ∃ path : List (Point Rat), t.found? "routes" "paths" (Run.edgeName e.toEdge) =
    some (.tuple (path.map Run.pointValue)) ∧ path.map (Canvas.movePoint shift) = e.path
  labels : ∀ e ∈ d.edges, ∃ last : Option (Point Rat), t.found? "routes" "labels" (Run.edgeName e.toEdge) =
    last.map Run.pointValue ∧ last.map (Canvas.movePoint shift) = d.lastAnchor? e.source e.target

/-- Any two parallel edges have labels of one length, or labels that both fit on the run of their path. -/
def Diagram.LabelsAgree (d : Diagram Rat) : Prop :=
  ∀ m ∈ d.nodes, ∀ n ∈ d.nodes, ∀ e ∈ d.edges, ∀ f ∈ d.edges, e.Labelled m n → f.Labelled m n →
    e.label.length = f.label.length ∨
      Route.Fits e.label (Route.course m n) ∧ Route.Fits f.label (Route.course m n)

namespace Run

variable {α : Type} (text : String) (doc : Document) (p : Plan α) (shift : α) (d : Diagram α) (name : String)

theorem entry_positions : ((framed doc p shift d).trace text).found? "positions" "positions" name =
    (p.positions.get? name).map pointValue := Table.get?_map_value pointValue p.positions name

theorem entry_paths : ((framed doc p shift d).trace text).found? "routes" "paths" name =
    ((p.edges.filter fun e => edgeName e.toEdge = name).map fun e => Value.tuple (e.path.map pointValue)).getLast? := by
  have hstage : ((framed doc p shift d).trace text).stage? "routes" = some (routesStage p.edges) := rfl
  rw [Trace.found?, Trace.value?, hstage]
  exact Table.get?_ofList_map_last (fun e => edgeName e.toEdge) _ p.edges name

theorem entry_labels : ((framed doc p shift d).trace text).found? "routes" "labels" name =
    ((p.edges.filter fun e => edgeName e.toEdge = name).filterMap RoutedEdge.anchor).getLast?.map pointValue := by
  have hstage : ((framed doc p shift d).trace text).stage? "routes" = some (routesStage p.edges) := rfl
  have hentries : (p.edges.filterMap fun e => e.anchor.map fun q => (edgeName e.toEdge, pointValue q)) =
      (p.edges.filterMap fun e => e.anchor.map fun q => (edgeName e.toEdge, q)).map
        fun entry => (entry.1, pointValue entry.2) := by
    rw [List.map_filterMap]
    simp only [Option.map_map, Function.comp_def]
  rw [Trace.found?, Trace.value?, hstage,
    ← Table.get?_ofList_filterMap_last (fun e => edgeName e.toEdge) RoutedEdge.anchor, ← Table.get?_ofList_map,
    ← hentries]
  rfl

end Run

namespace Settings

variable {c : Config Rat} {s : Settings Rat} {text : String} {p : Plan Rat} {shift : Rat} {d : Diagram Rat}

theorem Planned.filter_edgeName (h : s.Planned (Document.read text) p) {e : RoutedEdge Rat} (he : e ∈ p.edges) :
    (p.edges.filter fun f => Run.edgeName f.toEdge = Run.edgeName e.toEdge) =
      p.edges.filter fun f => f.source = e.source ∧ f.target = e.target := by
  have hwritable : ∀ f ∈ p.edges, f.toEdge.Writable := by
    intro f hf
    have hmem : f.toEdge ∈ p.edges.map (·.toEdge) := List.mem_map_of_mem hf
    rw [h.edges, Route.toEdge_all] at hmem
    exact Document.writable_edge hmem
  refine List.filter_congr fun f hf => ?_
  rw [decide_eq_decide, Run.edgeName_inj (hwritable f hf) (hwritable e he)]

theorem Planned.path_congr {doc : Document} (h : s.Planned doc p) {e f : RoutedEdge Rat} (he : e ∈ p.edges)
    (hf : f ∈ p.edges) (hends : e.source = f.source ∧ e.target = f.target) : e.path = f.path := by
  rw [h.edges] at he hf
  obtain ⟨e, -, rfl⟩ := List.mem_map.mp he
  obtain ⟨f, -, rfl⟩ := List.mem_map.mp hf
  rw [Route.toEdge_edge, Route.toEdge_edge] at hends
  rw [Route.edge, Route.edge, hends.1, hends.2]
  split <;> rfl

theorem Framed.lastAnchor? (h : s.Framed p shift d) (source target : String) : d.lastAnchor? source target =
    ((p.edges.filter fun e => e.source = source ∧ e.target = target).filterMap
      RoutedEdge.anchor).getLast?.map (Canvas.movePoint shift) := by
  rw [Diagram.lastAnchor?, h.edges, List.filter_map, List.filterMap_map, ← List.getLast?_map, List.map_filterMap]
  rfl

section Plan

variable (h : s.Planned (Document.read text) p) (hframed : s.Framed p shift d)
include h hframed

theorem entry_positions_framed {n : PlacedNode Rat} (hn : n ∈ d.nodes) : ∃ q,
    ((Run.framed (Document.read text) p shift d).trace text).found? "positions" "positions" n.id =
      some (Run.pointValue q) ∧ Canvas.movePoint shift q = ⟨n.x, n.y⟩ := by
  rw [hframed.nodes] at hn
  obtain ⟨m, hm, rfl⟩ := List.mem_map.mp hn
  refine ⟨⟨m.x, m.y⟩, ?_, rfl⟩
  rw [Run.entry_positions]
  exact congrArg (Option.map Run.pointValue) (h.place m hm)

theorem entry_paths_framed {e : RoutedEdge Rat} (he : e ∈ d.edges) : ∃ path : List (Point Rat),
    ((Run.framed (Document.read text) p shift d).trace text).found? "routes" "paths" (Run.edgeName e.toEdge) =
      some (.tuple (path.map Run.pointValue)) ∧ path.map (Canvas.movePoint shift) = e.path := by
  rw [hframed.edges] at he
  obtain ⟨f, hf, rfl⟩ := List.mem_map.mp he
  refine ⟨f.path, ?_, rfl⟩
  change Trace.found? _ "routes" "paths" (Run.edgeName f.toEdge) = _
  rw [Run.entry_paths, h.filter_edgeName hf, List.getLast?_map]
  have hmem : f ∈ p.edges.filter fun g => g.source = f.source ∧ g.target = f.target :=
    List.mem_filter.mpr ⟨hf, decide_eq_true ⟨rfl, rfl⟩⟩
  obtain ⟨g, hg⟩ := Option.isSome_iff_exists.mp (List.getLast?_isSome.mpr (List.ne_nil_of_mem hmem))
  obtain ⟨hgmem, hends⟩ := List.mem_filter.mp (List.mem_of_getLast? hg)
  rw [hg, Option.map_some, h.path_congr hgmem hf (of_decide_eq_true hends)]

theorem entry_labels_framed {e : RoutedEdge Rat} (he : e ∈ d.edges) : ∃ last : Option (Point Rat),
    ((Run.framed (Document.read text) p shift d).trace text).found? "routes" "labels" (Run.edgeName e.toEdge) =
      last.map Run.pointValue ∧ last.map (Canvas.movePoint shift) = d.lastAnchor? e.source e.target := by
  refine ⟨_, Run.entry_labels .., ?_⟩
  rw [hframed.lastAnchor?]
  rw [hframed.edges] at he
  obtain ⟨f, hf, rfl⟩ := List.mem_map.mp he
  change Option.map _
    ((p.edges.filter fun g => Run.edgeName g.toEdge = Run.edgeName f.toEdge).filterMap _).getLast? = _
  rw [h.filter_edgeName hf]
  rfl

/-- The trace has the label of an edge if none of its parallels has a later one elsewhere. -/
theorem hasLabel_iff {e : RoutedEdge Rat} (he : e ∈ d.edges) :
    ((Run.framed (Document.read text) p shift d).trace text).HasLabel shift e ↔
      ∀ a, e.anchor = some a → d.lastAnchor? e.source e.target = some a := by
  obtain ⟨last, hentry, hlast⟩ := entry_labels_framed h hframed he
  refine forall₂_congr fun a _ => ?_
  rw [hentry, ← hlast, Option.map_eq_some_iff]
  refine exists_congr fun q => and_congr_left fun _ => ?_
  cases last with
  | none => simp
  | some q' =>
    obtain ⟨x, y⟩ := q
    obtain ⟨x', y'⟩ := q'
    simp [Run.pointValue]

end Plan

section Parallel

variable {e : RoutedEdge Rat} (h : Drawn c (Document.read text) shift d) (he : e ∈ d.edges)
include h he

theorem Drawn.anchor_labelled {m n : PlacedNode Rat} (hm : m ∈ d.nodes) (hn : n ∈ d.nodes) (hlabel : e.Labelled m n) :
    e.anchor = some (Route.anchor c.leftMargin.exact e.label (Route.course m n)) := by
  rw [h.edges] at he
  obtain ⟨-, hbetween⟩ := Route.mem_all h.nodup_ids he hm hn hlabel.source hlabel.target
  rw [hbetween]
  exact if_neg hlabel.label

theorem Drawn.labelled_of_anchor {a : Point Rat} (ha : e.anchor = some a) :
    ∃ m ∈ d.nodes, ∃ n ∈ d.nodes, e.Labelled m n := by
  rw [h.edges] at he
  obtain ⟨m, hm, n, hn, hsource, htarget, hbetween⟩ | ⟨-, hbare⟩ := Route.between_or_bare h.nodup_ids he
  · refine ⟨m, hm, n, hn, hsource, htarget, ?_⟩
    intro hempty
    have hnone : e.anchor = none := (congrArg RoutedEdge.anchor hbetween).trans (if_pos hempty)
    rw [ha] at hnone
    cases hnone
  · rw [ha] at hbare
    cases hbare

end Parallel

theorem Drawn.lastAnchor?_iff (h : Drawn c (Document.read text) shift d) :
    (∀ e ∈ d.edges, ∀ a, e.anchor = some a → d.lastAnchor? e.source e.target = some a) ↔ d.LabelsAgree := by
  constructor
  · intro hall m hm n hn e he f hf hel hfl
    have hanchor := hall e he _ (h.anchor_labelled he hm hn hel)
    have hanchor' := hall f hf _ (h.anchor_labelled hf hm hn hfl)
    rw [← hel.source, ← hel.target] at hanchor
    rw [← hfl.source, ← hfl.target, hanchor] at hanchor'
    exact (Route.anchor_inj (h.arranged.left m hm) (h.arranged.left n hn) hel.label hfl.label).mp
      (Option.some.inj hanchor')
  · intro hall e he a ha
    obtain ⟨m, hm, n, hn, hel⟩ := h.labelled_of_anchor he ha
    have hmem : a ∈ (d.edges.filter fun f => f.source = e.source ∧ f.target = e.target).filterMap RoutedEdge.anchor :=
      List.mem_filterMap.mpr ⟨e, List.mem_filter.mpr ⟨he, decide_eq_true ⟨rfl, rfl⟩⟩, ha⟩
    obtain ⟨b, hb⟩ := Option.isSome_iff_exists.mp (List.getLast?_isSome.mpr (List.ne_nil_of_mem hmem))
    obtain ⟨f, hf, hfb⟩ := List.mem_filterMap.mp (List.mem_of_getLast? hb)
    obtain ⟨hf, hends⟩ := List.mem_filter.mp hf
    obtain ⟨hsource, htarget⟩ := of_decide_eq_true hends
    have hfl : f.Labelled m n := by
      obtain ⟨m', hm', n', hn', hfl⟩ := h.labelled_of_anchor hf hfb
      exact ⟨hel.source.trans hsource.symm, hel.target.trans htarget.symm, hfl.label⟩
    have hsame := (Route.anchor_inj (h.arranged.left m hm) (h.arranged.left n hn) hel.label hfl.label).mpr
      (hall m hm n hn e he f hf hel hfl)
    have hanchor := h.anchor_labelled he hm hn hel
    have hanchor' := h.anchor_labelled hf hm hn hfl
    rw [Diagram.lastAnchor?, hb, ← hfb, ← ha, hanchor, hanchor']
    exact congrArg some hsame.symm

def parallel : String := "task a \"A\"\na -> a |once|\na -> a |many times|"

theorem read_parallel : Document.read parallel =
    ⟨[⟨"a", .task, "A", none⟩], [⟨"a", "a", "once"⟩, ⟨"a", "a", "many times"⟩], []⟩ := rfl

/-- The trace of a text with a node has the layout as it was before the move down, and the move: moved by it, the
place of every node is its center, and the path of every edge is its path. Of the labels it has the last for each pair
of ends. So it has the labels of all edges exactly if any two parallel edges have labels of one length, or labels that
both fit on the run of their path. -/
theorem run_traces (h : ofConfig c = .ok s) (text : String) (hne : (Document.read text).nodes ≠ []) :
    ∃ r d shift, (s.run text).result = .ok r ∧ r.picture.diagram? = some d ∧
      d.nodes.map (·.toNode) = (Document.read text).nodes ∧ d.edges.map (·.toEdge) = (Document.read text).edges ∧
      ((s.run text).trace text).Keeps shift d ∧
      ((∀ e ∈ d.edges, ((s.run text).trace text).HasLabel shift e) ↔ d.LabelsAgree) := by
  obtain ⟨p, shift, d, hrun, hplanned, hframed⟩ := run_planned s hne
  have hdrawn := hplanned.drawn h hne hframed
  refine ⟨_, d, shift, congrArg Run.result hrun, rfl, hdrawn.arranged.declared, hdrawn.declared, ?_⟩
  rw [hrun]
  constructor
  · exact ⟨rfl, fun n hn => entry_positions_framed hplanned hframed hn,
      fun e he => entry_paths_framed hplanned hframed he, fun e he => entry_labels_framed hplanned hframed he⟩
  · rw [← hdrawn.lastAnchor?_iff]
    exact forall₂_congr fun e he => hasLabel_iff hplanned hframed he

theorem parallel_nodes_ne_nil : (Document.read parallel).nodes ≠ [] := by
  rw [read_parallel]
  exact List.cons_ne_nil _ _

theorem run_traces_parallel :
    let s : Settings Rat := ⟨⟨150, 120, 100, 60, 20⟩, .int 20, .int 40⟩
    let edges : List Edge := [⟨"a", "a", "once"⟩, ⟨"a", "a", "many times"⟩]
    ofConfig {} = .ok s ∧ ∃ r d shift, (s.run parallel).result = .ok r ∧ r.picture.diagram? = some d ∧
      d.nodes.map (·.toNode) = [⟨"a", .task, "A", none⟩] ∧ d.edges.map (·.toEdge) = edges ∧
      ((s.run parallel).trace parallel).Keeps shift d ∧
      ((∀ e ∈ d.edges, ((s.run parallel).trace parallel).HasLabel shift e) ↔ d.LabelsAgree) := by
  intro s edges
  obtain ⟨r, d, shift, hr, hd, hnodes, hedges, htrace⟩ := run_traces ofConfig_default parallel parallel_nodes_ne_nil
  rw [read_parallel] at hnodes hedges
  exact ⟨ofConfig_default, r, d, shift, hr, hd, hnodes, hedges, htrace⟩

/-- Of two labelled loops the trace has one label, and that is not the label of the first. -/
theorem parallel_label_lost :
    let s : Settings Rat := ⟨⟨150, 120, 100, 60, 20⟩, .int 20, .int 40⟩
    ofConfig {} = .ok s ∧ ∃ r d shift, (s.run parallel).result = .ok r ∧ r.picture.diagram? = some d ∧
      ((s.run parallel).trace parallel).value? "canvas" "shift" = some (.real shift) ∧
      ∃ e ∈ d.edges, e.toEdge = ⟨"a", "a", "once"⟩ ∧ e.anchor ≠ none ∧
        ¬((s.run parallel).trace parallel).HasLabel shift e := by
  intro s
  obtain ⟨p, shift, d, hrun, hplanned, hframed⟩ := run_planned s parallel_nodes_ne_nil
  have hdrawn := hplanned.drawn ofConfig_default parallel_nodes_ne_nil hframed
  have hnodes := hdrawn.arranged.declared
  have hedges := hdrawn.declared
  rw [read_parallel] at hnodes hedges
  obtain ⟨n, hn, hnode⟩ := List.map_eq_singleton_iff.mp hnodes
  obtain ⟨e, rest, he, hfirst, hrest⟩ := List.map_eq_cons_iff.mp hedges
  obtain ⟨f, hf, hsecond⟩ := List.map_eq_singleton_iff.mp hrest
  subst hf
  have hmem : n ∈ d.nodes := hn ▸ List.mem_singleton_self n
  have hemem : e ∈ d.edges := he ▸ List.mem_cons_self
  have hfmem : f ∈ d.edges := he ▸ List.mem_cons_of_mem e (List.mem_singleton_self f)
  have hel : e.Labelled n n := ⟨by rw [hnode, hfirst], by rw [hnode, hfirst], by rw [hfirst]; decide⟩
  have hfl : f.Labelled n n := ⟨by rw [hnode, hsecond], by rw [hnode, hsecond], by rw [hsecond]; decide⟩
  have hanchor := hdrawn.anchor_labelled hemem hmem hmem hel
  have hanchor' := hdrawn.anchor_labelled hfmem hmem hmem hfl
  have hlast : d.lastAnchor? e.source e.target = f.anchor := by
    rw [Diagram.lastAnchor?, he]
    simp [hfirst, hsecond, hanchor, hanchor']
  have hwide : Route.labelWidth f.label = 78 := by
    rw [hsecond]
    rfl
  refine ⟨ofConfig_default, _, d, shift, congrArg Run.result hrun, rfl, ?_, e, hemem, hfirst, ?_, ?_⟩
  · rw [hrun]
    rfl
  · rw [hanchor]
    exact Option.some_ne_none _
  · rw [hrun, hasLabel_iff hplanned hframed hemem, hlast, hanchor, hanchor']
    intro hall
    have hleft := hdrawn.arranged.left n hmem
    obtain hlength | ⟨-, hfits⟩ :=
      (Route.anchor_inj hleft hleft hel.label hfl.label).mp (Option.some.inj (hall _ rfl)).symm
    · rw [hfirst, hsecond] at hlength
      revert hlength
      decide
    · rw [Route.fits_loop, hwide, hnode] at hfits
      norm_num [Kind.width] at hfits

end Settings

end FlowDiagram
