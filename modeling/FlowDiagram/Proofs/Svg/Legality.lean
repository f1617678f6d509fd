import FlowDiagram.Proofs.Flow.Excerpt
import FlowDiagram.Proofs.Svg.Characters
import FlowDiagram.Proofs.Svg.Rendering

namespace FlowDiagram

theorem Diagram.mem_content {α : Type} [Scalar α] {d : Diagram α} {x : Char} (h : x ∈ (Picture.diagram d).content) :
    (∃ e ∈ d.edges, x ∈ e.label.toList) ∨ ∃ n ∈ d.nodes, ∃ part ∈ n.texts, x ∈ part.toList := by
  obtain ⟨item, hitem, hx⟩ := List.mem_flatMap.mp h
  obtain hedge | hnode := List.mem_append.mp hitem
  · obtain ⟨e, he, hitem⟩ := List.mem_flatMap.mp hedge
    obtain rfl | ⟨p, -, rfl⟩ := RoutedEdge.item_cases hitem
    · cases hx
    · exact .inl ⟨e, he, hx⟩
  · obtain ⟨n, hn, rfl⟩ := List.mem_map.mp hnode
    refine .inr ⟨n, hn, ?_⟩
    obtain hlabel | hactor := List.mem_append.mp hx
    · exact ⟨n.label, List.mem_cons_self, hlabel⟩
    · obtain ⟨name, hname, hx⟩ := List.mem_flatMap.mp hactor
      refine ⟨name, List.mem_cons_of_mem _ (Option.mem_toList.mpr ?_), hx⟩
      rw [PlacedNode.shownActor?] at hname
      split at hname
      · exact (Option.filter_eq_some_iff.mp (Option.mem_toList.mp hname)).1
      · cases hname

theorem Diagram.mem_content_of_label {α : Type} [Scalar α] {d : Diagram α} {n : PlacedNode α} (hn : n ∈ d.nodes)
    {x : Char} (hx : x ∈ n.label.toList) : x ∈ (Picture.diagram d).content :=
  List.mem_flatMap.mpr ⟨n.item, List.mem_append_right _ (List.mem_map_of_mem hn), List.mem_append_left _ hx⟩

namespace Settings

variable {c : Config Float} {s : Settings Float}

/-- Of what a picture shows the illegal characters are from the text, and the drawing has no others. -/
theorem run_content (h : ofConfig c = .ok s) (hm : c.canvasMargin.InRange) {style : Svg.Style} (hstyle : style.Legal)
    (text : String) : ∃ r, (s.run text).result = .ok r ∧
      (∀ x, Svg.isLegal x = false → x ∈ r.picture.content → x ∈ text.toList ∧ Text.isBreak x = false) ∧
      ∀ drawing, Svg.render style r.picture = .ok drawing →
        ∀ x, Svg.isLegal x = false → (x ∈ drawing.toList ↔ x ∈ r.picture.content) := by
  by_cases hne : (Document.read text).nodes = []
  · have hrun : s.run text = .empty (Document.read text) := if_pos hne
    have hmessage : Svg.Legal noNodesMessage := rfl
    refine ⟨_, congrArg Run.result hrun, ?_, ?_⟩
    · intro x hx hmem
      exact absurd hmem (Svg.not_mem_of_isLegal hx (Svg.legal_iff.mp hmessage))
    · intro drawing hdrawing x hx
      refine Svg.mem_render hstyle (fun d hd => ?_) hdrawing hx
      cases hd
  · obtain ⟨p, shift, d, hrun, hplanned, hshifted⟩ := run_shifted h hm hne
    have hnodes : d.nodes.map (·.toNode) = (Document.read text).nodes :=
      (hshifted.map_nodes fun _ => rfl).trans hplanned.declared
    have hedges : d.edges.map (·.toEdge) = (Document.read text).edges := by
      rw [hshifted.map_edges fun _ => rfl, hplanned.edges, Route.toEdge_all]
    have hids : ∀ d', (Picture.diagram d).diagram? = some d' → ∀ n ∈ d'.nodes, Svg.Legal n.id := by
      intro d' hd n hn
      obtain rfl := Option.some.inj hd
      have hdeclared : n.toNode ∈ (Document.read text).nodes := hnodes ▸ List.mem_map_of_mem hn
      exact Svg.legal_iff.mpr fun x hx =>
        Svg.isLegal_of_isWordChar ((Document.writable_node hdeclared).id_word x hx)
    refine ⟨_, congrArg Run.result hrun, ?_, fun drawing hdrawing x hx => Svg.mem_render hstyle hids hdrawing hx⟩
    intro x _ hmem
    obtain ⟨e, he, hlabel⟩ | ⟨n, hn, part, hpart, hmem⟩ := d.mem_content hmem
    · exact Document.excerpt_edge (hedges ▸ List.mem_map_of_mem he) x hlabel
    · exact Document.excerpt_node (hnodes ▸ List.mem_map_of_mem hn) part hpart x hmem

theorem run_label (h : ofConfig c = .ok s) (hm : c.canvasMargin.InRange) {text label : String}
    (hnodes : (Document.read text).nodes = [⟨"a", .task, label, none⟩]) {r : Result Float}
    (hr : (s.run text).result = .ok r) : ∀ x ∈ label.toList, x ∈ r.picture.content := by
  obtain ⟨p, shift, d, hrun, hplanned, hshifted⟩ := run_shifted h hm (hnodes ▸ List.cons_ne_nil _ _)
  rw [hrun] at hr
  obtain rfl := Except.ok.inj hr
  have hdeclared : d.nodes.map (·.toNode) = [⟨"a", .task, label, none⟩] :=
    (hshifted.map_nodes fun _ => rfl).trans (hplanned.declared.trans hnodes)
  obtain ⟨n, hn, hnode⟩ := List.map_eq_singleton_iff.mp hdeclared
  intro x hx
  refine Diagram.mem_content_of_label (n := n) (by simp [hn]) ?_
  rwa [congrArg Node.label hnode]

theorem exists_task {x : Char} (hx : Svg.isLegal x = false) (hline : Text.isBreak x = false) :
    ∃ text : String, text.length ≤ 2 ^ 16 ∧
      (Document.read text).nodes = [⟨"a", .task, String.singleton x, none⟩] := by
  have hlabel : (String.singleton x).toList = [x] := String.toList_singleton x
  have hquote : '"' ∉ (String.singleton x).toList := by
    rw [hlabel, List.mem_singleton]
    rintro rfl
    cases hx
  obtain ⟨text, hlength, hnodes⟩ := Document.exists_labelled hquote (by simpa [hlabel] using hline)
  refine ⟨text, ?_, hnodes⟩
  rw [hlength, String.length_singleton]
  decide

/-- The drawing of every text, in a style of legal characters. The drawing is legal exactly if the labels and actors
that it shows are, or the message; an illegal character in it stands in the text, and ends no line there. So the
illegal characters that end a line are in no drawing, and each of the others is in the drawing of some text. -/
theorem run_legal (h : ofConfig c = .ok s) (hc : ∀ q ∈ c.quantities, q.Moderate) {style : Svg.Style}
    (hstyle : style.Legal) :
    (∀ text : String, ∃ r, (s.run text).result = .ok r ∧
      (text.length ≤ 2 ^ 16 → ∃ drawing, Svg.render style r.picture = .ok drawing) ∧
      ∀ drawing, Svg.render style r.picture = .ok drawing →
        (Svg.Legal drawing ↔ ∀ x ∈ r.picture.content, Svg.isLegal x = true) ∧
        ∀ x ∈ drawing.toList, Svg.isLegal x = false → x ∈ text.toList ∧ Text.isBreak x = false) ∧
    ∀ x, Svg.isLegal x = false →
      ((∃ text r drawing, (s.run text).result = .ok r ∧ Svg.render style r.picture = .ok drawing ∧
        x ∈ drawing.toList) ↔ Text.isBreak x = false) := by
  obtain ⟨margin, hmargin, -⟩ := (hc c.canvasMargin (by simp [Config.quantities])).value
  have hdraws {text : String} {r : Result Float} (hr : (s.run text).result = .ok r) (ht : text.length ≤ 2 ^ 16) :
      ∃ drawing, Svg.render style r.picture = .ok drawing :=
    (Svg.render_ok_iff style r.picture).mpr (run_finite h hc ht hr style)
  refine ⟨?_, ?_⟩
  · intro text
    obtain ⟨r, hr, hcontent, hmem⟩ := run_content h ⟨margin, hmargin⟩ hstyle text
    refine ⟨r, hr, hdraws hr, fun drawing hdrawing => ⟨?_, ?_⟩⟩
    · rw [Svg.legal_iff, Svg.forall_isLegal_iff, Svg.forall_isLegal_iff]
      exact forall₂_congr fun x hx => not_congr (hmem drawing hdrawing x hx)
    · intro x hdrawn hx
      exact hcontent x hx ((hmem drawing hdrawing x hx).mp hdrawn)
  · intro x hx
    constructor
    · rintro ⟨text, r, drawing, hr, hdrawing, hdrawn⟩
      obtain ⟨r', hr', hcontent, hmem⟩ := run_content h ⟨margin, hmargin⟩ hstyle text
      obtain rfl := Except.ok.inj (hr.symm.trans hr')
      exact (hcontent x hx ((hmem drawing hdrawing x hx).mp hdrawn)).2
    · intro hline
      obtain ⟨text, ht, hnodes⟩ := exists_task hx hline
      obtain ⟨r, hr, -, hmem⟩ := run_content h ⟨margin, hmargin⟩ hstyle text
      obtain ⟨drawing, hdrawing⟩ := hdraws hr ht
      refine ⟨text, r, drawing, hr, hdrawing, (hmem drawing hdrawing x hx).mpr ?_⟩
      exact run_label h ⟨margin, hmargin⟩ hnodes hr x (by simp)

/-- Marks that are escaped leave the drawing legal; the last of the control characters gets into a drawing, and the
one that feeds a form does not. -/
theorem run_legal_marks : ∃ (s : Settings Float) (r : Result Float) (drawing : String),
    ofConfig ({} : Config Float) = .ok s ∧ (s.run "task a \"<A & B>\" @you").result = .ok r ∧
      Svg.render {} r.picture = .ok drawing ∧ Svg.Legal drawing ∧
      (∃ text r drawing, (s.run text).result = .ok r ∧ Svg.render {} r.picture = .ok drawing ∧
        '\x1F' ∈ drawing.toList) ∧
      ¬∃ text r drawing, (s.run text).result = .ok r ∧ Svg.render {} r.picture = .ok drawing ∧
        '\x0C' ∈ drawing.toList := by
  obtain ⟨s, hs⟩ := ofConfig_floats
  obtain ⟨hall, hillegal⟩ := run_legal hs moderate_default Svg.legal_default
  obtain ⟨r, hr, hdraws, hlegal⟩ := hall "task a \"<A & B>\" @you"
  obtain ⟨drawing, hdrawing⟩ := hdraws (by decide)
  refine ⟨s, r, drawing, hs, hr, hdrawing, ?_, (hillegal '\x1F' rfl).mpr rfl, ?_⟩
  · have htext : Svg.Legal "task a \"<A & B>\" @you" := rfl
    rw [Svg.legal_iff, Svg.forall_isLegal_iff]
    intro x hx hmem
    exact Svg.not_mem_of_isLegal hx (Svg.legal_iff.mp htext) ((hlegal drawing hdrawing).2 x hmem hx).1
  · rw [hillegal '\x0C' rfl]
    exact Bool.noConfusion

/-- A label that is a control character: the drawing has that character, and is not legal. -/
theorem control_character_drawn : ∃ (s : Settings Float) (r : Result Float) (drawing : String),
    ofConfig ({} : Config Float) = .ok s ∧ (s.run "task a \"\x01\"").result = .ok r ∧
      Svg.render {} r.picture = .ok drawing ∧ '\x01' ∈ drawing.toList ∧ ¬Svg.Legal drawing := by
  obtain ⟨s, hs⟩ := ofConfig_floats
  have hnodes : (Document.read "task a \"\x01\"").nodes = [⟨"a", .task, "\x01", none⟩] := rfl
  obtain ⟨r, hr, -, hmem⟩ := run_content hs ⟨_, rfl⟩ Svg.legal_default "task a \"\x01\""
  obtain ⟨drawing, hdrawing⟩ :=
    (Svg.render_ok_iff {} r.picture).mpr (run_finite hs moderate_default (by decide) hr {})
  have hdrawn : '\x01' ∈ drawing.toList :=
    (hmem drawing hdrawing '\x01' rfl).mpr (run_label hs ⟨_, rfl⟩ hnodes hr '\x01' (List.mem_singleton_self _))
  refine ⟨s, r, drawing, hs, hr, hdrawing, hdrawn, ?_⟩
  intro hlegal
  exact Svg.not_mem_of_isLegal rfl (Svg.legal_iff.mp hlegal) hdrawn

end Settings

end FlowDiagram
