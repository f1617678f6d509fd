import FlowDiagram.Proofs.Svg.Attributes
import FlowDiagram.Proofs.Svg.Rendering

namespace FlowDiagram

namespace Svg

namespace Element

variable {ν : Type}

/-- The values of all attributes with a name, and the tags of their elements. -/
def bearing (name : String) (e : Element ν) : List (ν × String) :=
  (e.attributes.filter (·.name = name)).map fun a => (a.value, a.tag)

/-- The tags of the elements with an identifier. -/
def called (id : String) (e : Element String) : List String :=
  ((e.bearing "id").filter (·.1 = id)).map (·.2)

theorem bearing_node (name tag text : String) (attrs : List (String × ν)) (children : List (Element ν)) :
    (node tag attrs text children).bearing name =
      (attrs.filter (·.1 = name)).map (fun a => (a.2, tag)) ++ children.flatMap (bearing name) := by
  rw [bearing, attributes, allAttributes_eq_flatMap, List.filter_append, List.map_append, List.filter_map,
    List.map_map, List.filter_flatMap, List.map_flatMap]
  rfl

theorem bearing_mapAttrs {μ : Type} {f : ν → Except Fault μ} {e : Element ν} {e' : Element μ}
    (h : e.mapAttrs f = .ok e') (name : String) :
    List.Forall₂ (fun p q => f p.1 = .ok q.1 ∧ q.2 = p.2) (e.bearing name) (e'.bearing name) := by
  have hwritten : ∀ {a : Attribute ν} {b : Attribute μ}, a.write f = .ok b →
      f a.value = .ok b.value ∧ b.tag = a.tag ∧ b.name = a.name := by
    intro a b hab
    obtain ⟨v, hv, hab⟩ := bind_eq_ok hab
    obtain rfl := Except.ok.inj hab
    exact ⟨hv, rfl, rfl⟩
  have hnamed : List.Forall₂ (fun a b => a.write f = .ok b) (e.attributes.filter (·.name = name))
      (e'.attributes.filter (·.name = name)) :=
    List.rel_filter (fun a b hab => by simp only [(hwritten hab).2.2]) (forall₂_of_mapM (mapAttrs_attributes h))
  rw [bearing, bearing, List.forall₂_map_left_iff, List.forall₂_map_right_iff]
  exact hnamed.imp fun a b hab => ⟨(hwritten hab).1, (hwritten hab).2.1⟩

end Element

theorem writeValue_plain {α : Type} (write : α → Except Fault String) (s : String) :
    writeValue write (plain s) = .ok s := congrArg Except.ok String.append_empty

theorem bearing_of_plain {α : Type} {write : α → Except Fault String} {e : Element (Value α)} {e' : Element String}
    (h : e.mapAttrs (writeValue write) = .ok e') {name : String} {ps : List (String × String)}
    (hplain : e.bearing name = ps.map fun p => (plain p.1, p.2)) : e'.bearing name = ps := by
  have hwritten := Element.bearing_mapAttrs h name
  rw [hplain, List.forall₂_map_left_iff] at hwritten
  have hsame : List.Forall₂ (fun p q => p = q) ps (e'.bearing name) := by
    refine hwritten.imp fun p q hpq => ?_
    rw [writeValue_plain] at hpq
    exact Prod.ext (Except.ok.inj hpq.1) hpq.2.symm
  rw [List.forall₂_eq_eq_eq] at hsame
  exact hsame.symm

section Drawings

variable {α : Type} [Scalar α] (style : Style)

omit [Scalar α] in
theorem bearing_id_edge (e : RoutedEdge α) : (edge style e).flatMap (Element.bearing "id") = [] := by
  rw [edge, edgeLabel]
  cases e.isRouted with
  | false => rfl
  | true =>
    cases e.anchor with
    | none => rfl
    | some p => by_cases hlabel : e.label = "" <;> simp only [hlabel] <;> rfl

omit [Scalar α] in
theorem bearing_end_edge (e : RoutedEdge α) : (edge style e).flatMap (Element.bearing "marker-end") =
    if e.isRouted then [(plain "url(#arrow)", "path")] else [] := by
  rw [edge, edgeLabel]
  cases e.isRouted with
  | false => rfl
  | true =>
    cases e.anchor with
    | none => rfl
    | some p => by_cases hlabel : e.label = "" <;> simp only [hlabel] <;> rfl

theorem bearing_id_node (n : PlacedNode α) : (node style n).bearing "id" = [(plain n.id, "g")] := by
  rw [node, shape, actor]
  cases n.kind.shape <;> cases n.shownActor? <;> rfl

theorem bearing_end_node (n : PlacedNode α) : (node style n).bearing "marker-end" = [] := by
  rw [node, shape, actor]
  cases n.kind.shape <;> cases n.shownActor? <;> rfl

theorem bearing_diagram {name : String} (d : Diagram α)
    (hroot : ∀ n ∈ ["xmlns", "width", "height", "viewBox", "font-family"], n ≠ name) :
    (diagram style d).bearing name = (arrowMarker style : Element (Value α)).bearing name ++
      d.edges.flatMap (fun e => (edge style e).flatMap (Element.bearing name)) ++
      d.nodes.flatMap fun n => (node style n).bearing name := by
  have hnone : (("xmlns", plain nameSpace) :: [("width", number d.width), ("height", number d.height),
      ("viewBox", [.text "0 0 ", .number d.width, .text " ", .number d.height]),
      ("font-family", plain style.fontFamily)]).filter (·.1 = name) = [] := by
    rw [List.filter_eq_nil_iff]
    simpa using hroot
  rw [diagram, root, Element.bearing_node, hnone, List.flatMap_append, List.flatMap_cons, List.flatMap_assoc,
    List.flatMap_map]
  rfl

theorem bearing_id_diagram (d : Diagram α) : (diagram style d).bearing "id" =
    (("arrow", "marker") :: d.nodes.map fun n => (n.id, "g")).map fun p => (plain p.1, p.2) := by
  have hedges : d.edges.flatMap (fun e => (edge style e).flatMap (Element.bearing "id")) = [] :=
    List.flatMap_eq_nil_iff.mpr fun e _ => bearing_id_edge style e
  rw [bearing_diagram style d (by decide), hedges, List.map_cons, List.map_map]
  simp only [bearing_id_node, ← List.map_eq_flatMap]
  rfl

theorem bearing_end_diagram (d : Diagram α) : (diagram style d).bearing "marker-end" =
    ((d.edges.filter (·.isRouted)).map fun _ => ("url(#arrow)", "path")).map fun p => (plain p.1, p.2) := by
  have hnodes : d.nodes.flatMap (fun n => (node style n).bearing "marker-end") = [] :=
    List.flatMap_eq_nil_iff.mpr fun n _ => bearing_end_node style n
  rw [bearing_diagram style d (by decide), hnodes, List.append_nil]
  simp only [bearing_end_edge]
  change [] ++ _ = _
  induction d.edges with
  | nil => rfl
  | cons e es ih =>
    rw [List.nil_append] at ih
    by_cases he : e.isRouted = true <;> simp [he, ih]

end Drawings

theorem read_bearing {style : Style} {d : Diagram Float} {drawing : String}
    (h : render style (.diagram d) = .ok drawing) : ∃ e, Element.read drawing.toList = some e ∧
      e.bearing "id" = ("arrow", "marker") :: d.nodes.map (fun n => (n.id, "g")) ∧
      e.bearing "marker-end" = (d.edges.filter (·.isRouted)).map fun _ => ("url(#arrow)", "path") := by
  obtain ⟨e, he, h⟩ := bind_eq_ok h
  obtain rfl := Except.ok.inj h
  refine ⟨e, ?_, bearing_of_plain he (bearing_id_diagram style d), bearing_of_plain he (bearing_end_diagram style d)⟩
  rw [String.toList_ofList]
  exact Element.read_write ((Element.mapAttrs_spec he).2.1 (named_picture style (.diagram d)))

theorem called_eq {e : Element String} {ids : List String}
    (h : e.bearing "id" = ("arrow", "marker") :: ids.map fun id => (id, "g")) (hn : ids.Nodup) (id : String) :
    e.called id = (if id = "arrow" then ["marker"] else []) ++ if id ∈ ids then ["g"] else [] := by
  have hnodes : ((ids.map fun i => (i, "g")).filter (·.1 = id)).map (·.2) = if id ∈ ids then ["g"] else [] := by
    rw [List.filter_map, List.map_map]
    change (ids.filter fun i => decide (i = id)).map (fun _ => "g") = _
    rw [List.filter_eq, hn.count]
    split <;> rfl
  rw [Element.called, h, List.filter_cons]
  by_cases harrow : id = "arrow"
  · rw [if_pos harrow, if_pos (decide_eq_true harrow.symm), List.map_cons, hnodes]
    rfl
  · rw [if_neg harrow, if_neg (by simpa using Ne.symm harrow), hnodes]
    rfl

end Svg

namespace Settings

variable {c : Config Float} {s : Settings Float}

/-- The drawing of every text with a node, in any style: the identifiers in it are that of the arrow and those of the
nodes, in order, and every line ends with the mark of the arrow. By the identifier of a node there is its group, and
nothing else unless the node is called as the arrow is; so no two identifiers are equal exactly if no node is. -/
theorem run_identifies (h : ofConfig c = .ok s) (hm : c.canvasMargin.InRange) (style : Svg.Style) (text : String)
    (hne : (Document.read text).nodes ≠ []) :
    ∃ r d, (s.run text).result = .ok r ∧ r.picture.diagram? = some d ∧
      ((∀ q ∈ c.quantities, q.Moderate) → text.length ≤ 2 ^ 16 →
        ∃ drawing, Svg.render style r.picture = .ok drawing) ∧
      ∀ drawing, Svg.render style r.picture = .ok drawing → ∃ e, Svg.Element.read drawing.toList = some e ∧
        e.bearing "id" = ("arrow", "marker") :: (Document.read text).nodes.map (fun n => (n.id, "g")) ∧
        e.bearing "marker-end" = (d.edges.filter (·.isRouted)).map (fun _ => ("url(#arrow)", "path")) ∧
        (∀ id, e.called id = (if id = "arrow" then ["marker"] else []) ++
          if id ∈ (Document.read text).nodes.map (·.id) then ["g"] else []) ∧
        (((e.bearing "id").map (·.1)).Nodup ↔ "arrow" ∉ (Document.read text).nodes.map (·.id)) := by
  obtain ⟨p, shift, d, hrun, hplanned, hshifted⟩ := run_shifted h hm hne
  have hr : (s.run text).result = .ok ⟨.diagram d, Run.diagnostics (Document.read text) p⟩ := congrArg Run.result hrun
  refine ⟨_, d, hr, rfl, ?_, ?_⟩
  · intro hc ht
    exact (Svg.render_ok_iff style _).mpr (run_finite h hc ht hr style)
  · intro drawing hdrawing
    have hdeclared : d.nodes.map (·.toNode) = (Document.read text).nodes :=
      (hshifted.map_nodes fun _ => rfl).trans hplanned.declared
    have hids := Document.nodup_ids text
    obtain ⟨e, he, hbearing, hend⟩ := Svg.read_bearing hdrawing
    have hnodes : e.bearing "id" = ("arrow", "marker") :: (Document.read text).nodes.map fun n => (n.id, "g") := by
      rw [hbearing, ← hdeclared, List.map_map]
      rfl
    refine ⟨e, he, hnodes, hend, Svg.called_eq ?_ hids, ?_⟩
    · rw [hnodes, List.map_map]
      rfl
    · rw [hnodes, List.map_cons, List.map_map, List.nodup_cons]
      exact and_iff_left hids

theorem run_identifies_pair : ∃ (s : Settings Float) (r : Result Float) (drawing : String) (e : Svg.Element String),
    ofConfig ({} : Config Float) = .ok s ∧
      (s.run "startEvent s \"S\"\ntask t \"T\"\ns -> t").result = .ok r ∧
      Svg.render {} r.picture = .ok drawing ∧ Svg.Element.read drawing.toList = some e ∧
      e.bearing "id" = [("arrow", "marker"), ("s", "g"), ("t", "g")] ∧ e.called "arrow" = ["marker"] ∧
      e.called "t" = ["g"] ∧ ((e.bearing "id").map (·.1)).Nodup := by
  obtain ⟨s, hs⟩ := ofConfig_floats
  have hread : (Document.read "startEvent s \"S\"\ntask t \"T\"\ns -> t").nodes =
      [⟨"s", .startEvent, "S", none⟩, ⟨"t", .task, "T", none⟩] := rfl
  obtain ⟨r, d, hr, -, hdraws, hall⟩ := run_identifies hs ⟨_, rfl⟩ {} _ (hread ▸ List.cons_ne_nil _ _)
  obtain ⟨drawing, hdrawing⟩ := hdraws moderate_default (by decide)
  obtain ⟨e, he, hids, -, hcalled, hnodup⟩ := hall drawing hdrawing
  rw [hread] at hids hcalled hnodup
  exact ⟨s, r, drawing, e, hs, hr, hdrawing, he, hids, hcalled "arrow", hcalled "t", hnodup.mpr (by decide)⟩

/-- A task that is called as the arrow is: the drawing has two elements with one identifier. -/
theorem arrow_called_twice : ∃ (s : Settings Float) (r : Result Float) (drawing : String) (e : Svg.Element String),
    ofConfig ({} : Config Float) = .ok s ∧ (s.run "task arrow \"A\"").result = .ok r ∧
      Svg.render {} r.picture = .ok drawing ∧ Svg.Element.read drawing.toList = some e ∧
      e.called "arrow" = ["marker", "g"] ∧ ¬((e.bearing "id").map (·.1)).Nodup := by
  obtain ⟨s, hs⟩ := ofConfig_floats
  have hread : (Document.read "task arrow \"A\"").nodes = [⟨"arrow", .task, "A", none⟩] := rfl
  have hne : (Document.read "task arrow \"A\"").nodes ≠ [] := hread ▸ List.cons_ne_nil _ _
  have hlength : "task arrow \"A\"".length ≤ 2 ^ 16 := by decide
  obtain ⟨p, shift, d, hrun, hplanned, hshifted⟩ := run_shifted hs ⟨_, rfl⟩ hne
  have hr := congrArg Run.result hrun
  have hdeclared : d.nodes.map (·.toNode) = [⟨"arrow", .task, "A", none⟩] :=
    (hshifted.map_nodes fun _ => rfl).trans (hplanned.declared.trans hread)
  obtain ⟨n, hn, hnode⟩ := List.map_eq_singleton_iff.mp hdeclared
  obtain ⟨drawing, hdrawing⟩ := (Svg.render_ok_iff {} _).mpr (run_finite hs moderate_default hlength hr {})
  obtain ⟨e, he, hids, -⟩ := Svg.read_bearing hdrawing
  rw [hn, List.map_singleton, hnode] at hids
  refine ⟨s, _, drawing, e, hs, hr, hdrawing, he, ?_, ?_⟩
  · rw [Svg.Element.called, hids]
    rfl
  · rw [hids]
    decide

end Settings

end FlowDiagram
