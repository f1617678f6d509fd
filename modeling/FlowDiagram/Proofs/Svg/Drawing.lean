import FlowDiagram.Proofs.Svg.Reader
import FlowDiagram.Proofs.Table
import FlowDiagram.Svg.Drawing

namespace FlowDiagram

/-- What the tags of a drawing depend on: of each edge whether its line is drawn and whether it shows a label,
of each node its shape and whether it shows an actor. -/
inductive Outline where
  | message
  | diagram (edges : List (Bool × Bool)) (nodes : List (Shape × Bool))
  deriving DecidableEq

def RoutedEdge.outline {α : Type} (e : RoutedEdge α) : Bool × Bool :=
  (e.isRouted, e.anchor.isSome && e.label ≠ "")

def PlacedNode.outline {α : Type} (n : PlacedNode α) : Shape × Bool :=
  (n.kind.shape, n.shownActor?.isSome)

def Picture.outline {α : Type} : Picture α → Outline
  | diagram d => .diagram (d.edges.map RoutedEdge.outline) (d.nodes.map PlacedNode.outline)
  | message _ => .message

/-- A text that is shown, if there is something to show. -/
def shownText (text : String) : List String := if text = "" then [] else [text]

/-- An edge shows its label if its line is drawn and there is a place for the label. -/
def RoutedEdge.shown {α : Type} (e : RoutedEdge α) : List String :=
  if e.isRouted && e.anchor.isSome then shownText e.label else []

def PlacedNode.shown {α : Type} (n : PlacedNode α) : List String :=
  shownText n.label ++ if n.kind = .task then n.actor.toList.flatMap shownText else []

def Picture.texts {α : Type} : Picture α → List String
  | diagram d => d.edges.flatMap RoutedEdge.shown ++ d.nodes.flatMap PlacedNode.shown
  | message text => shownText text

namespace Svg

namespace Element

mutual

def texts {ν : Type} : Element ν → List String
  | node _ _ text children => shownText text ++ allTexts children

def allTexts {ν : Type} : List (Element ν) → List String
  | [] => []
  | e :: es => texts e ++ allTexts es

end

theorem allTexts_eq_flatMap {ν : Type} (es : List (Element ν)) : allTexts es = es.flatMap texts := by
  induction es with
  | nil => rfl
  | cons e es ih => rw [allTexts, ih, List.flatMap_cons]

section Attributes

variable {ν μ : Type} {f : ν → Except Fault μ}

theorem names_mapM {attrs : List (String × ν)} {attrs' : List (String × μ)}
    (h : (attrs.mapM fun a => return (a.1, ← f a.2)) = .ok attrs') : attrs'.map (·.1) = attrs.map (·.1) := by
  induction attrs generalizing attrs' with
  | nil =>
    obtain rfl := Except.ok.inj h
    rfl
  | cons a attrs ih =>
    rw [List.mapM_cons] at h
    obtain ⟨b, hb, h⟩ := bind_eq_ok h
    obtain ⟨rest, hrest, h⟩ := bind_eq_ok h
    obtain ⟨v, hv, hb⟩ := bind_eq_ok hb
    obtain rfl := Except.ok.inj hb
    obtain rfl := Except.ok.inj h
    rw [List.map_cons, List.map_cons, ih hrest]

mutual

theorem mapAttrs_spec : ∀ {e : Element ν} {e' : Element μ}, e.mapAttrs f = .ok e' →
    e'.skeleton = e.skeleton ∧ (e.Named → e'.Named) ∧ e'.texts = e.texts
  | node tag attrs text children, e', h => by
    rw [mapAttrs] at h
    obtain ⟨attrs', hattrs, h⟩ := bind_eq_ok h
    obtain ⟨children', hchildren, h⟩ := bind_eq_ok h
    obtain rfl := Except.ok.inj h
    obtain ⟨hskeleton, hnamed, htexts⟩ := mapAllAttrs_spec hchildren
    refine ⟨by rw [skeleton, skeleton, hskeleton], ?_, by rw [texts, texts, htexts]⟩
    rintro ⟨htag, hnames, hall⟩
    refine .node htag ?_ (hnamed hall)
    intro a ha
    have hmem : a.1 ∈ attrs.map (·.1) := names_mapM hattrs ▸ List.mem_map_of_mem ha
    obtain ⟨b, hb, heq⟩ := List.mem_map.mp hmem
    exact heq ▸ hnames b hb

theorem mapAllAttrs_spec : ∀ {es : List (Element ν)} {es' : List (Element μ)}, mapAllAttrs f es = .ok es' →
    skeletons es' = skeletons es ∧ ((∀ e ∈ es, e.Named) → ∀ e ∈ es', e.Named) ∧ allTexts es' = allTexts es
  | [], es', h => by
    rw [mapAllAttrs] at h
    obtain rfl := Except.ok.inj h
    exact ⟨rfl, by simp, rfl⟩
  | e :: es, es', h => by
    rw [mapAllAttrs] at h
    obtain ⟨e', he, h⟩ := bind_eq_ok h
    obtain ⟨rest, hrest, h⟩ := bind_eq_ok h
    obtain rfl := Except.ok.inj h
    obtain ⟨hskeleton, hnamed, htexts⟩ := mapAttrs_spec he
    obtain ⟨hskeletons, hall, hrestTexts⟩ := mapAllAttrs_spec hrest
    refine ⟨by rw [skeletons, skeletons, hskeleton, hskeletons], ?_, by rw [allTexts, allTexts, htexts, hrestTexts]⟩
    intro hes x hmem
    obtain heq | hmem := List.mem_cons.mp hmem
    · exact heq ▸ hnamed (hes e List.mem_cons_self)
    · exact hall (fun y hy => hes y (List.mem_cons_of_mem e hy)) x hmem

end

end Attributes

theorem skeletons_eq_map {ν : Type} (es : List (Element ν)) : skeletons es = es.map skeleton := by
  induction es with
  | nil => rfl
  | cons e es ih => rw [skeletons, ih, List.map_cons]

end Element

section Names

variable {ν : Type}

theorem named_of_names (names : List String) {attrs : List (String × ν)} (h : attrs.map (·.1) = names)
    (hnames : ∀ n ∈ names, IsName n) : ∀ a ∈ attrs, IsName a.1 := by
  intro a ha
  exact hnames a.1 (h ▸ List.mem_map_of_mem ha)

theorem named_childless {tag : String} {attrs : List (String × ν)} (htag : IsName tag)
    (hattrs : ∀ a ∈ attrs, IsName a.1) (text : String) :
    (Element.node tag attrs text []).Named := .node htag hattrs (by simp)

variable {α : Type} [Scalar α] (style : Style)

omit [Scalar α] in
theorem named_root {attrs : List (String × Value α)} {children : List (Element (Value α))}
    (hattrs : ∀ a ∈ attrs, IsName a.1) (hchildren : ∀ e ∈ children, e.Named) :
    (root attrs children).Named := by
  refine .node (by decide) ?_ hchildren
  intro a ha
  obtain rfl | ha := List.mem_cons.mp ha
  · change IsName "xmlns"
    decide
  · exact hattrs a ha

omit [Scalar α] in
theorem named_arrowMarker : (arrowMarker style : Element (Value α)).Named := by
  refine .node (by decide) (by simp) ?_
  intro marker hm
  obtain rfl := List.mem_singleton.mp hm
  refine .node (by decide) (named_of_names ["id", "viewBox", "refX", "refY", "markerWidth",
    "markerHeight", "orient"] rfl (by decide)) ?_
  intro path hp
  obtain rfl := List.mem_singleton.mp hp
  exact named_childless (by decide) (named_of_names ["d", "fill"] rfl (by decide)) _

omit [Scalar α] in
theorem named_centered (p : Point α) (size : Int) (color text : String) :
    (centered p size color text).Named :=
  named_childless (by decide) (named_of_names ["x", "y", "text-anchor", "dominant-baseline", "font-size",
    "fill"] rfl (by decide)) _

omit [Scalar α] in
theorem named_edge (e : RoutedEdge α) : ∀ x ∈ edge style e, x.Named := by
  intro x hx
  rw [edge] at hx
  split at hx
  · obtain rfl | hx := List.mem_cons.mp hx
    · exact named_childless (by decide) (named_of_names ["d", "stroke", "stroke-width", "fill",
        "marker-end"] rfl (by decide)) _
    · rw [edgeLabel] at hx
      split at hx
      · cases hx
      · split at hx
        · cases hx
        · obtain rfl := List.mem_singleton.mp hx
          exact named_centered _ _ _ _
  · cases hx

theorem named_shape (n : PlacedNode α) : (shape n).Named := by
  rw [shape]
  split
  · exact named_childless (by decide) (named_of_names ["cx", "cy", "r", "fill", "stroke",
      "stroke-width"] rfl (by decide)) _
  · exact named_childless (by decide) (named_of_names ["points", "fill", "stroke", "stroke-width"]
      rfl (by decide)) _
  · exact named_childless (by decide) (named_of_names ["x", "y", "width", "height", "rx", "ry", "fill",
      "stroke", "stroke-width"] rfl (by decide)) _

theorem named_node (n : PlacedNode α) : (node style n).Named := by
  refine .node (by decide) (named_of_names ["id", "class"] rfl (by decide)) ?_
  intro x hx
  obtain rfl | hx := List.mem_cons.mp hx
  · exact named_shape n
  obtain rfl | hx := List.mem_cons.mp hx
  · exact named_centered _ _ _ _
  rw [actor] at hx
  split at hx
  · cases hx
  · obtain rfl := List.mem_singleton.mp hx
    exact named_childless (by decide) (named_of_names ["x", "y", "text-anchor", "font-size", "fill",
      "class"] rfl (by decide)) _

theorem named_picture (p : Picture α) : (picture style p).Named := by
  cases p with
  | message text =>
    refine named_root (named_of_names ["width", "height", "font-family"] rfl (by decide)) ?_
    intro x hx
    obtain rfl := List.mem_singleton.mp hx
    exact named_childless (by decide) (named_of_names ["x", "y", "font-size", "fill"] rfl (by decide)) _
  | diagram d =>
    refine named_root (named_of_names ["width", "height", "viewBox", "font-family"] rfl (by decide)) ?_
    intro x hx
    obtain hx | hx := List.mem_append.mp hx
    · obtain rfl | hx := List.mem_cons.mp hx
      · exact named_arrowMarker style
      · obtain ⟨e, -, hx⟩ := List.mem_flatMap.mp hx
        exact named_edge style e x hx
    · obtain ⟨n, -, rfl⟩ := List.mem_map.mp hx
      exact named_node style n

end Names

def shapeTag : Shape → String
  | .circle => "circle"
  | .rectangle => "rect"
  | .diamond => "polygon"

def bare (tag : String) : Element Empty := .node tag [] "" []

/-- An edge is a path and a text behind it, if it is drawn at all. -/
def edgeSkeleton (edge : Bool × Bool) : List (Element Empty) :=
  if edge.1 then bare "path" :: if edge.2 then [bare "text"] else [] else []

/-- A node is a group of a shape, a text, and another text for an actor. -/
def nodeSkeleton (node : Shape × Bool) : Element Empty :=
  .node "g" [] "" (bare (shapeTag node.1) :: bare "text" :: if node.2 then [bare "text"] else [])

/-- The tags of a drawing with this outline, as they are nested. -/
def outlineSkeleton : Outline → Element Empty
  | .message => .node "svg" [] "" [bare "text"]
  | .diagram edges nodes =>
    .node "svg" [] "" (.node "defs" [] "" [.node "marker" [] "" [bare "path"]] ::
      edges.flatMap edgeSkeleton ++ nodes.map nodeSkeleton)

section Skeletons

variable {α : Type} [Scalar α] (style : Style)

omit [Scalar α] in
theorem skeleton_edge (e : RoutedEdge α) : (edge style e).map Element.skeleton = edgeSkeleton e.outline := by
  rw [edge, edgeSkeleton, RoutedEdge.outline]
  by_cases hrouted : e.isRouted = true
  · rw [if_pos hrouted, if_pos hrouted, edgeLabel]
    cases e.anchor with
    | none => rfl
    | some p =>
      dsimp only
      by_cases hlabel : e.label = ""
      · rw [if_pos hlabel, decide_eq_false (not_not_intro hlabel)]
        rfl
      · rw [if_neg hlabel, decide_eq_true hlabel]
        rfl
  · rw [if_neg hrouted, if_neg hrouted]
    rfl

theorem skeleton_node (n : PlacedNode α) : (node style n).skeleton = nodeSkeleton n.outline := by
  have hshape : (shape n).skeleton = bare (shapeTag n.kind.shape) := by
    rw [shape]
    cases n.kind.shape <;> rfl
  have hactor : (actor style n).map Element.skeleton = if n.shownActor?.isSome then [bare "text"] else [] := by
    rw [actor]
    cases n.shownActor? <;> rfl
  rw [node, Element.skeleton, Element.skeletons_eq_map, List.map_cons, List.map_cons, hshape, hactor]
  rfl

theorem skeleton_picture (p : Picture α) : (picture style p).skeleton = outlineSkeleton p.outline := by
  cases p with
  | message text => rfl
  | diagram d =>
    rw [picture, diagram, root, Element.skeleton, Element.skeletons_eq_map, List.map_append, List.map_cons,
      List.map_flatMap, List.map_map, Picture.outline, outlineSkeleton, List.flatMap_map, List.map_map]
    have hedge : (fun e => (edge style e).map Element.skeleton) =
        fun e : RoutedEdge α => edgeSkeleton e.outline := funext (skeleton_edge style)
    have hnode : Element.skeleton ∘ node style = nodeSkeleton ∘ (PlacedNode.outline : PlacedNode α → _) :=
      funext (skeleton_node style)
    rw [hedge, hnode]
    rfl

end Skeletons

section Texts

variable {α : Type} [Scalar α] (style : Style)

omit [Scalar α] in
theorem texts_centered (p : Point α) (size : Int) (color text : String) :
    (centered p size color text).texts = shownText text := by
  rw [centered, Element.texts, Element.allTexts, List.append_nil]

omit [Scalar α] in
theorem texts_edge (e : RoutedEdge α) : (edge style e).flatMap Element.texts = e.shown := by
  rw [edge, RoutedEdge.shown]
  cases e.isRouted with
  | false => rfl
  | true =>
    have hpath (attrs : List (String × Value α)) : (leaf "path" attrs).texts = [] := rfl
    rw [if_pos rfl, List.flatMap_cons, hpath, List.nil_append, edgeLabel]
    cases e.anchor with
    | none => rfl
    | some p =>
      simp only [Option.isSome_some, Bool.and_self, if_true]
      split
      · next hlabel => simp [shownText, hlabel]
      · simp [texts_centered]

theorem texts_node (n : PlacedNode α) : (node style n).texts = n.shown := by
  have hshape : (shape n).texts = [] := by
    rw [shape]
    split <;> rfl
  have hactor : (actor style n).flatMap Element.texts =
      if n.kind = .task then n.actor.toList.flatMap shownText else [] := by
    rw [actor, PlacedNode.shownActor?]
    by_cases htask : n.kind = .task
    · rw [if_pos htask, if_pos htask]
      cases n.actor with
      | none => rfl
      | some name =>
        by_cases hname : name = ""
        · subst hname
          rfl
        · have hshown : (some name).filter (· ≠ "") = some name := by simp [hname]
          rw [hshown]
          simp [Element.texts, Element.allTexts]
    · rw [if_neg htask, if_neg htask]
      rfl
  rw [node, Element.texts, Element.allTexts, hshape, Element.allTexts, texts_centered, Element.allTexts_eq_flatMap,
    hactor, PlacedNode.shown]
  rfl

theorem texts_picture (p : Picture α) : (picture style p).texts = p.texts := by
  cases p with
  | message text =>
    simp [picture, message, root, Element.texts, Element.allTexts, Picture.texts, shownText]
  | diagram d =>
    have hmarker : (arrowMarker style : Element (Value α)).texts = [] := rfl
    have hempty : shownText "" = [] := rfl
    rw [picture, diagram, root, Element.texts, List.cons_append, Element.allTexts, hmarker, hempty,
      Element.allTexts_eq_flatMap, List.flatMap_append, List.flatMap_assoc, List.flatMap_map, Picture.texts]
    have hedges : (fun e => (edge style e).flatMap Element.texts) = (RoutedEdge.shown : RoutedEdge α → _) :=
      funext (texts_edge style)
    have hnodes : (fun n => (node style n).texts) = (PlacedNode.shown : PlacedNode α → _) := funext (texts_node style)
    rw [hedges, hnodes]
    rfl

end Texts

/-- The text of a drawing reads back as the tree that was drawn, with all attribute values, labels, actors and
messages as they were; so no character of theirs passes for markup, the tags in the text are those of the
picture's outline, and its texts those of the picture. A message is always drawn. -/
theorem read_render (style : Style) (p : Picture Float) :
    (render style p).map (fun text => Element.read text.toList) = (tree style p).map some ∧
    (∀ text, render style p = .ok text →
      (Element.read text.toList).map Element.skeleton = some (outlineSkeleton p.outline) ∧
      (Element.read text.toList).map Element.texts = some p.texts) ∧
    ∀ message, ∃ text, render style (.message message) = .ok text := by
  have hread : ∀ e, tree style p = .ok e → Element.read e.write = some e ∧
      e.skeleton = outlineSkeleton p.outline ∧ e.texts = p.texts := by
    intro e he
    obtain ⟨hskeleton, hnamed, htexts⟩ := Element.mapAttrs_spec he
    exact ⟨Element.read_write (hnamed (named_picture style p)), hskeleton.trans (skeleton_picture style p),
      htexts.trans (texts_picture style p)⟩
  refine ⟨?_, ?_, ?_⟩
  · rw [render]
    cases he : tree style p with
    | error fault => rfl
    | ok e =>
      change Except.ok (Element.read (String.ofList e.write).toList) = Except.ok (some e)
      rw [String.toList_ofList, (hread e he).1]
  · intro text h
    obtain ⟨e, he, h⟩ := bind_eq_ok h
    obtain rfl := Except.ok.inj h
    obtain ⟨hback, hskeleton, htexts⟩ := hread e he
    rw [String.toList_ofList, hback, Option.map_some, Option.map_some, hskeleton, htexts]
    exact ⟨rfl, rfl⟩
  · intro message
    exact ⟨_, rfl⟩

/-- Labels and styles that look like markup: they read back as they are, and the tags are those of the same diagram
with plain ones. -/
theorem read_render_hostile : ∃ (hostile : Style) (p q : Picture Float) (text : String),
    hostile.fontFamily = "\"><script>" ∧
    p = .diagram ⟨[⟨⟨"a", .task, "</text><b x=\"&amp;lt;\">", some "&gt;"⟩, 100, 60, 0⟩],
      [⟨⟨"a", "a", "<!--"⟩, [⟨100, 85⟩, ⟨170, 105⟩], some ⟨140, 3⟩⟩], 200, 145⟩ ∧
    q = .diagram ⟨[⟨⟨"b", .task, "B", some "C"⟩, 300, 80, 0⟩],
      [⟨⟨"b", "b", "again"⟩, [⟨1, 2⟩, ⟨3, 4⟩], some ⟨5, 6⟩⟩], 20, 20⟩ ∧
    render hostile p = .ok text ∧
    (Element.read text.toList).map Element.texts = some ["<!--", "</text><b x=\"&amp;lt;\">", "&gt;"] ∧
    (Element.read text.toList).map Element.skeleton = some (outlineSkeleton q.outline) := by
  let hostile : Style := { fontFamily := "\"><script>" }
  let p : Picture Float := .diagram ⟨[⟨⟨"a", .task, "</text><b x=\"&amp;lt;\">", some "&gt;"⟩, 100, 60, 0⟩],
    [⟨⟨"a", "a", "<!--"⟩, [⟨100, 85⟩, ⟨170, 105⟩], some ⟨140, 3⟩⟩], 200, 145⟩
  let q : Picture Float := .diagram ⟨[⟨⟨"b", .task, "B", some "C"⟩, 300, 80, 0⟩],
    [⟨⟨"b", "b", "again"⟩, [⟨1, 2⟩, ⟨3, 4⟩], some ⟨5, 6⟩⟩], 20, 20⟩
  have houtline : p.outline = q.outline := by decide +kernel
  have htexts : p.texts = ["<!--", "</text><b x=\"&amp;lt;\">", "&gt;"] := by decide +kernel
  obtain ⟨text, htext⟩ : ∃ text, render hostile p = .ok text := exists_ok (by decide +kernel)
  obtain ⟨hskeleton, hread⟩ := (read_render hostile p).2.1 text htext
  rw [houtline] at hskeleton
  rw [htexts] at hread
  exact ⟨hostile, p, q, text, rfl, rfl, rfl, htext, hread, hskeleton⟩

end Svg

end FlowDiagram
