import FlowDiagram.Proofs.Drawing
import FlowDiagram.Proofs.Float.Packing
import FlowDiagram.Proofs.Svg.Drawing

namespace FlowDiagram.Svg

theorem coordinate_ok_iff (x : Float) : (∃ text, coordinate x = .ok text) ↔ Decimal.Finite x := by
  rw [coordinate, Decimal.Finite]
  cases Decimal.Number.ofFloat x with
  | finite negative v => exact iff_of_true ⟨_, rfl⟩ ⟨negative, v, rfl⟩
  | infinite negative => simp
  | undefined => simp

theorem coordinate_error {x : Float} {fault : Fault} (h : coordinate x = .error fault) :
    fault = .notANumber ∨ fault = .infinite := by
  rw [coordinate] at h
  split at h
  · cases h
  · exact .inr (Except.error.inj h).symm
  · exact .inl (Except.error.inj h).symm

namespace Element

mutual

def values {ν : Type} : Element ν → List ν
  | node _ attrs _ children => attrs.map (·.2) ++ allValues children

def allValues {ν : Type} : List (Element ν) → List ν
  | [] => []
  | e :: es => values e ++ allValues es

end

theorem allValues_eq_flatMap {ν : Type} (es : List (Element ν)) : allValues es = es.flatMap values := by
  induction es with
  | nil => rfl
  | cons e es ih => rw [allValues, ih, List.flatMap_cons]

section Written

variable {ν μ : Type} {f : ν → Except Fault μ}

theorem mapM_ok_iff (attrs : List (String × ν)) :
    (∃ attrs', (attrs.mapM fun a => return (a.1, ← f a.2)) = .ok attrs') ↔
      ∀ v ∈ attrs.map (·.2), ∃ w, f v = .ok w := by
  induction attrs with
  | nil => exact iff_of_true ⟨[], rfl⟩ (by simp)
  | cons a attrs ih =>
    rw [List.mapM_cons, both_ok_iff, map_ok_iff, ih, List.map_cons, List.forall_mem_cons]

mutual

theorem mapAttrs_ok_iff : ∀ e : Element ν, (∃ e', e.mapAttrs f = .ok e') ↔ ∀ v ∈ e.values, ∃ w, f v = .ok w
  | node tag attrs text children => by
    rw [mapAttrs, both_ok_iff, mapM_ok_iff, mapAllAttrs_ok_iff children, values, List.forall_mem_append]

theorem mapAllAttrs_ok_iff : ∀ es : List (Element ν),
    (∃ es', mapAllAttrs f es = .ok es') ↔ ∀ v ∈ allValues es, ∃ w, f v = .ok w
  | [] => iff_of_true ⟨[], rfl⟩ (by simp [allValues])
  | e :: es => by
    rw [mapAllAttrs, both_ok_iff, mapAttrs_ok_iff e, mapAllAttrs_ok_iff es, allValues, List.forall_mem_append]

end

variable {fault : Fault}

theorem mapM_error {attrs : List (String × ν)}
    (h : (attrs.mapM fun a => return (a.1, ← f a.2)) = .error fault) :
    ∃ v ∈ attrs.map (·.2), f v = .error fault := by
  induction attrs with
  | nil => cases h
  | cons a attrs ih =>
    rw [List.mapM_cons] at h
    obtain h | h := both_eq_error h
    · exact ⟨a.2, List.mem_cons_self .., map_eq_error h⟩
    · obtain ⟨v, hv, hfault⟩ := ih h
      exact ⟨v, List.mem_cons_of_mem _ hv, hfault⟩

mutual

theorem mapAttrs_error : ∀ e : Element ν, e.mapAttrs f = .error fault → ∃ v ∈ e.values, f v = .error fault
  | node tag attrs text children => by
    intro h
    rw [mapAttrs] at h
    rw [values]
    obtain h | h := both_eq_error h
    · obtain ⟨v, hv, hfault⟩ := mapM_error h
      exact ⟨v, List.mem_append_left _ hv, hfault⟩
    · obtain ⟨v, hv, hfault⟩ := mapAllAttrs_error children h
      exact ⟨v, List.mem_append_right _ hv, hfault⟩

theorem mapAllAttrs_error : ∀ es : List (Element ν),
    mapAllAttrs f es = .error fault → ∃ v ∈ allValues es, f v = .error fault
  | [] => by
    intro h
    cases h
  | e :: es => by
    intro h
    rw [mapAllAttrs] at h
    rw [allValues]
    obtain h | h := both_eq_error h
    · obtain ⟨v, hv, hfault⟩ := mapAttrs_error e h
      exact ⟨v, List.mem_append_left _ hv, hfault⟩
    · obtain ⟨v, hv, hfault⟩ := mapAllAttrs_error es h
      exact ⟨v, List.mem_append_right _ hv, hfault⟩

end

end Written

end Element

section Numbers

variable {α : Type}

def Piece.number? : Piece α → Option α
  | text _ => none
  | number x => some x

def numbersIn (v : Value α) : List α := v.filterMap Piece.number?

theorem writeValue_ok_iff {write : α → Except Fault String} (v : Value α) :
    (∃ text, writeValue write v = .ok text) ↔ ∀ x ∈ numbersIn v, ∃ text, write x = .ok text := by
  induction v with
  | nil => exact iff_of_true ⟨"", rfl⟩ (by simp [numbersIn])
  | cons piece v ih =>
    cases piece with
    | text s =>
      rw [writeValue, map_ok_iff, ih, numbersIn, numbersIn, List.filterMap_cons_none rfl]
    | number x =>
      have hnumber : (Piece.number x).number? = some x := rfl
      rw [writeValue, both_ok_iff, ih, numbersIn, numbersIn, List.filterMap_cons_some hnumber,
        List.forall_mem_cons]

theorem writeValue_error {write : α → Except Fault String} {v : Value α} {fault : Fault}
    (h : writeValue write v = .error fault) : ∃ x, write x = .error fault := by
  induction v with
  | nil => cases h
  | cons piece v ih =>
    cases piece with
    | text s =>
      rw [writeValue] at h
      exact ih (map_eq_error h)
    | number x =>
      rw [writeValue] at h
      obtain h | h := both_eq_error h
      · exact ⟨x, h⟩
      · exact ih h

/-- The numbers that are written into a drawing. -/
def Element.numbers (e : Element (Value α)) : List α := e.values.flatMap numbersIn

end Numbers

/-- A picture can be rendered exactly if all numbers in its drawing are finite. -/
theorem render_ok_iff (style : Style) (p : Picture Float) : (∃ text, render style p = .ok text) ↔
    ∀ x ∈ (picture style p).numbers, Decimal.Finite x := by
  rw [render, map_ok_iff, tree, Element.mapAttrs_ok_iff, Element.numbers]
  simp only [writeValue_ok_iff, coordinate_ok_iff, List.mem_flatMap]
  constructor
  · rintro h x ⟨v, hv, hx⟩
    exact h v hv x hx
  · intro h v hv x hx
    exact h x ⟨v, hv, hx⟩

theorem render_error {style : Style} {p : Picture Float} {fault : Fault} (h : render style p = .error fault) :
    fault = .notANumber ∨ fault = .infinite := by
  rw [render] at h
  obtain ⟨v, -, hv⟩ := Element.mapAttrs_error _ (map_eq_error h)
  obtain ⟨x, hx⟩ := writeValue_error hv
  exact coordinate_error hx

section Items

variable {α : Type}

theorem numbers_node (tag text : String) (attrs : List (String × Value α)) (children : List (Element (Value α))) :
    (Element.node tag attrs text children).numbers =
      attrs.flatMap (fun a => numbersIn a.2) ++ children.flatMap Element.numbers := by
  rw [Element.numbers, Element.values, Element.allValues_eq_flatMap, List.flatMap_append, List.flatMap_map,
    List.flatMap_assoc]
  rfl

theorem numbersIn_plain (s : String) : numbersIn (plain s : Value α) = [] := rfl

theorem numbersIn_number (x : α) : numbersIn (number x) = [x] := rfl

def pointNumbers (p : Point α) : List α := [p.x, p.y]

theorem numbersIn_pathData (path : List (Point α)) : numbersIn (pathData path) = path.flatMap pointNumbers := by
  cases path with
  | nil => rfl
  | cons p ps =>
    have hrest : (ps.flatMap fun q => Piece.text " L " :: pair " " q).filterMap Piece.number? =
        ps.flatMap pointNumbers := by
      rw [List.filterMap_flatMap]
      rfl
    rw [pathData, numbersIn, List.filterMap_append, hrest]
    rfl

def figureNumbers : Figure α → List α
  | .circle center radius => [center.x, center.y, radius]
  | .diamond top right bottom left => [top, right, bottom, left].flatMap pointNumbers
  | .rectangle corner width height => [corner.x, corner.y, width, height]

/-- The texts that an item shows. -/
def itemTexts : Item α → List String
  | .line _ => []
  | .caption _ text => shownText text
  | .node _ _ _ _ _ label actor => shownText label ++ actor.toList.flatMap shownText

variable [Scalar α]

theorem texts_image (style : Style) (item : Item α) : (image style item).texts = itemTexts item := by
  cases item with
  | line path => rfl
  | caption center text => exact texts_centered ..
  | node id kind figure box center label actor =>
    have hfigure : (figureImage kind figure).texts = [] := by cases figure <;> rfl
    have hactor (name : String) : (cornered style box name).texts = shownText name := by
      rw [cornered, Element.texts, Element.allTexts, List.append_nil]
    rw [image, Element.texts, Element.allTexts, hfigure, Element.allTexts, texts_centered, itemTexts]
    cases actor with
    | none => rfl
    | some name =>
      simp only [Option.map_some, Option.toList_some, Element.allTexts, hactor, List.flatMap_singleton,
        List.append_nil]
      rfl

/-- The numbers that the drawing of an item gives. -/
def itemNumbers : Item α → List α
  | .line path => path.flatMap pointNumbers
  | .caption center _ => pointNumbers center
  | .node _ _ figure box center _ actor => figureNumbers figure ++ pointNumbers center ++
    if actor.isSome then [box.right - ((5 : Nat) : α), box.bottom - ((5 : Nat) : α)] else []

theorem numbers_image (style : Style) (item : Item α) : (image style item).numbers = itemNumbers item := by
  cases item with
  | line path => simp [image, leaf, numbers_node, numbersIn_plain, numbersIn_pathData, itemNumbers]
  | caption center text =>
    simp [image, centered, numbers_node, numbersIn_plain, numbersIn_number, itemNumbers, pointNumbers]
  | node id kind figure box center label actor =>
    have hfigure : (figureImage kind figure).numbers = figureNumbers figure := by
      cases figure <;> rfl
    have hcenter : (centered center style.fontSize style.textColor label : Element (Value α)).numbers =
      pointNumbers center := rfl
    simp only [image, numbers_node, List.flatMap_cons, numbersIn_plain, hfigure, hcenter, itemNumbers]
    cases actor <;> simp [numbersIn_plain, cornered, numbers_node, numbersIn_number]

theorem numbers_diagram (style : Style) (d : Diagram α) : (diagram style d).numbers =
    [d.width, d.height, d.width, d.height] ++ d.items.flatMap itemNumbers := by
  have hmarker : (arrowMarker style : Element (Value α)).numbers = [] := rfl
  have hitems : (d.items.map (image style)).flatMap Element.numbers = d.items.flatMap itemNumbers := by
    rw [List.flatMap_map]
    exact congrArg (List.flatMap · d.items) (funext (numbers_image style))
  simp only [diagram_eq, root, numbers_node, List.flatMap_cons, hmarker, hitems]
  rfl

end Items

end FlowDiagram.Svg
