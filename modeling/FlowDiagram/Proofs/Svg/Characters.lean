import FlowDiagram.Proofs.Flow.Form
import FlowDiagram.Proofs.Svg.Attributes

namespace FlowDiagram

def Item.id? {α : Type} : Item α → Option String
  | line _ => none
  | caption _ _ => none
  | node id _ _ _ _ _ _ => some id

/-- The texts that an item shows, one after the other. -/
def Item.content {α : Type} : Item α → List Char
  | line _ => []
  | caption _ text => text.toList
  | node _ _ _ _ _ label actor => label.toList ++ actor.toList.flatMap String.toList

def Picture.content {α : Type} [Scalar α] : Picture α → List Char
  | diagram d => d.items.flatMap Item.content
  | message text => text.toList

namespace Svg

/-- The characters that a document of markup may have. -/
def isLegal (c : Char) : Bool :=
  Text.inRanges [(0x09, 0x0A), (0x0D, 0x0D), (0x20, 0xD7FF), (0xE000, 0xFFFD), (0x10000, 0x10FFFF)] c.toNat

def Legal (s : String) : Prop := s.toList.all isLegal = true

theorem legal_iff {s : String} : Legal s ↔ ∀ c ∈ s.toList, isLegal c = true := List.all_eq_true

theorem Legal.append {s t : String} (hs : Legal s) (ht : Legal t) : Legal (s ++ t) := by
  rw [legal_iff, String.toList_append, List.forall_mem_append]
  exact ⟨legal_iff.mp hs, legal_iff.mp ht⟩

theorem isLegal_of_isWordChar {c : Char} (h : isWordChar c = true) : isLegal c = true := by
  have hn := toNat_of_isWordChar h
  simp only [isLegal, Text.inRanges, List.any_cons, List.any_nil, Bool.or_false, Bool.or_eq_true, Bool.and_eq_true,
    decide_eq_true_eq]
  omega

theorem isLegal_of_isDigit {c : Char} (h : c.isDigit = true) : isLegal c = true := by
  refine isLegal_of_isWordChar ((isWordChar_iff c).mpr (.inl ?_))
  rw [Char.isAlphanum, h, Bool.or_true]

theorem isLegal_of_isNameChar {c : Char} (h : isNameChar c = true) : isLegal c = true := by
  rw [isNameChar, Bool.or_eq_true, decide_eq_true_eq] at h
  obtain h | rfl := h
  · exact isLegal_of_isWordChar ((isWordChar_iff c).mpr (.inl h))
  · rfl

theorem isLegal_toDigits (n : Nat) : ∀ c ∈ Nat.toDigits 10 n, isLegal c = true :=
  fun _ hc => isLegal_of_isDigit (Nat.isDigit_of_mem_toDigits (by decide) (by decide) hc)

theorem isLegal_digitChar {n : Nat} (h : n < 10) : isLegal n.digitChar = true :=
  isLegal_of_isDigit (Nat.isDigit_digitChar.trans (decide_eq_true h))

theorem isLegal_decimals {n : Nat} (h : n < 1000) : ∀ c ∈ decimals n, isLegal c = true := by
  have hpoint : isLegal '.' = true := rfl
  have hfirst : isLegal (n / 100).digitChar = true := isLegal_digitChar (by omega)
  have hsecond : isLegal (n / 10 % 10).digitChar = true := isLegal_digitChar (by omega)
  have hthird : isLegal (n % 10).digitChar = true := isLegal_digitChar (by omega)
  rw [decimals]
  split_ifs
  · simp
  · exact List.forall_mem_cons.mpr ⟨hpoint, isLegal_toDigits _⟩
  · simp [hpoint, hfirst, hsecond]
  · simp [hpoint, hfirst, hsecond, hthird]

theorem isLegal_signed {negative : Bool} {cs : List Char} (h : ∀ c ∈ cs, isLegal c = true) :
    ∀ c ∈ signed negative cs, isLegal c = true := by
  rw [signed]
  split
  · exact List.forall_mem_cons.mpr ⟨rfl, h⟩
  · exact h

theorem legal_coordinate {x : Float} {text : String} (h : coordinate x = .ok text) : Legal text := by
  rw [coordinate] at h
  split at h
  · obtain rfl := Except.ok.inj h
    rw [legal_iff, String.toList_ofList, writeWith]
    dsimp only
    split
    · exact isLegal_signed (isLegal_toDigits _)
    · exact isLegal_signed (List.forall_mem_append.mpr
        ⟨isLegal_toDigits _, isLegal_decimals (Nat.mod_lt _ (by decide))⟩)
  · cases h
  · cases h

theorem legal_toString (n : Int) : Legal (toString n) := by
  have hnat : ∀ m : Nat, Legal m.repr := by
    intro m
    rw [Nat.repr_eq_ofList_toDigits, legal_iff, String.toList_ofList]
    exact isLegal_toDigits m
  cases n with
  | ofNat m => exact hnat m
  | negSucc m => exact Legal.append rfl (hnat m.succ)

theorem forall_isLegal_iff {cs : List Char} :
    (∀ c ∈ cs, isLegal c = true) ↔ ∀ x, isLegal x = false → x ∉ cs := by
  refine forall_congr' fun x => ?_
  cases isLegal x <;> simp

section Illegal

variable {x : Char} (hx : isLegal x = false)
include hx

theorem not_mem_of_isLegal {cs : List Char} (hcs : ∀ c ∈ cs, isLegal c = true) : x ∉ cs :=
  forall_isLegal_iff.mp hcs x hx

/-- Escapes neither make an illegal character nor undo one. -/
theorem mem_flatMap_escape {escapes : List (List Char × Char)} {escape : Char → List Char}
    (h : Undoes escapes escape) (hlegal : (escapes.all fun e => (e.2 :: e.1).all isLegal) = true) (cs : List Char) :
    x ∈ cs.flatMap escape ↔ x ∈ cs := by
  have hescape : ∀ c, x ∈ escape c ↔ x = c := by
    intro c
    obtain ⟨-, hc⟩ | ⟨name, -, hlookup, hc⟩ := h c
    · rw [hc, List.mem_singleton]
    · obtain ⟨before, after, heq, -⟩ := List.lookup_eq_some_iff.mp hlookup
      have hentry := List.all_eq_true.mp (List.all_eq_true.mp hlegal (name, c) (by simp [heq]))
      have hwritten : ∀ d ∈ '&' :: name ++ [';'], isLegal d = true := by
        simp only [List.cons_append, List.forall_mem_cons, List.forall_mem_append]
        exact ⟨rfl, fun d hd => hentry d (List.mem_cons_of_mem c hd), rfl, by simp⟩
      rw [hc]
      refine iff_of_false (not_mem_of_isLegal hx hwritten) ?_
      rintro rfl
      exact not_mem_of_isLegal hx hentry List.mem_cons_self
  rw [List.mem_flatMap]
  constructor
  · rintro ⟨c, hc, hmem⟩
    rwa [(hescape c).mp hmem]
  · intro hmem
    exact ⟨x, hmem, (hescape x).mpr rfl⟩

theorem mem_escapeText (cs : List Char) : x ∈ cs.flatMap Element.escapeText ↔ x ∈ cs :=
  mem_flatMap_escape hx undoes_text rfl cs

theorem not_mem_of_isName {s : String} (h : IsName s) : x ∉ s.toList :=
  not_mem_of_isLegal hx fun c hc => isLegal_of_isNameChar (List.all_eq_true.mp h c hc)

theorem mem_writeAttr {a : String × String} (h : IsName a.1) : x ∈ Element.writeAttr a ↔ x ∈ a.2.toList := by
  have hmarks : x ≠ ' ' ∧ x ≠ '=' ∧ x ≠ '"' := by
    refine ⟨?_, ?_, ?_⟩ <;> rintro rfl <;> cases hx
  have hvalue := mem_flatMap_escape hx undoes_attr rfl a.2.toList
  simp [Element.writeAttr, not_mem_of_isName hx h, hvalue, hmarks]

theorem mem_writeAttrs {attrs : List (String × String)} (h : ∀ a ∈ attrs, IsName a.1) :
    x ∈ attrs.flatMap Element.writeAttr ↔ x ∈ (attrs.map (·.2)).flatMap String.toList := by
  rw [List.flatMap_map, List.mem_flatMap, List.mem_flatMap]
  exact exists_congr fun a => and_congr_right fun ha => mem_writeAttr hx (h a ha)

end Illegal

theorem flatMap_shownText (text : String) : (shownText text).flatMap String.toList = text.toList := by
  rw [shownText]
  split
  · next h => simp [h]
  · simp

mutual

/-- The illegal characters of a written tree are those of its attribute values and of its texts. -/
theorem mem_write {x : Char} (hx : isLegal x = false) : ∀ {e : Element String}, e.Named →
    (x ∈ e.write ↔ x ∈ e.values.flatMap String.toList ∨ x ∈ e.texts.flatMap String.toList)
  | .node tag attrs text children, .node htag hattrs hchildren => by
    have htag := not_mem_of_isName hx htag
    have hattrs := mem_writeAttrs hx hattrs
    have htext := mem_escapeText hx text.toList
    have hall := mem_writeAll hx hchildren
    have hmarks : x ≠ '<' ∧ x ≠ '>' ∧ x ≠ '/' ∧ x ≠ ' ' := by
      refine ⟨?_, ?_, ?_, ?_⟩ <;> rintro rfl <;> cases hx
    rw [Element.write, Element.values, Element.texts, List.flatMap_append, List.flatMap_append, flatMap_shownText]
    split
    · next hempty =>
      obtain ⟨rfl, hnone⟩ := hempty
      obtain rfl := List.eq_nil_of_length_eq_zero hnone
      simp [htag, hattrs, hmarks, Element.allValues, Element.allTexts]
    · simp [htag, hattrs, hmarks, htext, hall, or_assoc, or_left_comm]

theorem mem_writeAll {x : Char} (hx : isLegal x = false) : ∀ {es : List (Element String)}, (∀ e ∈ es, e.Named) →
    (x ∈ Element.writeAll es ↔
      x ∈ (Element.allValues es).flatMap String.toList ∨ x ∈ (Element.allTexts es).flatMap String.toList)
  | [], _ => by simp [Element.writeAll, Element.allValues, Element.allTexts]
  | e :: es, h => by
    obtain ⟨hfirst, hrest⟩ := List.forall_mem_cons.mp h
    rw [Element.writeAll, Element.allValues, Element.allTexts, List.mem_append, mem_write hx hfirst,
      mem_writeAll hx hrest, List.flatMap_append, List.flatMap_append, List.mem_append, List.mem_append,
      or_or_or_comm]

end

section Values

variable {α : Type}

def LegalValue (v : Value α) : Prop := ∀ s, Piece.text s ∈ v → Legal s

theorem LegalValue.plain {s : String} (h : Legal s) : LegalValue (plain s : Value α) := by
  intro t ht
  obtain rfl := Piece.text.inj (List.mem_singleton.mp ht)
  exact h

theorem LegalValue.number (x : α) : LegalValue (number x) := by
  intro t ht
  cases List.mem_singleton.mp ht

theorem LegalValue.append {v w : Value α} (hv : LegalValue v) (hw : LegalValue w) : LegalValue (v ++ w) :=
  fun s hs => (List.mem_append.mp hs).elim (hv s) (hw s)

theorem LegalValue.pair {between : String} (h : Legal between) (p : Point α) : LegalValue (pair between p) :=
  (LegalValue.number p.x).append ((LegalValue.plain h).append (.number p.y))

theorem LegalValue.separated {between : String} (h : Legal between) {vs : List (Value α)}
    (hvs : ∀ v ∈ vs, LegalValue v) : LegalValue (separated between vs) := by
  induction vs with
  | nil => exact nofun
  | cons v vs ih =>
    obtain ⟨hv, hvs⟩ := List.forall_mem_cons.mp hvs
    cases vs with
    | nil => exact hv
    | cons w ws => exact hv.append ((LegalValue.plain h).append (ih hvs))

theorem LegalValue.pathData (ps : List (Point α)) : LegalValue (pathData ps) := by
  have hblank : Legal " " := rfl
  cases ps with
  | nil => exact nofun
  | cons p ps =>
    refine .append (v := .text "M " :: Svg.pair " " p) ((LegalValue.plain (s := "M ") rfl).append (.pair hblank p)) ?_
    intro s hs
    obtain ⟨q, -, hs⟩ := List.mem_flatMap.mp hs
    exact (LegalValue.plain (s := " L ") rfl).append (.pair hblank q) s hs

theorem LegalValue.write {v : Value Float} (hv : LegalValue v) {text : String}
    (h : writeValue coordinate v = .ok text) : Legal text := by
  induction v generalizing text with
  | nil =>
    obtain rfl := Except.ok.inj h
    rfl
  | cons piece v ih =>
    have hrest : LegalValue v := fun s hs => hv s (List.mem_cons_of_mem piece hs)
    cases piece with
    | text s =>
      obtain ⟨rest, hwritten, h⟩ := bind_eq_ok h
      obtain rfl := Except.ok.inj h
      exact (hv s List.mem_cons_self).append (ih hrest hwritten)
    | number x =>
      obtain ⟨first, hx, h⟩ := bind_eq_ok h
      obtain ⟨rest, hwritten, h⟩ := bind_eq_ok h
      obtain rfl := Except.ok.inj h
      exact (legal_coordinate hx).append (ih hrest hwritten)

end Values

structure Style.Legal (style : Style) : Prop where
  fontFamily : Svg.Legal style.fontFamily
  lineColor : Svg.Legal style.lineColor
  textColor : Svg.Legal style.textColor
  actorColor : Svg.Legal style.actorColor
  errorColor : Svg.Legal style.errorColor

theorem legal_default : ({} : Style).Legal := ⟨rfl, rfl, rfl, rfl, rfl⟩

namespace Element

variable {α : Type}

def LegalValues (e : Element (Value α)) : Prop := ∀ v ∈ e.values, LegalValue v

theorem LegalValues.node {tag text : String} {attrs : List (String × Value α)} {children : List (Element (Value α))}
    (hattrs : ∀ v ∈ attrs.map (·.2), LegalValue v) (hchildren : ∀ e ∈ children, e.LegalValues) :
    (Element.node tag attrs text children).LegalValues := by
  rw [LegalValues, values, allValues_eq_flatMap, List.forall_mem_append]
  refine ⟨hattrs, fun v hv => ?_⟩
  obtain ⟨e, he, hv⟩ := List.mem_flatMap.mp hv
  exact hchildren e he v hv

end Element

section Elements

open Element (LegalValues)

variable {α : Type} [Scalar α] {style : Style}

omit [Scalar α] in
theorem legal_paint (k : Kind) : ∀ v ∈ (paint k : List (String × Value α)).map (·.2), LegalValue v := by
  have hcolors : Legal k.fill ∧ Legal k.stroke := by cases k <;> exact ⟨rfl, rfl⟩
  simp only [paint, List.map_cons, List.map_nil, List.forall_mem_cons]
  exact ⟨.plain hcolors.1, .plain hcolors.2, .plain rfl, by simp⟩

omit [Scalar α] in
theorem legal_centered (p : Point α) (size : Int) {color : String} (h : Legal color) (text : String) :
    (centered p size color text).LegalValues := by
  refine .node ?_ (by simp)
  simp only [List.map_cons, List.map_nil, List.forall_mem_cons]
  exact ⟨.number p.x, .number p.y, .plain rfl, .plain rfl, .plain (legal_toString size), .plain h, by simp⟩

theorem legal_cornered (h : style.Legal) (box : Raster.Box α) (text : String) :
    (cornered style box text).LegalValues := by
  refine .node ?_ (by simp)
  simp only [List.map_cons, List.map_nil, List.forall_mem_cons]
  exact ⟨.number _, .number _, .plain rfl, .plain (legal_toString _), .plain h.actorColor, .plain rfl, by simp⟩

omit [Scalar α] in
theorem legal_figureImage (k : Kind) (figure : Figure α) : (figureImage k figure).LegalValues := by
  cases figure with
  | circle center radius =>
    refine .node ?_ (by simp)
    rw [List.map_append, List.forall_mem_append]
    refine ⟨?_, legal_paint k⟩
    simp only [List.map_cons, List.map_nil, List.forall_mem_cons]
    exact ⟨.number center.x, .number center.y, .number radius, by simp⟩
  | diamond top right bottom left =>
    have hmarks : Legal " " ∧ Legal "," := ⟨rfl, rfl⟩
    refine .node (List.forall_mem_cons.mpr ⟨.separated hmarks.1 ?_, legal_paint k⟩) (by simp)
    rw [List.forall_mem_map]
    exact fun p _ => .pair hmarks.2 p
  | rectangle corner width height =>
    refine .node ?_ (by simp)
    rw [List.map_append, List.forall_mem_append]
    refine ⟨?_, legal_paint k⟩
    simp only [List.map_cons, List.map_nil, List.forall_mem_cons]
    exact ⟨.number corner.x, .number corner.y, .number width, .number height, .plain rfl, .plain rfl, by simp⟩

theorem legal_image (h : style.Legal) {item : Item α} (hid : ∀ id, item.id? = some id → Legal id) :
    (image style item).LegalValues := by
  cases item with
  | line path =>
    refine .node ?_ (by simp)
    simp only [List.map_cons, List.map_nil, List.forall_mem_cons]
    exact ⟨.pathData path, .plain h.lineColor, .plain rfl, .plain rfl, .plain rfl, by simp⟩
  | caption center text => exact legal_centered center _ h.textColor text
  | node id kind figure box center label actor =>
    have hword : Legal kind.word := by cases kind <;> rfl
    refine .node ?_ ?_
    · simp only [List.map_cons, List.map_nil, List.forall_mem_cons]
      exact ⟨.plain (hid id rfl), .plain (.append rfl hword), by simp⟩
    · simp only [List.forall_mem_cons, Option.mem_toList, Option.map_eq_some_iff]
      refine ⟨legal_figureImage kind figure, legal_centered center _ h.textColor label, ?_⟩
      rintro e ⟨name, -, rfl⟩
      exact legal_cornered h box name

omit [Scalar α] in
theorem legal_arrowMarker (h : style.Legal) : (arrowMarker style : Element (Value α)).LegalValues := by
  refine .node (by simp) (List.forall_mem_singleton.mpr (.node ?_ ?_))
  · simp only [List.map_cons, List.map_nil, List.forall_mem_cons]
    exact ⟨.plain rfl, .plain rfl, .plain rfl, .plain rfl, .plain rfl, .plain rfl, .plain rfl, by simp⟩
  · refine List.forall_mem_singleton.mpr (.node ?_ (by simp))
    simp only [List.map_cons, List.map_nil, List.forall_mem_cons]
    exact ⟨.plain rfl, .plain h.lineColor, by simp⟩

theorem legal_picture (h : style.Legal) {p : Picture α}
    (hids : ∀ d, p.diagram? = some d → ∀ n ∈ d.nodes, Legal n.id) : (picture style p).LegalValues := by
  cases p with
  | message text =>
    refine .node ?_ (List.forall_mem_singleton.mpr (.node ?_ (by simp)))
    · simp only [List.map_cons, List.map_nil, List.forall_mem_cons]
      exact ⟨.plain rfl, .plain rfl, .plain rfl, .plain h.fontFamily, by simp⟩
    · simp only [List.map_cons, List.map_nil, List.forall_mem_cons]
      exact ⟨.plain rfl, .plain rfl, .plain (legal_toString _), .plain h.errorColor, by simp⟩
  | diagram d =>
    have hblank : Legal " " := rfl
    rw [picture, diagram_eq]
    refine .node ?_ (List.forall_mem_cons.mpr ⟨legal_arrowMarker h, ?_⟩)
    · simp only [canvas, List.map_cons, List.map_nil, List.forall_mem_cons]
      refine ⟨.plain rfl, .number d.width, .number d.height, ?_, .plain h.fontFamily, by simp⟩
      exact (LegalValue.plain (s := "0 0 ") rfl).append (.pair hblank ⟨d.width, d.height⟩)
    · rw [List.forall_mem_map]
      intro item hitem
      refine legal_image h ?_
      obtain hedge | hnode := List.mem_append.mp hitem
      · obtain ⟨e, -, hitem⟩ := List.mem_flatMap.mp hedge
        intro id hid
        obtain rfl | ⟨p, -, rfl⟩ := RoutedEdge.item_cases hitem <;> cases hid
      · obtain ⟨n, hn, rfl⟩ := List.mem_map.mp hnode
        intro id hid
        exact Option.some.inj hid ▸ hids d rfl n hn

theorem content_picture (p : Picture α) : (picture style p).texts.flatMap String.toList = p.content := by
  cases p with
  | message text => rw [texts_picture, Picture.texts, flatMap_shownText, Picture.content]
  | diagram d =>
    have hmarker : (arrowMarker style : Element (Value α)).texts = [] := rfl
    have hitem : ∀ item : Item α, (image style item).texts.flatMap String.toList = item.content := by
      intro item
      rw [texts_image]
      cases item with
      | line path => rfl
      | caption center text => exact flatMap_shownText text
      | node id kind figure box center label actor =>
        simp only [itemTexts, Item.content, List.flatMap_append, List.flatMap_assoc, flatMap_shownText]
    rw [picture, diagram_eq, root, Element.texts, Element.allTexts, hmarker, Element.allTexts_eq_flatMap,
      List.flatMap_append, flatMap_shownText, List.flatMap_append, List.flatMap_assoc, List.flatMap_map,
      Picture.content]
    exact congrArg (List.flatMap · d.items) (funext hitem)

end Elements

/-- The illegal characters of a drawing are those of the texts that the picture shows. -/
theorem mem_render {style : Style} (hstyle : style.Legal) {p : Picture Float}
    (hids : ∀ d, p.diagram? = some d → ∀ n ∈ d.nodes, Legal n.id) {drawing : String} (h : render style p = .ok drawing)
    {x : Char} (hx : isLegal x = false) : x ∈ drawing.toList ↔ x ∈ p.content := by
  obtain ⟨e, he, h⟩ := bind_eq_ok h
  obtain rfl := Except.ok.inj h
  have hattributes := Element.mapAttrs_attributes he
  have hlegal : ∀ a ∈ e.attributes, Legal a.value := by
    refine forall_of_mapM hattributes fun a ha b hab => ?_
    obtain ⟨v, hv, hab⟩ := bind_eq_ok hab
    obtain rfl := Except.ok.inj hab
    refine (legal_picture hstyle hids a.value ?_).write hv
    rw [Element.values_eq]
    exact List.mem_map_of_mem ha
  have hvalues : x ∉ e.values.flatMap String.toList := by
    rw [Element.values_eq, List.flatMap_map, List.mem_flatMap]
    rintro ⟨a, ha, hmem⟩
    exact not_mem_of_isLegal hx (legal_iff.mp (hlegal a ha)) hmem
  obtain ⟨-, hnamed, htexts⟩ := Element.mapAttrs_spec he
  rw [String.toList_ofList, mem_write hx (hnamed (named_picture style p)), or_iff_right hvalues, htexts,
    content_picture]

end Svg

end FlowDiagram
