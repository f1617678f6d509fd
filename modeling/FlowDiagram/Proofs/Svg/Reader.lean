import FlowDiagram.Proofs.Text.Line
import FlowDiagram.Svg.Reader

namespace FlowDiagram.Svg

/-- Every character is written as it is, or as an escape that the table undoes. -/
def Undoes (escapes : List (List Char × Char)) (escape : Char → List Char) : Prop :=
  ∀ c, (c ≠ '&' ∧ escape c = [c]) ∨
    ∃ name, ';' ∉ name ∧ escapes.lookup name = some c ∧ escape c = '&' :: name ++ [';']

theorem undoes_text : Undoes textEscapes Element.escapeText := by
  intro c
  by_cases hamp : c = '&'
  · subst hamp
    exact .inr ⟨"amp".toList, by decide, rfl, rfl⟩
  by_cases hlt : c = '<'
  · subst hlt
    exact .inr ⟨"lt".toList, by decide, rfl, rfl⟩
  by_cases hgt : c = '>'
  · subst hgt
    exact .inr ⟨"gt".toList, by decide, rfl, rfl⟩
  · exact .inl ⟨hamp, by simp [Element.escapeText, hamp, hlt, hgt]⟩

theorem undoes_attr : Undoes attrEscapes Element.escapeAttr := by
  intro c
  by_cases hquot : c = '"'
  · subst hquot
    exact .inr ⟨"quot".toList, by decide, rfl, rfl⟩
  by_cases hcr : c = '\r'
  · subst hcr
    exact .inr ⟨"#13".toList, by decide, rfl, rfl⟩
  by_cases hlf : c = '\n'
  · subst hlf
    exact .inr ⟨"#10".toList, by decide, rfl, rfl⟩
  by_cases htab : c = '\t'
  · subst htab
    exact .inr ⟨"#09".toList, by decide, rfl, rfl⟩
  · have hplain : Element.escapeAttr c = Element.escapeText c := by
      simp [Element.escapeAttr, hquot, hcr, hlf, htab]
    rw [hplain]
    obtain h | ⟨name, hname, hlookup, h⟩ := undoes_text c
    · exact .inl h
    · refine .inr ⟨name, hname, ?_, h⟩
      -- The shorter table is the end of the longer one, whose other names are no names of texts.
      rw [attrEscapes, List.lookup_append, hlookup]
      have hmem : name ∈ textEscapes.map (·.1) := by
        obtain ⟨before, after, heq, -⟩ := List.lookup_eq_some_iff.mp hlookup
        rw [heq]
        simp
      have hfresh : ∀ n ∈ textEscapes.map (·.1), [("quot".toList, '"'), ("#13".toList, '\r'),
          ("#10".toList, '\n'), ("#09".toList, '\t')].lookup n = none := by decide
      rw [hfresh name hmem]
      rfl

theorem unescapeFrom_name (escapes : List (List Char × Char)) (rest : List Char) {name : List Char}
    (h : ';' ∉ name) (before : List Char) : unescapeFrom escapes (some before) (name ++ rest) =
      unescapeFrom escapes (some (before ++ name)) rest := by
  induction name generalizing before with
  | nil => simp
  | cons c name ih =>
    rw [List.mem_cons, not_or] at h
    rw [List.cons_append, unescapeFrom, if_neg (Ne.symm h.1), ih h.2, List.append_assoc]
    rfl

theorem unescape_flatMap {escapes : List (List Char × Char)} {escape : Char → List Char}
    (h : Undoes escapes escape) (s : String) : unescape escapes (s.toList.flatMap escape) = some s := by
  have hall : ∀ cs : List Char, unescapeFrom escapes none (cs.flatMap escape) = some cs := by
    intro cs
    induction cs with
    | nil => rfl
    | cons c cs ih =>
      rw [List.flatMap_cons]
      obtain ⟨hamp, hc⟩ | ⟨name, hname, hlookup, hc⟩ := h c
      · rw [hc, List.singleton_append, unescapeFrom, if_neg hamp, ih]
        rfl
      · rw [hc, List.cons_append, List.cons_append, unescapeFrom, if_pos rfl, List.append_assoc,
          unescapeFrom_name escapes _ hname, List.nil_append, List.singleton_append, unescapeFrom,
          if_pos rfl, hlookup, ih]
        rfl
  rw [unescape, hall, Option.map_some, String.ofList_toList]

theorem mark_not_mem_escapeText {mark : Char} (h : mark = '<' ∨ mark = '>') (c : Char) :
    mark ∉ Element.escapeText c := by
  unfold Element.escapeText
  obtain rfl | rfl := h <;> split_ifs <;> simp_all [eq_comm]

theorem mark_not_mem_escapeAttr {mark : Char} (h : mark = '<' ∨ mark = '>' ∨ mark = '"') (c : Char) :
    mark ∉ Element.escapeAttr c := by
  unfold Element.escapeAttr Element.escapeText
  obtain rfl | rfl | rfl := h <;> split_ifs <;> simp_all [eq_comm]

theorem not_mem_flatMap {mark : Char} {escape : Char → List Char} (h : ∀ c, mark ∉ escape c)
    (cs : List Char) : mark ∉ cs.flatMap escape := by
  rw [List.mem_flatMap]
  rintro ⟨c, -, hc⟩
  exact h c hc

/-- A text in which every part is marked comes apart at the marks. -/
theorem splitOn_marked {mark : Char} {parts : List (List Char)} (h : ∀ p ∈ parts, mark ∉ p) :
    (parts.flatMap (mark :: ·)).splitOn mark = [] :: parts := by
  have hrest : ∀ (parts : List (List Char)) (p : List Char), mark ∉ p → (∀ q ∈ parts, mark ∉ q) →
      (p ++ parts.flatMap (mark :: ·)).splitOn mark = p :: parts := by
    intro parts
    induction parts with
    | nil =>
      intro p hp _
      rw [List.flatMap_nil, List.append_nil, List.splitOn_eq_singleton hp]
    | cons q parts ih =>
      intro p hp hq
      rw [List.flatMap_cons, List.cons_append, List.splitOn_append_cons_self_of_not_mem hp,
        ih q (hq q List.mem_cons_self) fun r hr => hq r (List.mem_cons_of_mem q hr)]
  exact hrest parts [] List.not_mem_nil h

def isNameChar (c : Char) : Bool := c.isAlphanum || c = '-'

/-- Names of tags and attributes hold letters, digits and hyphens. -/
def IsName (s : String) : Prop := s.toList.all isNameChar = true

instance (s : String) : Decidable (IsName s) := inferInstanceAs (Decidable (_ = true))

theorem IsName.not_mem {s : String} (h : IsName s) {mark : Char} (hm : isNameChar mark = false) :
    mark ∉ s.toList := by
  intro hmem
  rw [List.all_eq_true.mp h mark hmem] at hm
  cases hm

/-- All tags and attributes in the tree have names. -/
inductive Element.Named {ν : Type} : Element ν → Prop where
  | node {tag : String} {attrs : List (String × ν)} {text : String} {children : List (Element ν)}
      (tag_name : IsName tag) (attr_names : ∀ a ∈ attrs, IsName a.1)
      (children_named : ∀ e ∈ children, Named e) : Named (.node tag attrs text children)

def Tag.name : Tag → String
  | opening name _ | closing name | closed name _ => name

def Tag.attrs : Tag → List (String × String)
  | opening _ attrs | closed _ attrs => attrs
  | closing _ => []

def Tag.write : Tag → List Char
  | opening name attrs => name.toList ++ attrs.flatMap Element.writeAttr
  | closing name => '/' :: name.toList
  | closed name attrs => name.toList ++ attrs.flatMap Element.writeAttr ++ [' ', '/']

structure Tag.Named (t : Tag) : Prop where
  name : IsName t.name
  attrs : ∀ a ∈ t.attrs, IsName a.1

/-- A tag and the text behind it, up to the next tag. -/
def writePart (p : Tag × String) : List Char := p.1.write ++ '>' :: p.2.toList.flatMap Element.escapeText

theorem attrName?_name (name : List Char) : attrName? (' ' :: name ++ ['=']) = some (String.ofList name) := by
  simp [attrName?]

theorem readAttrs_write {rest : List Char} (hrest : '"' ∉ rest) (attrs : List (String × String))
    (h : ∀ a ∈ attrs, IsName a.1) {closed : Bool} (hclosed : readAttrs [rest] = some ([], closed)) :
    readAttrs ((attrs.flatMap Element.writeAttr ++ rest).splitOn '"') = some (attrs, closed) := by
  induction attrs with
  | nil =>
    rw [List.flatMap_nil, List.nil_append, List.splitOn_eq_singleton hrest]
    exact hclosed
  | cons a attrs ih =>
    have hkey : '"' ∉ ' ' :: a.1.toList ++ ['='] := by
      have hname : '"' ∉ a.1.toList := (h a List.mem_cons_self).not_mem (by decide)
      simp [hname]
    have hvalue : '"' ∉ a.2.toList.flatMap Element.escapeAttr :=
      not_mem_flatMap (mark_not_mem_escapeAttr (.inr (.inr rfl))) _
    have hsplit : (a :: attrs).flatMap Element.writeAttr ++ rest = (' ' :: a.1.toList ++ ['=']) ++
        '"' :: (a.2.toList.flatMap Element.escapeAttr ++
          '"' :: (attrs.flatMap Element.writeAttr ++ rest)) := by
      simp [Element.writeAttr]
    rw [hsplit, List.splitOn_append_cons_self_of_not_mem hkey,
      List.splitOn_append_cons_self_of_not_mem hvalue, readAttrs, attrName?_name,
      unescape_flatMap undoes_attr, ih fun b hb => h b (List.mem_cons_of_mem a hb), String.ofList_toList]
    rfl

theorem readTag_write {name : String} (hname : IsName name) {attrs : List (String × String)}
    (hattrs : ∀ a ∈ attrs, IsName a.1) {rest : List Char} (hrest : '"' ∉ rest) {closed : Bool}
    (hclosed : readAttrs [rest] = some ([], closed))
    (hstop : Text.Stops (fun c => decide (c ≠ ' ')) (attrs.flatMap Element.writeAttr ++ rest)) :
    readTag (name.toList ++ (attrs.flatMap Element.writeAttr ++ rest)) =
      some (if closed then .closed name attrs else .opening name attrs) := by
  have hblank : ∀ c ∈ name.toList, decide (c ≠ ' ') = true := by
    intro c hc
    rw [decide_eq_true_iff]
    rintro rfl
    exact hname.not_mem (by decide) hc
  have hslash : Text.Stops (fun c => decide (c = '/')) (name.toList ++
      (attrs.flatMap Element.writeAttr ++ rest)) := by
    refine Text.Stops.of_run (q := isNameChar) ?_ (List.all_eq_true.mp hname) ?_
    · intro c hc
      rw [decide_eq_false_iff_not]
      rintro rfl
      cases hc
    · intro c hc
      have hc' := hstop c hc
      simp only [decide_eq_false_iff_not, not_not] at hc'
      rw [hc']
      rfl
  rw [readTag]
  · rw [Text.takeWhile_run hblank hstop, Text.dropWhile_run hblank hstop, readAttrs_write hrest attrs hattrs hclosed,
      String.ofList_toList]
    rfl
  · intro cs hcs
    rw [hcs] at hslash
    simp at hslash

theorem Tag.Named.read {t : Tag} (h : t.Named) : readTag t.write = some t := by
  cases t with
  | closing name => rw [write, readTag, String.ofList_toList]
  | opening name attrs =>
    have hend : readAttrs [[]] = some ([], false) := rfl
    have hread := readTag_write h.name h.attrs List.not_mem_nil hend ?_
    · rw [List.append_nil] at hread
      exact hread
    · cases attrs <;> simp [Tag.attrs, Text.stops_nil, Element.writeAttr]
  | closed name attrs =>
    have hend : readAttrs [[' ', '/']] = some ([], true) := rfl
    have hread := readTag_write h.name h.attrs (by decide) hend ?_
    · rw [← List.append_assoc] at hread
      exact hread
    · cases attrs <;> simp [Tag.attrs, Element.writeAttr]

theorem Tag.Named.not_mem_write {t : Tag} (h : t.Named) {mark : Char} (hm : mark = '<' ∨ mark = '>') :
    mark ∉ t.write := by
  have hchar : isNameChar mark = false := by obtain rfl | rfl := hm <;> decide
  have hname : mark ∉ t.name.toList := h.name.not_mem hchar
  have hattrs : mark ∉ t.attrs.flatMap Element.writeAttr := by
    rw [List.mem_flatMap]
    rintro ⟨a, ha, hmem⟩
    have hkey : mark ∉ a.1.toList := (h.attrs a ha).not_mem hchar
    have hvalue : mark ∉ a.2.toList.flatMap Element.escapeAttr := by
      refine not_mem_flatMap (mark_not_mem_escapeAttr ?_) _
      obtain hm | hm := hm
      · exact .inl hm
      · exact .inr (.inl hm)
    obtain rfl | rfl := hm <;> simp [Element.writeAttr, hkey, hvalue] at hmem
  have hmarks : mark ≠ ' ' ∧ mark ≠ '/' := by obtain rfl | rfl := hm <;> decide
  cases t with
  | opening name attrs => exact List.not_mem_append hname hattrs
  | closing name => exact List.not_mem_cons_of_ne_of_not_mem hmarks.2 hname
  | closed name attrs =>
    refine List.not_mem_append (List.not_mem_append hname hattrs) ?_
    simp [hmarks.1, hmarks.2]

theorem readPart_writePart {p : Tag × String} (h : p.1.Named) : readPart (writePart p) = some p := by
  have htext : '>' ∉ p.2.toList.flatMap Element.escapeText :=
    not_mem_flatMap (mark_not_mem_escapeText (.inr rfl)) _
  rw [readPart, writePart, List.splitOn_append_cons_self_of_not_mem (h.not_mem_write (.inr rfl)),
    List.splitOn_eq_singleton htext]
  change (do return (← readTag p.1.write, ← unescape textEscapes _)) = some p
  rw [h.read, unescape_flatMap undoes_text]
  rfl

namespace Element

mutual

/-- The tags of a tree, each with the text behind it. -/
def tags : Element String → List (Tag × String)
  | node tag attrs text children =>
    if text = "" ∧ children.length = 0 then [(.closed tag attrs, "")]
    else (.opening tag attrs, text) :: (allTags children ++ [(.closing tag, "")])

def allTags : List (Element String) → List (Tag × String)
  | [] => []
  | e :: es => tags e ++ allTags es

end

mutual

theorem write_eq : ∀ e : Element String, e.write = e.tags.flatMap fun p => '<' :: writePart p
  | node tag attrs text children => by
    rw [write, tags]
    split
    · simp [writePart, Tag.write]
    · rw [writeAll_eq children]
      simp [writePart, Tag.write]

theorem writeAll_eq : ∀ es : List (Element String),
    writeAll es = (allTags es).flatMap fun p => '<' :: writePart p
  | [] => rfl
  | e :: es => by rw [writeAll, allTags, write_eq e, writeAll_eq es, List.flatMap_append]

end

mutual

/-- Taking in all tags of an element adds it to the innermost open one. -/
theorem foldlM_nest : ∀ (e outer : Element String) (es : List (Element String)),
    e.tags.foldlM nest (outer :: es) = some (add e outer :: es)
  | node tag attrs text children, outer, es => by
    rw [tags]
    split
    · rename_i h
      obtain rfl := h.1
      obtain rfl := List.eq_nil_of_length_eq_zero h.2
      rfl
    · rw [List.foldlM_cons, nest]
      change (allTags children ++ _).foldlM nest (node tag attrs text [] :: outer :: es) = _
      rw [List.foldlM_append, foldlM_nest_all children tag attrs text [] (outer :: es)]
      change List.foldlM nest (node tag attrs text ([] ++ children) :: outer :: es) [(.closing tag, "")] = _
      rw [List.nil_append, List.foldlM_cons, nest, if_pos ⟨rfl, rfl⟩]
      rfl

theorem foldlM_nest_all : ∀ (children : List (Element String)) (tag : String)
    (attrs : List (String × String)) (text : String) (before es : List (Element String)),
    (allTags children).foldlM nest (node tag attrs text before :: es) =
      some (node tag attrs text (before ++ children) :: es)
  | [], tag, attrs, text, before, es => by
    rw [allTags, List.append_nil]
    rfl
  | e :: children, tag, attrs, text, before, es => by
    rw [allTags, List.foldlM_append, foldlM_nest e]
    change (allTags children).foldlM nest (node tag attrs text (before ++ [e]) :: es) = _
    rw [foldlM_nest_all children tag attrs text (before ++ [e]) es, List.append_assoc]
    rfl

end

theorem Named.tags_named {e : Element String} (h : e.Named) : ∀ p ∈ e.tags, p.1.Named := by
  induction h with
  | @node tag attrs text children htag hattrs _ ih =>
    have hall : ∀ es : List (Element String), (∀ e ∈ es, ∀ p ∈ e.tags, p.1.Named) →
        ∀ p ∈ allTags es, p.1.Named := by
      intro es
      induction es with
      | nil => simp [allTags]
      | cons e es ihes =>
        intro hes p hp
        rw [allTags] at hp
        obtain hp | hp := List.mem_append.mp hp
        · exact hes e List.mem_cons_self p hp
        · exact ihes (fun e he => hes e (List.mem_cons_of_mem _ he)) p hp
    intro p hp
    rw [tags] at hp
    split at hp
    · obtain rfl := List.mem_singleton.mp hp
      exact ⟨htag, hattrs⟩
    · obtain rfl | hp := List.mem_cons.mp hp
      · exact ⟨htag, hattrs⟩
      · obtain hp | hp := List.mem_append.mp hp
        · exact hall children ih p hp
        · obtain rfl := List.mem_singleton.mp hp
          exact ⟨htag, by simp [Tag.attrs]⟩

/-- A tree is read from what it is written as. -/
theorem read_write {e : Element String} (h : e.Named) : read e.write = some e := by
  have hnamed := h.tags_named
  -- The marks stand before the parts and in none of them, so the text comes apart there.
  have hmarked : e.write = (e.tags.map writePart).flatMap ('<' :: ·) := by
    rw [write_eq, List.flatMap_map]
  have hfree : ∀ p ∈ e.tags.map writePart, '<' ∉ p := by
    intro p hp
    obtain ⟨t, ht, rfl⟩ := List.mem_map.mp hp
    refine List.not_mem_append ((hnamed t ht).not_mem_write (.inl rfl)) ?_
    refine List.not_mem_cons_of_ne_of_not_mem (by decide) ?_
    exact not_mem_flatMap (mark_not_mem_escapeText (.inl rfl)) _
  have hparts : (e.tags.map writePart).mapM readPart = some e.tags := by
    rw [List.mapM_map]
    have hall : ∀ ts : List (Tag × String), (∀ t ∈ ts, t.1.Named) →
        ts.mapM (readPart ∘ writePart) = some ts := by
      intro ts
      induction ts with
      | nil => intro _; rfl
      | cons t ts ih =>
        intro hts
        rw [List.mapM_cons, Function.comp_apply, readPart_writePart (hts t List.mem_cons_self),
          ih fun u hu => hts u (List.mem_cons_of_mem t hu)]
        rfl
    exact hall e.tags hnamed
  rw [read, hmarked, splitOn_marked hfree]
  change ((e.tags.map writePart).mapM readPart).bind _ = some e
  rw [hparts]
  change (e.tags.foldlM nest [node "" [] "" []]).bind _ = some e
  rw [foldlM_nest]
  rfl

end Element

end FlowDiagram.Svg
