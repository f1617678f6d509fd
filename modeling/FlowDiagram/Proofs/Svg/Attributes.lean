import FlowDiagram.Proofs.Svg.Numbers

namespace FlowDiagram.Svg

structure Attribute (ν : Type) where
  tag : String
  name : String
  value : ν

def Attribute.write {ν μ ε : Type} (f : ν → Except ε μ) (a : Attribute ν) : Except ε (Attribute μ) :=
  return ⟨a.tag, a.name, ← f a.value⟩

namespace Element

variable {ν μ : Type}

mutual

/-- All attributes, in the order of the written text. -/
def attributes : Element ν → List (Attribute ν)
  | node tag attrs _ children => attrs.map (fun a => ⟨tag, a.1, a.2⟩) ++ allAttributes children

def allAttributes : List (Element ν) → List (Attribute ν)
  | [] => []
  | e :: es => attributes e ++ allAttributes es

end

theorem allAttributes_eq_flatMap (es : List (Element ν)) : allAttributes es = es.flatMap attributes := by
  induction es with
  | nil => rfl
  | cons e es ih => rw [allAttributes, ih, List.flatMap_cons]

mutual

theorem values_eq : ∀ e : Element ν, e.values = e.attributes.map Attribute.value
  | node tag attrs text children => by
    rw [values, attributes, List.map_append, List.map_map, allValues_eq children]
    rfl

theorem allValues_eq : ∀ es : List (Element ν), allValues es = (allAttributes es).map Attribute.value
  | [] => rfl
  | e :: es => by rw [allValues, allAttributes, List.map_append, values_eq e, allValues_eq es]

end

section Written

variable {f : ν → Except Fault μ}

theorem mapM_write (tag : String) {attrs : List (String × ν)} {attrs' : List (String × μ)}
    (h : (attrs.mapM fun a => return (a.1, ← f a.2)) = .ok attrs') :
    (attrs.map fun a => (⟨tag, a.1, a.2⟩ : Attribute ν)).mapM (Attribute.write f) =
      .ok (attrs'.map fun a => ⟨tag, a.1, a.2⟩) := by
  induction attrs generalizing attrs' with
  | nil =>
    obtain rfl := Except.ok.inj h
    rfl
  | cons a attrs ih =>
    rw [List.mapM_cons] at h
    obtain ⟨b, hb, h⟩ := bind_eq_ok h
    obtain ⟨rest, hrest, h⟩ := bind_eq_ok h
    obtain ⟨v, hv, hb⟩ := bind_eq_ok hb
    obtain rfl := Except.ok.inj hb
    obtain rfl := Except.ok.inj h
    rw [List.map_cons, List.mapM_cons, ih hrest, Attribute.write, hv]
    rfl

mutual

theorem mapAttrs_attributes : ∀ {e : Element ν} {e' : Element μ}, e.mapAttrs f = .ok e' →
    e.attributes.mapM (Attribute.write f) = .ok e'.attributes
  | node tag attrs text children, e', h => by
    rw [mapAttrs] at h
    obtain ⟨attrs', hattrs, h⟩ := bind_eq_ok h
    obtain ⟨children', hchildren, h⟩ := bind_eq_ok h
    obtain rfl := Except.ok.inj h
    rw [attributes, attributes, List.mapM_append, mapM_write tag hattrs, mapAllAttrs_attributes hchildren]
    rfl

theorem mapAllAttrs_attributes : ∀ {es : List (Element ν)} {es' : List (Element μ)}, mapAllAttrs f es = .ok es' →
    (allAttributes es).mapM (Attribute.write f) = .ok (allAttributes es')
  | [], es', h => by
    obtain rfl := Except.ok.inj h
    rfl
  | e :: es, es', h => by
    rw [mapAllAttrs] at h
    obtain ⟨e', he, h⟩ := bind_eq_ok h
    obtain ⟨rest, hrest, h⟩ := bind_eq_ok h
    obtain rfl := Except.ok.inj h
    rw [allAttributes, allAttributes, List.mapM_append, mapAttrs_attributes he, mapAllAttrs_attributes hrest]
    rfl

end

end Written

end Element

end FlowDiagram.Svg
