import FlowDiagram.Proofs.Layout.Parents
import Mathlib.Algebra.Order.BigOperators.Group.List
import Mathlib.Data.Finset.Card
import Mathlib.Data.Finset.Range

namespace FlowDiagram

namespace Spacing

theorem mean_between {xs : List Rat} (hne : xs ≠ []) {lo hi : Rat} (h : ∀ x ∈ xs, lo ≤ x ∧ x ≤ hi) :
    lo ≤ xs.sum / xs.length ∧ xs.sum / xs.length ≤ hi := by
  have hlength : (0 : Rat) < xs.length := by exact_mod_cast List.length_pos_iff.mpr hne
  have hlo := List.card_nsmul_le_sum xs lo fun x hx => (h x hx).1
  have hhi := List.sum_le_card_nsmul xs hi fun x hx => (h x hx).2
  rw [nsmul_eq_mul, mul_comm] at hlo hhi
  exact ⟨(le_div_iff₀ hlength).mpr hlo, (div_le_iff₀ hlength).mpr hhi⟩

theorem wanted_within (s : Spacing Rat) {parents : Table String (List String)} {above : List String} {id : String}
    (hne : parentsIn parents above id ≠ []) {x : String → Rat} {lo hi : Rat}
    (h : ∀ p ∈ parentsIn parents above id, lo ≤ x p ∧ x p ≤ hi) (layer : List String) :
    lo ≤ s.wanted parents x above layer id ∧ s.wanted parents x above layer id ≤ hi := by
  have hparents : (parentsIn parents above id).map x ≠ [] := by simpa using hne
  have hbounds : ∀ y ∈ (parentsIn parents above id).map x, lo ≤ y ∧ y ≤ hi := by simpa using h
  have hmean := mean_between hparents hbounds
  rw [List.length_map] at hmean
  simpa only [wanted, if_neg hne] using hmean

/-- The numbers of nodes beside the first one, layer by layer. -/
def surplus (layers : List (List String)) : List Nat := layers.map fun layer => layer.length - 1

theorem sum_surplus {layers : List (List String)} (h : ∀ layer ∈ layers, layer ≠ []) :
    (surplus layers).sum + layers.length = layers.flatten.length := by
  induction layers with
  | nil => rfl
  | cons layer layers ih =>
    have hrest := ih fun l hl => h l (List.mem_cons_of_mem layer hl)
    have hfirst := List.length_pos_iff.mpr (h layer (List.mem_cons_self ..))
    simp only [surplus, List.map_cons, List.sum_cons, List.length_cons, List.flatten_cons, List.length_append]
      at hrest ⊢
    omega

theorem sum_take_surplus {layers : List (List String)} {layer : List String} {k : Nat}
    (hlayer : layers[k]? = some layer) :
    ((surplus layers).take (k + 1)).sum = ((surplus layers).take k).sum + (layer.length - 1) := by
  rw [List.take_add_one, List.sum_append, surplus, List.getElem?_map, hlayer]
  simp

end Spacing

namespace Levels.Sound

open Spacing (parentsIn inOrder mem_inOrder surplus)

variable {g : Graph} {ids : List String} {reached : Ranking} {l : Levels} {s : Spacing Rat} {x : String → Rat}

theorem wanted_within (h : Sound g ids reached l) (hg : g.Proper) (hn : ids.Nodup) {k : Nat} {above layer : List String}
    (hk : k + 1 < reached.layers.length) (habove : l.layers[k]? = some above)
    (hlayer : l.layers[k + 1]? = some layer) {lo hi : Rat} (hbounds : ∀ u ∈ above, lo ≤ x u ∧ x u ≤ hi) :
    ∀ v ∈ layer, lo ≤ s.wanted g.parents x (l.layers.take (k + 1)).flatten layer v ∧
      s.wanted g.parents x (l.layers.take (k + 1)).flatten layer v ≤ hi := by
  intro v hv
  have hlevel := (h.layered.get?_eq_some_iff v (k + 1)).mpr ⟨layer, hlayer, hv⟩
  have hd : Distance g.Joins l.start v (k + 1) :=
    (h.exhausted.distance (k + 1) layer (h.layers_reached hk ▸ hlayer) v).mp hv
  obtain ⟨u, hu⟩ := h.exists_parent hg hd
  refine s.wanted_within (List.ne_nil_of_mem hu) ?_ layer
  intro u hu
  obtain ⟨j, hj, hlevel'⟩ := h.level_parent hg hn hlevel hu
  obtain rfl := Nat.succ.inj hj
  obtain ⟨above', habove', hmem⟩ := (h.layered.get?_eq_some_iff u k).mp hlevel'
  obtain rfl := Option.some.inj (habove.symm.trans habove')
  exact hbounds u hmem

/-- A reached node stands right of the start node, and for each node beside the first ones of the rows so far by one
least distance at most. -/
theorem spread (h : Sound g ids reached l) (hg : g.Proper) (hn : ids.Nodup) (hx : s.Settles g.parents l.layers x)
    (hs : 0 ≤ s.minSpacing) {k : Nat} (hk : k < reached.layers.length) {layer : List String}
    (hlayer : l.layers[k]? = some layer) : ∀ v ∈ layer,
      x l.start ≤ x v ∧ x v ≤ x l.start + (((surplus l.layers).take (k + 1)).sum : Nat) * s.minSpacing := by
  induction k generalizing layer with
  | zero =>
    obtain ⟨rest, hfirst⟩ := h.first
    obtain rfl : [l.start] = layer := by simpa [hfirst] using hlayer
    intro v hv
    obtain rfl := List.mem_singleton.mp hv
    simp [surplus, hfirst]
  | succ k ih =>
    have hprevious : k < reached.layers.length := Nat.lt_of_succ_lt hk
    obtain ⟨above, habove⟩ : ∃ above, l.layers[k]? = some above :=
      ⟨_, (h.layers_reached hprevious).trans (List.getElem?_eq_getElem hprevious)⟩
    obtain ⟨want, hwanted⟩ : ∃ want, want = s.wanted g.parents x (l.layers.take (k + 1)).flatten layer := ⟨_, rfl⟩
    -- The layer above keeps the bounds of the layers so far, and what this layer wants lies between its nodes.
    have hwant : ∀ v ∈ layer, x l.start ≤ want v ∧
        want v ≤ x l.start + (((surplus l.layers).take (k + 1)).sum : Nat) * s.minSpacing :=
      hwanted ▸ h.wanted_within hg hn hk habove hlayer (ih hprevious habove)
    have hsettled : Spacing.Settled s.minSpacing want x (inOrder want layer) := hwanted ▸ hx (k + 1) layer hlayer
    intro v hv
    have hmem : v ∈ inOrder want layer := mem_inOrder.mpr hv
    have hpos : 1 ≤ layer.length := List.length_pos_of_mem hv
    have hlength : (inOrder want layer).length = layer.length := (List.mergeSort_perm layer _).length_eq
    constructor
    · exact (hwant v hv).1.trans (hsettled.le v hmem)
    · have hpushed := hsettled.le_add hs (Spacing.inOrder_sorted want layer) v hmem
      have hwish := (hwant v hv).2
      rw [hlength] at hpushed
      rw [Spacing.sum_take_surplus hlayer, Nat.cast_add, Nat.cast_sub hpos, Nat.cast_one]
      linarith

theorem sum_surplus_le (h : Sound g ids reached l) {k : Nat} (hk : k < reached.layers.length) :
    ((surplus l.layers).take (k + 1)).sum + reached.layers.length ≤ reached.layers.flatten.length := by
  have htake : (surplus l.layers).take reached.layers.length = surplus reached.layers := by
    rw [surplus, ← List.map_take, h.take_layers, surplus]
  have hsub := List.take_prefix_take_left (l := surplus l.layers) (show k + 1 ≤ reached.layers.length from hk)
  have hle := hsub.sublist.sum_le_sum fun _ _ => Nat.zero_le _
  rw [htake] at hle
  have hsum := Spacing.sum_surplus h.exhausted.filled
  omega

end Levels.Sound

namespace Settings

section Ranked

variable {s : Settings Rat} {doc : Document} {p : Plan Rat} {d : Diagram Rat} {start : PlacedNode Rat}
  {reached : Ranking} {x : String → Rat} {nodes : List (PlacedNode Rat)}

theorem Ranked.length_reached (h : s.Ranked doc p d start reached x) (hn : (doc.nodes.map (·.id)).Nodup)
    (hnodes : nodes.Sublist d.nodes) (hmem : ∀ v, v ∈ nodes ↔ v ∈ d.nodes ∧ doc.Reaches v.id) :
    nodes.length = reached.layers.flatten.length := by
  rw [← ids_of_declared h.declared] at hn
  have hperm : (nodes.map (·.id)).Perm reached.layers.flatten := by
    apply (List.perm_ext_iff_of_nodup (hn.sublist (hnodes.map _)) h.sound.exhausted.layered.nodup).mpr
    intro id
    rw [List.mem_map, ← h.reaches_iff]
    constructor
    · rintro ⟨v, hv, rfl⟩
      exact ((hmem v).mp hv).2
    · intro hid
      obtain ⟨v, hv, rfl⟩ := h.exists_node (h.sound.declared id ((h.reaches_iff id).mp hid))
      exact ⟨v, (hmem v).mpr ⟨hv, hid⟩, rfl⟩
  simpa using hperm.length_eq

theorem Ranked.card_levels (h : s.Ranked doc p d start reached x)
    (hmem : ∀ v, v ∈ nodes ↔ v ∈ d.nodes ∧ doc.Reaches v.id) :
    (nodes.map (·.level)).toFinset.card = reached.layers.length := by
  have hlevels : (nodes.map (·.level)).toFinset = (Finset.range reached.layers.length).image Nat.cast := by
    ext level
    rw [List.mem_toFinset, List.mem_map, Finset.mem_image]
    constructor
    · rintro ⟨v, hv, rfl⟩
      obtain ⟨hv, hreached⟩ := (hmem v).mp hv
      obtain ⟨k, hk, hd⟩ := h.sound.exhausted.mem_flatten_iff.mp ((h.reaches_iff v.id).mp hreached)
      exact ⟨k, Finset.mem_range.mpr hk, (h.level_eq hv (h.sound.level_of_distance hd)).symm⟩
    · rintro ⟨k, hk, rfl⟩
      have hlt := Finset.mem_range.mp hk
      obtain ⟨id, hid⟩ := List.exists_mem_of_ne_nil _ (h.sound.exhausted.filled _ (List.getElem_mem hlt))
      have hd := (h.sound.exhausted.distance k _ (List.getElem?_eq_getElem hlt) id).mp hid
      have hreached := List.mem_flatten_of_mem (List.getElem_mem hlt) hid
      obtain ⟨v, hv, rfl⟩ := h.exists_node (h.sound.declared id hreached)
      exact ⟨v, (hmem v).mpr ⟨hv, (h.reaches_iff v.id).mpr hreached⟩, h.level_eq hv (h.sound.level_of_distance hd)⟩
  rw [hlevels, Finset.card_image_of_injective _ Nat.cast_injective, Finset.card_range]

theorem Ranked.spread (h : s.Ranked doc p d start reached x) (hn : (doc.nodes.map (·.id)).Nodup)
    (hs : 0 ≤ s.spacing.minSpacing) {v : PlacedNode Rat} (hv : v ∈ d.nodes) (hreached : doc.Reaches v.id) :
    start.x ≤ v.x ∧ v.x ≤ start.x +
      ((reached.layers.flatten.length : Rat) - (reached.layers.length : Rat)) * s.spacing.minSpacing := by
  obtain ⟨shift, hplace⟩ := h.place
  obtain ⟨k, hk, hd⟩ := h.sound.exhausted.mem_flatten_iff.mp ((h.reaches_iff v.id).mp hreached)
  obtain ⟨layer, hlayer, hmem⟩ := (h.sound.layered.get?_eq_some_iff v.id k).mp (h.sound.level_of_distance hd)
  obtain ⟨hleft, hright⟩ := h.sound.spread h.proper hn h.settles hs hk hlayer v.id hmem
  have hsum : ((((Spacing.surplus p.levels.layers).take (k + 1)).sum : Nat) : Rat) ≤
      (reached.layers.flatten.length : Rat) - reached.layers.length := by
    rw [le_sub_iff_add_le]
    exact_mod_cast h.sound.sum_surplus_le hk
  have hwide := mul_le_mul_of_nonneg_right hsum hs
  rw [hplace v hv, hplace start h.start_mem, ← h.start_id]
  constructor <;> linarith

end Ranked

/-- No reached node stands left of the start node, and none further right of it than one least distance for each
reached node less one for each of their levels. -/
theorem run_spread {c : Config Rat} {s : Settings Rat} (h : ofConfig c = .ok s) (text : String) :
    ∃ r, (s.run text).result = .ok r ∧ (r.picture.diagram? = none ↔ (Document.read text).nodes = []) ∧
      ∀ d, r.picture.diagram? = some d → d.nodes.map (·.toNode) = (Document.read text).nodes ∧
        ∃ start ∈ d.nodes, startNode (Document.read text).nodes = .ok start.toNode ∧
        ∃ reached : List (PlacedNode Rat), reached.Sublist d.nodes ∧
          (∀ v, v ∈ reached ↔ v ∈ d.nodes ∧ (Document.read text).Reaches v.id) ∧
          ∀ v ∈ reached, start.x ≤ v.x ∧ v.x ≤ start.x +
            ((reached.length : Rat) - ((reached.map (·.level)).toFinset.card : Rat)) * c.minSpacing.exact := by
  obtain ⟨r, hr, hnone, hsome⟩ := run_ranked h text
  refine ⟨r, hr, hnone, ?_⟩
  intro d hd
  obtain ⟨p, dy, -, -, start, reached, x, hranked⟩ := hsome d hd
  have hn := Document.nodup_ids text
  obtain ⟨hmin, -, -, -, rfl⟩ := (ofConfig_eq_ok c s).mp h
  have hs : 0 ≤ c.minSpacing.exact := by linarith
  refine ⟨hranked.declared, start, hranked.start_mem, hranked.startNode,
    d.nodes.filter fun n => n.id ∈ reached.layers.flatten, List.filter_sublist, ?_⟩
  have hmem (v : PlacedNode Rat) : v ∈ (d.nodes.filter fun n => n.id ∈ reached.layers.flatten) ↔
      v ∈ d.nodes ∧ (Document.read text).Reaches v.id := by
    rw [List.mem_filter, decide_eq_true_iff, hranked.reaches_iff]
  refine ⟨hmem, ?_⟩
  rw [hranked.length_reached hn List.filter_sublist hmem, hranked.card_levels hmem]
  intro v hv
  obtain ⟨hv, hreached⟩ := (hmem v).mp hv
  exact hranked.spread hn hs hv hreached

/-- A fan with a way back, and a node that no path leads to. -/
theorem run_spread_fan :
    let s : Settings Rat := ⟨⟨150, 120, 100, 60, 20⟩, .int 20, .int 40⟩
    let text := "startEvent s \"S\"\ntask a \"A\"\ngateway b \"B\"\ntask c \"C\"\ns -> a\ns -> b\nb -> s\nc -> a"
    ofConfig {} = .ok s ∧ ∃ r d, (s.run text).result = .ok r ∧ r.picture.diagram? = some d ∧
      d.nodes.map (·.id) = ["s", "a", "b", "c"] ∧ ∃ start ∈ d.nodes, start.id = "s" ∧
      ∃ reached : List (PlacedNode Rat), "b" ∈ reached.map (·.id) ∧
        ∀ v ∈ reached, start.x ≤ v.x ∧ v.x ≤ start.x +
          ((reached.length : Rat) - ((reached.map (·.level)).toFinset.card : Rat)) * 150 := by
  intro s text
  let doc : Document := ⟨[⟨"s", .startEvent, "S", none⟩, ⟨"a", .task, "A", none⟩, ⟨"b", .gateway, "B", none⟩,
    ⟨"c", .task, "C", none⟩], [⟨"s", "a", ""⟩, ⟨"s", "b", ""⟩, ⟨"b", "s", ""⟩, ⟨"c", "a", ""⟩], []⟩
  have hs : ofConfig {} = .ok s := ofConfig_default
  have hread : Document.read text = doc := by decide
  obtain ⟨r, hr, hnone, hsome⟩ := run_spread hs text
  rw [hread] at hnone hsome
  obtain ⟨d, hd⟩ := Option.ne_none_iff_exists'.mp fun hn => List.cons_ne_nil _ _ (hnone.mp hn)
  obtain ⟨hdecl, start, hmem, hstart, reached, -, hreached, hall⟩ := hsome d hd
  have hids : d.nodes.map (·.id) = ["s", "a", "b", "c"] := ids_of_declared hdecl
  refine ⟨hs, r, d, hr, hd, hids, start, hmem, (congrArg Node.id (Except.ok.inj hstart)).symm, reached, ?_, hall⟩
  have hdrawn : "b" ∈ d.nodes.map (·.id) := by simp [hids]
  obtain ⟨b, hb, hid⟩ := List.mem_map.mp hdrawn
  have hpath : doc.Reaches "b" := ⟨_, 1, rfl, .snoc .nil (by simp [Document.Parent, Linked, doc])⟩
  exact List.mem_map.mpr ⟨b, (hreached b).mpr ⟨hb, hid ▸ hpath⟩, hid⟩

end Settings

end FlowDiagram
