import FlowDiagram.Proofs.Layout.Diagram

namespace FlowDiagram

theorem mean_add (d x : Rat) (xs : List Rat) : mean (x + d) (xs.map (· + d)) = mean x xs + d := by
  have hlen : (((x :: xs).length : Nat) : Rat) ≠ 0 :=
    Nat.cast_ne_zero.mpr (Nat.succ_ne_zero xs.length)
  have hsum : ((x :: xs).map (· + d)).sum = (x :: xs).sum + (x :: xs).length * d := by
    rw [List.sum_map_add, List.map_id', List.map_const', List.sum_replicate, nsmul_eq_mul]
  rw [mean, mean, ← List.map_cons (f := (· + d)), Scalar.sum_rat, Scalar.sum_rat, hsum, List.length_map,
    add_div, mul_div_cancel_left₀ d hlen]

theorem Scalar.least_add (d x : Rat) (xs : List Rat) :
    least (x + d) (xs.map (· + d)) = least x xs + d := by
  rw [least_rat, least_rat, List.foldl_map]
  exact List.foldl_hom (· + d) fun a b => min_add_add_right a b d

namespace Spacing

/-- The same distances around a base moved by (dx, dy). -/
def moveBase (dx dy : Rat) (s : Spacing Rat) : Spacing Rat :=
  { s with baseX := s.baseX + dx, baseY := s.baseY + dy }

variable (dx dy : Rat) (s : Spacing Rat)

section Row

variable (parents : Table String (List String)) (placed : Table String (Point Rat))

theorem parentXs_translate (id : String) :
    parentXs parents (placed.map (.translate dx dy)) id = (parentXs parents placed id).map (· + dx) := by
  rw [parentXs, parentXs, List.map_filterMap]
  apply List.filterMap_congr
  intro p _
  rw [Table.get?_map_value, Option.map_map, Option.map_map]
  rfl

theorem desired?_translate (id : String) :
    desired? parents (placed.map (.translate dx dy)) id = (desired? parents placed id).map (· + dx) := by
  rw [desired?, desired?, parentXs_translate]
  cases parentXs parents placed id with
  | nil => rfl
  | cons x xs => exact congrArg some (mean_add dx x xs)

theorem row_moveBase (ids : List String) :
    (s.moveBase dx dy).row ids = (s.row ids).map fun e => (e.1, e.2 + dx) := by
  rw [row, row, List.map_map]
  apply List.map_congr_left
  intro e _
  have hx : s.baseX + dx + (e.2 : Rat) * s.minSpacing -
        ((ids.length - 1 : Nat) : Rat) * s.minSpacing / ((2 : Nat) : Rat) =
      s.baseX + (e.2 : Rat) * s.minSpacing -
        ((ids.length - 1 : Nat) : Rat) * s.minSpacing / ((2 : Nat) : Rat) + dx := by ring
  exact congrArg (Prod.mk e.1) hx

theorem initial_moveBase (layer : List String) :
    (s.moveBase dx dy).initial parents (placed.map (.translate dx dy)) layer =
      (s.initial parents placed layer).map (· + dx) := by
  have hsome : (layer.filterMap fun id =>
      (desired? parents (placed.map (.translate dx dy)) id).map fun x => (id, x)) =
      (layer.filterMap fun id => (desired? parents placed id).map fun x => (id, x)).map
        fun e => (e.1, e.2 + dx) := by
    rw [List.map_filterMap]
    apply List.filterMap_congr
    intro id _
    rw [desired?_translate, Option.map_map, Option.map_map]
    rfl
  have hnone : (fun id => (desired? parents (placed.map (.translate dx dy)) id).isNone) =
      fun id => (desired? parents placed id).isNone := by
    funext id
    rw [desired?_translate, Option.isNone_map]
  rw [initial, initial, hsome, hnone, row_moveBase, Table.ofList_map (· + dx), Table.putAll_map (· + dx)]

end Row

theorem foldlM_map {β γ : Type} {f g : β → γ → Except Fault β} {u : β → β}
    (h : ∀ b a, g (u b) a = u <$> f b a) (b : β) (as : List γ) :
    as.foldlM g (u b) = u <$> as.foldlM f b := by
  induction as generalizing b with
  | nil => rfl
  | cons a as ih =>
    rw [List.foldlM_cons, List.foldlM_cons, h, bind_map_left, map_bind]
    simp only [ih]

theorem moveRight_map (d step : Rat) (ids : List String) (xs : Table String Rat) :
    moveRight step ids (xs.map (· + d)) = Table.map (· + d) <$> moveRight step ids xs := by
  apply foldlM_map
  intro ys id
  rw [Table.find_map, bind_map_left, map_bind]
  congr 1
  funext x
  rw [add_right_comm, Table.put_map]
  rfl

theorem pushApart_moveBase (ids : List String) (xs : Table String Rat) :
    (s.moveBase dx dy).pushApart ids (xs.map (· + dx)) = Table.map (· + dx) <$> s.pushApart ids xs := by
  induction ids generalizing xs with
  | nil => rfl
  | cons a ids ih =>
    cases ids with
    | nil => rfl
    | cons b ids =>
      rw [pushApart, pushApart]
      simp only [Table.find_map, bind_map_left, map_bind]
      congr 1
      funext y
      congr 1
      funext x
      have hgap : y + dx - (x + dx) = y - x := add_sub_add_right_eq_sub y x dx
      have hmin : (s.moveBase dx dy).minSpacing = s.minSpacing := rfl
      rw [hgap, hmin]
      by_cases hlt : Scalar.lt (y - x) s.minSpacing = true
      · rw [if_pos hlt, if_pos hlt, moveRight_map, bind_map_left, map_bind]
        congr 1
        funext ys
        rw [Table.find_map, bind_map_left, map_bind]
        congr 1
        funext z
        rw [add_right_comm, Table.put_map (· + dx), ih]
      · rw [if_neg hlt, if_neg hlt, ih]

theorem ordered_map (d : Rat) (layer : List String) (xs : Table String Rat) :
    ordered layer (xs.map (· + d)) = ordered layer xs := by
  have hkeyed : (layer.mapM fun id => return ((← (xs.map (· + d)).find id), id)) =
      List.map (Prod.map (· + d) id) <$>
        (layer.mapM fun id => return ((← xs.find id), id) : Except Fault (List (Rat × String))) := by
    induction layer with
    | nil => rfl
    | cons a layer ih =>
      rw [List.mapM_cons, List.mapM_cons, ih]
      simp [Table.find_map, List.map_cons]
  have hsort (keyed : List (Rat × String)) :
      Sorting.sort (fun a b => Scalar.lt a.1 b.1) (keyed.map (Prod.map (· + d) id)) =
        (Sorting.sort (fun a b => Scalar.lt a.1 b.1) keyed).map (Prod.map (· + d) id) := by
    apply Sorting.sort_map
    intro a b
    simp
  rw [ordered, ordered, hkeyed, bind_map_left]
  congr 1
  funext keyed
  rw [hsort, List.map_map]
  rfl

theorem placeLayer_moveBase (parents : Table String (List String)) (placed : Table String (Point Rat))
    (layer : List String × Nat) :
    (s.moveBase dx dy).placeLayer parents (placed.map (.translate dx dy)) layer =
      Table.map (.translate dx dy) <$> s.placeLayer parents placed layer := by
  have hy : (s.moveBase dx dy).baseY + (layer.2 : Rat) * (s.moveBase dx dy).levelSpacing =
      s.baseY + layer.2 * s.levelSpacing + dy := add_right_comm s.baseY dy _
  rw [placeLayer, placeLayer, initial_moveBase, ordered_map, map_bind]
  congr 1
  funext order
  rw [pushApart_moveBase, bind_map_left, map_bind]
  congr 1
  funext xs
  have hentries (y : Rat) : (xs.map (· + dx)).entries.map (fun e => (e.1, (⟨e.2, y + dy⟩ : Point Rat))) =
      (xs.entries.map fun e => (e.1, (⟨e.2, y⟩ : Point Rat))).map
        fun e => (e.1, e.2.translate dx dy) := by
    rw [Table.map, List.map_map, List.map_map]
    rfl
  have hput := Table.putAll_map (Point.translate dx dy) placed
  rw [hy, map_pure]
  exact congrArg pure ((congrArg _ (hentries _)).trans (hput _))

theorem foldlM_placeLayer_moveBase (parents : Table String (List String))
    (layers : List (List String × Nat)) :
    layers.foldlM ((s.moveBase dx dy).placeLayer parents) .empty =
      Table.map (.translate dx dy) <$> layers.foldlM (s.placeLayer parents) .empty :=
  foldlM_map (s.placeLayer_moveBase dx dy parents) .empty layers

/-- The distance by which all nodes are moved right, clear of the left margin. -/
def rightShift {α : Type} [Scalar α] (s : Spacing α) (layers : List (List String))
    (parents : Table String (List String)) (kinds : Table String Kind) : Except Fault α := do
  s.deficit kinds (← layers.zipIdx.foldlM (s.placeLayer parents) .empty)

theorem positions_rightShift {α : Type} [Scalar α] (s : Spacing α) (layers : List (List String))
    (parents : Table String (List String)) (kinds : Table String Kind) :
    s.positions layers parents kinds = do
      let placed ← layers.zipIdx.foldlM (s.placeLayer parents) .empty
      let shift ← s.rightShift layers parents kinds
      return ⟨placed.entries.map fun e => (e.1, ⟨e.2.x + shift, e.2.y⟩)⟩ := by
  rw [positions, rightShift]
  cases layers.zipIdx.foldlM (s.placeLayer parents) .empty <;> rfl

theorem lefts_translate (kinds : Table String Kind) (t : Table String (Point Rat)) :
    lefts kinds (t.map (.translate dx dy)) = (lefts kinds t).map (· + dx) := by
  rw [lefts, lefts, Table.map, List.map_map, List.map_map]
  apply List.map_congr_left
  intro e _
  exact add_sub_right_comm e.2.x dx _

/-- Where both layouts have to move right, both come to lie at the margin. -/
theorem deficit_moveBase {kinds : Table String Kind} {t : Table String (Point Rat)}
    (hk : ∀ id ∈ t.keys, ∃ kind, kinds.get? id = some kind) :
    ∃ left left', s.deficit kinds t = .ok left ∧
      (s.moveBase dx dy).deficit kinds (t.map (.translate dx dy)) = .ok left' ∧
      (0 < left → 0 < left' → dx + left' = left) := by
  have hkeys := Table.keys_map (Point.translate dx dy) t
  refine ⟨_, _, s.deficit_eq hk, (s.moveBase dx dy).deficit_eq (hkeys ▸ hk), ?_⟩
  rw [lefts_translate]
  cases lefts kinds t with
  | nil => exact fun hpos => absurd hpos (lt_irrefl 0)
  | cons x xs =>
    change 0 < max 0 (s.leftMargin - Scalar.least x xs) →
      0 < max 0 (s.leftMargin - Scalar.least (x + dx) (xs.map (· + dx))) →
        dx + max 0 (s.leftMargin - Scalar.least (x + dx) (xs.map (· + dx))) =
          max 0 (s.leftMargin - Scalar.least x xs)
    rw [Scalar.least_add]
    intro hpos hpos'
    rw [lt_max_iff, or_iff_right (lt_irrefl 0)] at hpos hpos'
    rw [max_eq_right hpos.le, max_eq_right hpos'.le]
    ring

theorem positions_moveBase (hs : 0 ≤ s.minSpacing) {layers : List (List String)}
    (hn : layers.flatten.Nodup) (parents : Table String (List String)) {kinds : Table String Kind}
    (hk : ∀ id ∈ layers.flatten, ∃ kind, kinds.get? id = some kind) :
    ∃ left left' t, s.rightShift layers parents kinds = .ok left ∧
      (s.moveBase dx dy).rightShift layers parents kinds = .ok left' ∧
      s.positions layers parents kinds = .ok t ∧
      (s.moveBase dx dy).positions layers parents kinds =
        .ok (t.map (.translate (dx + left' - left) dy)) ∧
      (0 < left → 0 < left' → dx + left' - left = 0) := by
  obtain ⟨placed, hplaced, hrows⟩ := foldlM_placeLayer hs parents hn
  have hplaced' := s.foldlM_placeLayer_moveBase dx dy parents layers.zipIdx
  rw [hplaced] at hplaced'
  obtain ⟨left, left', hleft, hleft', hboth⟩ := s.deficit_moveBase dx dy fun id hid =>
    hk id (hrows.keys.mem_iff.mp hid)
  have hshift : s.rightShift layers parents kinds = .ok left := by
    rw [rightShift, hplaced]
    exact hleft
  have hshift' : (s.moveBase dx dy).rightShift layers parents kinds = .ok left' := by
    rw [rightShift, hplaced']
    exact hleft'
  refine ⟨left, left', ⟨placed.entries.map fun e => (e.1, ⟨e.2.x + left, e.2.y⟩)⟩, hshift, hshift', ?_, ?_,
    ?_⟩
  · rw [positions_rightShift, hplaced, hshift]
    rfl
  · rw [positions_rightShift, hplaced', hshift']
    refine congrArg (fun es => Except.ok (Table.mk es)) ?_
    rw [Table.map, List.map_map, List.map_map]
    apply List.map_congr_left
    intro e _
    have hx : e.2.x + dx + left' = e.2.x + left + (dx + left' - left) := by ring
    exact congrArg (fun x => (e.1, Point.mk x (e.2.y + dy))) hx
  · intro hpos hpos'
    exact sub_eq_zero.mpr (hboth hpos hpos')

end Spacing

section Move

variable (dx dy a b : Rat)

theorem PlacedNode.move_translate (n : PlacedNode Rat) :
    Canvas.moveNode b (n.translate dx dy) = (Canvas.moveNode a n).translate dx (dy + b - a) := by
  have hy : n.y + dy + b = n.y + a + (dy + b - a) := by ring
  exact congrArg (fun y => (⟨n.toNode, n.x + dx, y, n.level⟩ : PlacedNode Rat)) hy

theorem RoutedEdge.move_translate (e : RoutedEdge Rat) :
    Canvas.moveEdge b (e.translate dx dy) = (Canvas.moveEdge a e).translate dx (dy + b - a) := by
  have hpoint (p : Point Rat) :
      Canvas.movePoint b (p.translate dx dy) = (Canvas.movePoint a p).translate dx (dy + b - a) := by
    have hy : p.y + dy + b = p.y + a + (dy + b - a) := by ring
    exact congrArg (Point.mk (p.x + dx)) hy
  simp only [Canvas.moveEdge, translate, List.map_map, Option.map_map, Function.comp_def, hpoint]

end Move

def Diagram.translate (dx dy : Rat) (d : Diagram Rat) : Diagram Rat :=
  ⟨d.nodes.map (.translate dx dy), d.edges.map (.translate dx dy), d.width + dx, d.height + dy⟩

theorem bound_map {β : Type} {bs : List β} {u : β → β} {f : β → Rat} {d r r' : Rat}
    (hu : ∀ b, f (u b) = f b + d) (hle : ∀ b ∈ bs, f b ≤ r) (hr : ∃ b ∈ bs, f b = r)
    (hle' : ∀ b ∈ bs.map u, f b ≤ r') (hr' : ∃ b ∈ bs.map u, f b = r') : r' = r + d := by
  obtain ⟨a, ha, rfl⟩ := hr
  obtain ⟨b', hb', rfl⟩ := hr'
  obtain ⟨b, hb, rfl⟩ := List.mem_map.mp hb'
  have hlow := hle b hb
  have hhigh := hle' (u a) (List.mem_map_of_mem ha)
  have ha' := hu a
  have hb' := hu b
  linarith

/-- A canvas follows the elements of its diagram. Where two diagrams were moved down to the margin, the same
elements lie there. -/
theorem Canvas.Fits.translate {leftMargin canvasMargin shift shift' dx dy : Rat} {d d' : Diagram Rat}
    (h : Fits leftMargin canvasMargin shift d) (h' : Fits leftMargin canvasMargin shift' d')
    (hn : d'.nodes = d.nodes.map (.translate dx dy)) (he : d'.edges = d.edges.map (.translate dx dy)) :
    d' = d.translate dx dy ∧ (0 < shift → 0 < shift' → dy = 0) := by
  obtain ⟨hinside, hright, hbottom, htop⟩ := h
  obtain ⟨hinside', hright', hbottom', htop'⟩ := h'
  have hext : extents d'.nodes d'.edges = (extents d.nodes d.edges).map (.translate dx dy) := by
    rw [hn, he, extents_translate]
  rw [hext] at hinside' hright' hbottom' htop'
  have hwidth : d'.width - canvasMargin = d.width - canvasMargin + dx :=
    bound_map (fun _ => rfl) (fun b hb => (hinside b hb).1.2) hright (fun b hb => (hinside' b hb).1.2) hright'
  have hheight : d'.height - canvasMargin = d.height - canvasMargin + dy :=
    bound_map (fun _ => rfl) (fun b hb => (hinside b hb).2.2) hbottom (fun b hb => (hinside' b hb).2.2)
      hbottom'
  refine ⟨?_, ?_⟩
  · have hw : d'.width = d.width + dx := by linarith
    have hh : d'.height = d.height + dy := by linarith
    calc
      d' = ⟨d'.nodes, d'.edges, d'.width, d'.height⟩ := rfl
      _ = d.translate dx dy := by rw [hn, he, hw, hh, Diagram.translate]
  · intro hpos hpos'
    obtain ⟨a, ha, heq⟩ := htop hpos
    obtain ⟨b, hb, heq'⟩ := htop' hpos'
    -- The top margin bounds from below, so it is the negated tops that have a bound from above.
    have hmargin : -leftMargin = -leftMargin + -dy :=
      bound_map (f := fun b => -b.top) (fun b => neg_add b.top dy)
        (fun b hb => neg_le_neg (hinside b hb).2.1) ⟨a, ha, congrArg Neg.neg heq⟩
        (fun b hb => neg_le_neg (hinside' b hb).2.1) ⟨b, hb, congrArg Neg.neg heq'⟩
    linarith

theorem eq_map_of_map_eq {α β γ : Type} {f : α → γ} {g : β → γ} {u : β → α} {as : List α} {bs : List β}
    (h : as.map f = bs.map g) (hu : ∀ a ∈ as, ∀ b ∈ bs, f a = g b → a = u b) : as = bs.map u := by
  induction as generalizing bs with
  | nil =>
    obtain rfl := List.map_eq_nil_iff.mp h.symm
    rfl
  | cons a as ih =>
    cases bs with
    | nil => cases h
    | cons b bs =>
      rw [List.map_cons, List.map_cons, List.cons.injEq] at h
      obtain ⟨hab, hrest⟩ := h
      rw [List.map_cons, hu a (by simp) b (by simp) hab, ih hrest]
      intro x hx y hy
      exact hu x (List.mem_cons_of_mem _ hx) y (List.mem_cons_of_mem _ hy)

namespace Settings

/-- The same settings around a base moved by (dx, dy). -/
def moveBase (dx dy : Rat) (s : Settings Rat) : Settings Rat := { s with spacing := s.spacing.moveBase dx dy }

namespace Planned

variable {s : Settings Rat} {doc : Document} {p p' : Plan Rat} {dx dy : Rat}

theorem nodes_translate {s' : Settings Rat} (hp : s.Planned doc p) (hp' : s'.Planned doc p')
    (hlevels : p'.levels = p.levels) (hpos : p'.positions = p.positions.map (.translate dx dy)) :
    p'.nodes = p.nodes.map (.translate dx dy) := by
  apply eq_map_of_map_eq (hp'.declared.trans hp.declared.symm)
  intro m hm n hn hnode
  have hplace := hp'.place m hm
  rw [hpos, Table.get?_map_value, congrArg Node.id hnode, hp.place n hn] at hplace
  obtain ⟨hx, hy⟩ := Point.mk.inj (Option.some.inj hplace)
  obtain ⟨i, hi, hlevel⟩ := hp.level n hn
  obtain ⟨j, hj, hlevel'⟩ := hp'.level m hm
  rw [hlevels, congrArg Node.id hnode, hi] at hj
  obtain rfl := Option.some.inj hj
  calc
    m = ⟨m.toNode, m.x, m.y, m.level⟩ := rfl
    _ = ⟨n.toNode, n.x + dx, n.y + dy, n.level⟩ := by rw [hnode, ← hx, ← hy, hlevel, hlevel']

/-- No label is pushed off the left margin, so the routes follow the nodes although the margin does not. -/
theorem edges_translate {s' : Settings Rat} (hp : s.Planned doc p) (hp' : s'.Planned doc p')
    (hmargin : s'.spacing.leftMargin = s.spacing.leftMargin) (hids : (p.nodes.map (·.id)).Nodup)
    (hleft : ∀ n ∈ p.nodes, s.spacing.leftMargin ≤ n.left)
    (hleft' : ∀ n ∈ p'.nodes, s.spacing.leftMargin ≤ n.left)
    (hnodes : p'.nodes = p.nodes.map (.translate dx dy)) : p'.edges = p.edges.map (.translate dx dy) := by
  have hids' : (p'.nodes.map (·.id)).Nodup := by
    rw [hnodes, List.map_map]
    exact hids
  have hmoved : ∀ n ∈ p'.nodes, s.spacing.leftMargin + dx ≤ n.left := by
    intro n hn
    rw [hnodes] at hn
    obtain ⟨m, hm, rfl⟩ := List.mem_map.mp hn
    rw [PlacedNode.left_translate]
    exact add_le_add_left (hleft m hm) dx
  rw [hp'.edges, hp.edges, hmargin, Route.all_margin hids' hmoved hleft', hnodes, Route.all_translate]

theorem moveBase (hp : s.Planned doc p) (hp' : (s.moveBase dx dy).Planned doc p')
    (hs : 0 ≤ s.spacing.minSpacing) (hne : doc.nodes ≠ []) (hn : (doc.nodes.map (·.id)).Nodup) :
    ∃ left left',
      s.spacing.rightShift p.levels.layers p.graph.parents doc.kinds = .ok left ∧
      (s.moveBase dx dy).spacing.rightShift p'.levels.layers p'.graph.parents doc.kinds = .ok left' ∧
      p'.levels = p.levels ∧ p'.nodes = p.nodes.map (.translate (dx + left' - left) dy) ∧
      p'.edges = p.edges.map (.translate (dx + left' - left) dy) ∧
      (0 < left → 0 < left' → dx + left' - left = 0) := by
  have hgraph : p'.graph = p.graph := hp'.graph.trans hp.graph.symm
  have hlevels : p'.levels = p.levels := by
    have hl := hp'.levels
    rw [hgraph, hp.levels] at hl
    exact (Except.ok.inj hl).symm
  obtain ⟨reached, hsound⟩ := hp.sound hne hn
  obtain ⟨left, left', t, hleft, hleft', ht, ht', hboth⟩ := s.spacing.positions_moveBase dx dy hs
    hsound.layered.nodup p.graph.parents (Document.kinds_layers hn (hsound.perm hn))
  have hpos : p'.positions = p.positions.map (.translate (dx + left' - left) dy) := by
    have hplaced := hp'.positions
    rw [hgraph, hlevels] at hplaced
    rw [← Except.ok.inj (ht.symm.trans hp.positions)]
    exact Except.ok.inj (hplaced.symm.trans ht')
  have hnodes := hp.nodes_translate hp' hlevels hpos
  have hids : (p.nodes.map (·.id)).Nodup := ids_of_declared hp.declared ▸ hn
  have hedges := hp.edges_translate hp' rfl hids (hp.rows hs hne hn).2 (hp'.rows hs hne hn).2 hnodes
  refine ⟨left, left', hleft, ?_, hlevels, hnodes, hedges, hboth⟩
  rw [hgraph, hlevels]
  exact hleft'

end Planned

theorem Framed.translate {s s' : Settings Rat} {p p' : Plan Rat} {dx dy top top' : Rat} {d d' : Diagram Rat}
    (hf : s.Framed p top d) (hf' : s'.Framed p' top' d') (hn : p'.nodes = p.nodes.map (.translate dx dy))
    (he : p'.edges = p.edges.map (.translate dx dy)) :
    d'.nodes = d.nodes.map (.translate dx (dy + top' - top)) ∧
      d'.edges = d.edges.map (.translate dx (dy + top' - top)) := by
  constructor
  · rw [hf'.nodes, hf.nodes, hn, List.map_map, List.map_map]
    apply List.map_congr_left
    intro n _
    exact n.move_translate dx dy top top'
  · rw [hf'.edges, hf.edges, he, List.map_map, List.map_map]
    apply List.map_congr_left
    intro e _
    exact e.move_translate dx dy top top'

variable {c : Config Rat} {s s' : Settings Rat} {x y : Quantity Rat}

theorem ofConfig_moveBase (h : ofConfig c = .ok s)
    (h' : ofConfig { c with baseX := x, baseY := y } = .ok s') :
    s' = s.moveBase (x.exact - c.baseX.exact) (y.exact - c.baseY.exact) := by
  obtain ⟨-, -, -, -, rfl⟩ := (ofConfig_eq_ok c s).mp h
  obtain ⟨-, -, -, -, rfl⟩ := (ofConfig_eq_ok _ s').mp h'
  simp only [moveBase, Spacing.moveBase, Config.exact, add_sub_cancel]

/-- Settings that differ in the base alone give diagrams that are translates of each other, canvas and all,
with the same levels and warnings. They are as far apart as the bases, but for the moves to the margins: if
both had to be moved to the left margin, they are not apart horizontally, and if both had to be moved to the
top margin, not vertically. -/
theorem run_translated (h : ofConfig c = .ok s)
    (h' : ofConfig { c with baseX := x, baseY := y } = .ok s') (text : String) :
    ((Document.read text).nodes = [] →
      s.run text = .empty (Document.read text) ∧ s'.run text = .empty (Document.read text)) ∧
    ((Document.read text).nodes ≠ [] → ∃ p p' left left' top top' d dx dy,
      dx = x.exact - c.baseX.exact + left' - left ∧ dy = y.exact - c.baseY.exact + top' - top ∧
      s.run text = .framed (Document.read text) p top d ∧
      s'.run text = .framed (Document.read text) p' top' (d.translate dx dy) ∧
      p'.levels = p.levels ∧
      Run.diagnostics (Document.read text) p' = Run.diagnostics (Document.read text) p ∧
      s.spacing.rightShift p.levels.layers p.graph.parents (Document.read text).kinds = .ok left ∧
      s'.spacing.rightShift p'.levels.layers p'.graph.parents (Document.read text).kinds = .ok left' ∧
      (0 < left → 0 < left' → dx = 0) ∧ (0 < top → 0 < top' → dy = 0)) := by
  constructor
  · intro hnil
    rw [run, run]
    exact ⟨if_pos hnil, if_pos hnil⟩
  · intro hne
    obtain ⟨hmin, -, -, -, hs⟩ := (ofConfig_eq_ok c s).mp h
    have hpos : 0 ≤ s.spacing.minSpacing := by
      rw [← hs]
      exact le_trans (by norm_num) hmin
    obtain ⟨p, top, d, hrun, hp, hf⟩ := run_planned s hne
    obtain ⟨p', top', d', hrun', hp', hf'⟩ := run_planned s' hne
    have hdrawn := hp.drawn h hne hf
    have hdrawn' := hp'.drawn h' hne hf'
    obtain rfl := ofConfig_moveBase h h'
    obtain ⟨left, left', hleft, hleft', hlevels, hnodes, hedges, hboth⟩ :=
      hp.moveBase hp' hpos hne (Document.nodup_ids text)
    obtain ⟨hn, he⟩ := hf.translate hf' hnodes hedges
    obtain ⟨rfl, htop⟩ := hdrawn.fits.translate hdrawn'.fits hn he
    refine ⟨p, p', left, left', top, top', d, _, _, rfl, rfl, hrun, hrun', hlevels, ?_, hleft, hleft', hboth,
      htop⟩
    rw [Run.diagnostics, Run.diagnostics, hlevels]

/-- A labelled path back to the first node, around the usual base and around one far to the left. -/
theorem run_translated_loop :
    let c : Config Rat := { baseX := .int (-500), baseY := .real (81 / 2) }
    let s : Settings Rat := ⟨⟨150, 120, 100, 60, 20⟩, .int 20, .int 40⟩
    let s' : Settings Rat := ⟨⟨150, 120, -500, 81 / 2, 20⟩, .int 20, .int 40⟩
    let text := "startEvent s \"S\"\ntask t \"T\"\ns -> t\nt -> s |again|"
    let doc := Document.read text
    ofConfig {} = .ok s ∧ ofConfig c = .ok s' ∧
      doc.nodes ≠ [] ∧ ∃ p p' left left' top top' d dx dy,
        dx = -500 - 100 + left' - left ∧ dy = 81 / 2 - 60 + top' - top ∧
        s.run text = .framed doc p top d ∧ s'.run text = .framed doc p' top' (d.translate dx dy) ∧
        p'.levels = p.levels ∧ Run.diagnostics doc p' = Run.diagnostics doc p ∧
        s.spacing.rightShift p.levels.layers p.graph.parents doc.kinds = .ok left ∧
        s'.spacing.rightShift p'.levels.layers p'.graph.parents doc.kinds = .ok left' ∧
        (0 < left → 0 < left' → dx = 0) ∧ (0 < top → 0 < top' → dy = 0) := by
  intro c s s' text doc
  have hs : ofConfig {} = .ok s := ofConfig_default
  have hs' : ofConfig c = .ok s' := by
    apply (ofConfig_eq_ok c s').mpr
    refine ⟨?_, ?_, ?_, ?_, ?_⟩ <;> norm_num [c, s', Quantity.exact, Config.exact]
  have hne : doc.nodes ≠ [] := by decide +kernel
  exact ⟨hs, hs', hne, (run_translated hs hs' text).2 hne⟩

end Settings

end FlowDiagram
