import FlowDiagram.Proofs.Table
import FlowDiagram.Raster.Drawing

namespace FlowDiagram.Raster

variable {α : Type} (sys : FontSystem) (choice : FontChoice)

def FontChoice.ownPath? (choice : FontChoice) : Option String := choice.path.filter (· ≠ "")

/-- The names under which a font may be found: one's own file, if it exists, and the list. -/
def candidates : List String := (choice.ownPath?.filter sys.fileExists).toList ++ fontNames

/-- The font under the first name that loads. Without one it is the default font, which older systems have in
one size only. -/
def bestFont (size : Int) : Font :=
  match (candidates sys choice).find? sys.loads with
  | some name => ⟨name, size * choice.scale⟩
  | none => ⟨"default", if sys.scalableDefault then size * choice.scale else 10⟩

/-- The calls for the default font. Older systems know it without a size only, which takes two calls. -/
def defaultCalls (size : Int) : List (Call α) :=
  .loadDefault (some (size * choice.scale)) :: if sys.scalableDefault then [] else [.loadDefault none]

/-- Whether one's own file exists; the names that do not load, and the one that does; without one, the default
font. -/
def fontCalls (size : Int) : List (Call α) :=
  let names := candidates sys choice
  choice.ownPath?.toList.map .fileExists ++
    (names.takeWhile (fun name => !sys.loads name) ++ (names.find? sys.loads).toList).map
      (.loadFont · (size * choice.scale)) ++
    if (names.find? sys.loads).isSome then [] else defaultCalls sys choice size

theorem firstLoaded_eq (size : Int) (names : List String) :
    firstLoaded (α := α) sys size names =
      ((names.find? sys.loads).map (⟨·, size⟩),
        (names.takeWhile (fun name => !sys.loads name) ++ (names.find? sys.loads).toList).map (.loadFont · size)) := by
  induction names with
  | nil => rfl
  | cons name names ih =>
    by_cases hload : sys.loads name = true
    · simp [firstLoaded, hload]
    · simp [firstLoaded, hload, ih]

theorem namesToTry_eq : namesToTry (α := α) sys choice =
    (candidates sys choice, choice.ownPath?.toList.map .fileExists) := by
  rw [namesToTry, candidates, FontChoice.ownPath?]
  cases choice.path.filter (· ≠ "") with
  | none => rfl
  | some path => by_cases hfile : sys.fileExists path = true <;> simp [Option.filter, hfile]

theorem lookUp_eq (size : Int) :
    lookUp (α := α) sys choice size = (bestFont sys choice size, fontCalls sys choice size) := by
  rw [lookUp, bestFont, fontCalls]
  simp only [namesToTry_eq, firstLoaded_eq]
  cases (candidates sys choice).find? sys.loads with
  | some name => simp
  | none => by_cases hscalable : sys.scalableDefault = true <;> simp [defaultFont, defaultCalls, hscalable]

/-- The cache holds the fonts of these sizes. -/
def FontCache.Keeps (sizes : List Int) (cache : FontCache) : Prop :=
  ∀ size, Table.get? cache size = if size ∈ sizes then some (bestFont sys choice size) else none

namespace FontCache

variable {sys choice} {cache : FontCache} {seen : List Int}

theorem keeps_empty : Keeps sys choice [] .empty := fun _ => rfl

theorem Keeps.get (h : Keeps sys choice seen cache) (size : Int) :
    (cache.get (α := α) sys choice size).1 =
        (bestFont sys choice size, if size ∈ seen then [] else fontCalls sys choice size) ∧
      Keeps sys choice (size :: seen) (cache.get (α := α) sys choice size).2 := by
  rw [FontCache.get]
  by_cases hseen : size ∈ seen
  · have hget := h size
    rw [if_pos hseen] at hget
    rw [hget, if_pos hseen]
    refine ⟨rfl, ?_⟩
    intro size'
    rw [h size']
    have hmem : size' ∈ size :: seen ↔ size' ∈ seen := by
      rw [List.mem_cons, or_iff_right_of_imp]
      rintro rfl
      exact hseen
    simp only [hmem]
  · have hget := h size
    rw [if_neg hseen] at hget
    rw [hget, if_neg hseen]
    simp only [lookUp_eq, true_and]
    intro size'
    rw [Table.get?_put, h size']
    by_cases heq : size = size'
    · simp [heq]
    · simp [heq, Ne.symm heq]

/-- The answers to a sequence of requests: each gets the font of a look-up, and makes calls if its size is
neither among those seen nor earlier in the sequence. -/
theorem Keeps.getAll (h : Keeps sys choice seen cache) (sizes : List Int) :
    FontCache.getAll (α := α) sys choice cache sizes = sizes.zipIdx.map fun p =>
      (bestFont sys choice p.1, if p.1 ∈ seen ∨ p.1 ∈ sizes.take p.2 then [] else fontCalls sys choice p.1) := by
  induction sizes generalizing cache seen with
  | nil => rfl
  | cons size sizes ih =>
    -- The size just asked for is among those seen from then on.
    obtain ⟨hanswer, hkeeps⟩ := h.get (α := α) size
    rw [FontCache.getAll, hanswer, ih hkeeps, List.zipIdx_cons, List.map_cons, List.zipIdx_succ, List.map_map]
    congr 1
    · simp
    · apply List.map_congr_left
      intro p _
      simp [or_left_comm, or_assoc]

theorem Keeps.calls (h : Keeps sys choice seen cache) (sizes : List Int) :
    (FontCache.getAll (α := α) sys choice cache sizes).flatMap (·.2) =
      ((distinct sizes).filter (· ∉ seen)).flatMap (fontCalls sys choice) := by
  induction sizes generalizing cache seen with
  | nil => rfl
  | cons size sizes ih =>
    obtain ⟨hanswer, hkeeps⟩ := h.get (α := α) size
    have hrest : ((distinct sizes).filter (· ≠ size)).filter (· ∉ seen) =
        (distinct sizes).filter (· ∉ size :: seen) := by
      rw [List.filter_filter]
      apply List.filter_congr
      intro size' _
      simp [Bool.and_comm]
    rw [FontCache.getAll, List.flatMap_cons, hanswer, ih hkeeps, distinct, ← hrest]
    by_cases hseen : size ∈ seen <;> simp [hseen]

end FontCache

namespace Kit

theorem mapM_font (kit : Kit α) (cache : FontCache) (sizes : List Int) :
    ∃ cache', sizes.mapM kit.font cache =
      .ok (cache.getAll kit.fonts ⟨kit.style.fontPath, kit.style.scale⟩ sizes, cache') := by
  induction sizes generalizing cache with
  | nil => exact ⟨cache, rfl⟩
  | cons size sizes ih =>
    let first : (Font × List (Call α)) × FontCache :=
      cache.get kit.fonts ⟨kit.style.fontPath, kit.style.scale⟩ size
    obtain ⟨cache', hrest⟩ := ih first.2
    refine ⟨cache', ?_⟩
    rw [List.mapM_cons]
    change (sizes.mapM kit.font first.2 >>= fun r => Except.ok (first.1 :: r.1, r.2)) = _
    rw [hrest]
    rfl

/-- Keeping fonts makes no difference but for the calls that it saves. Whatever the style and the system, each
request gets the font that a fresh cache would give for its size, and that is the one under the first name that
loads, or the default font; and the calls are those of the fresh look-ups of all sizes, each at the first request
of its size, and none when a size is asked for again. -/
theorem fonts_transparent (kit : Kit α) (sizes : List Int) :
    let choice : FontChoice := ⟨kit.style.fontPath, kit.style.scale⟩
    (∀ size, ∃ cache, kit.font size .empty =
        .ok ((bestFont kit.fonts choice size, fontCalls kit.fonts choice size), cache)) ∧
      ∃ answers cache, sizes.mapM kit.font .empty = .ok (answers, cache) ∧
        answers = FontCache.getAll kit.fonts choice .empty sizes ∧
        answers = sizes.zipIdx.map (fun p => (bestFont kit.fonts choice p.1,
          if p.1 ∈ sizes.take p.2 then [] else fontCalls kit.fonts choice p.1)) ∧
        answers.flatMap (·.2) = (distinct sizes).flatMap (fontCalls kit.fonts choice) := by
  intro choice
  have hempty : FontCache.Keeps kit.fonts choice [] .empty := FontCache.keeps_empty
  constructor
  · intro size
    refine ⟨_, (congrArg Except.ok (Prod.ext ?_ rfl))⟩
    exact (hempty.get (α := α) size).1
  · obtain ⟨cache, hmapM⟩ := kit.mapM_font .empty sizes
    refine ⟨_, cache, hmapM, rfl, ?_, ?_⟩
    · rw [hempty.getAll]
      simp
    · rw [hempty.calls]
      simp

end Kit

end FlowDiagram.Raster
