import FlowDiagram.Drawing
import FlowDiagram.Proofs.Table

namespace FlowDiagram.Raster

variable {α : Type}

theorem firstLoaded_paints (sys : FontSystem) (size : Int) (names : List String) :
    ∀ call ∈ (firstLoaded (α := α) sys size names).2, call.paints = false := by
  induction names with
  | nil => simp [firstLoaded]
  | cons name names ih =>
    rw [firstLoaded]
    split
    · simp [Call.paints]
    · intro call h
      obtain rfl | h := List.mem_cons.mp h
      · rfl
      · exact ih call h

theorem lookUp_paints (sys : FontSystem) (choice : FontChoice) (size : Int) :
    ∀ call ∈ (lookUp (α := α) sys choice size).2, call.paints = false := by
  have hnames : ∀ call ∈ (namesToTry (α := α) sys choice).2, call.paints = false := by
    rw [namesToTry]
    split <;> simp [Call.paints]
  have hfound := firstLoaded_paints (α := α) sys (size * choice.scale) (namesToTry (α := α) sys choice).1
  have hother : ∀ call ∈ (defaultFont (α := α) sys (size * choice.scale)).2, call.paints = false := by
    rw [defaultFont]
    split <;> simp [Call.paints]
  rw [lookUp]
  intro call
  split <;> simp only [List.mem_append] <;> rintro (h | h)
  · exact hnames call h
  · exact hfound call h
  · exact h.elim (hnames call) (hfound call)
  · exact hother call h

namespace Kit

variable (kit : Kit α)

/-- The fonts kept so far are those that a look-up finds. -/
def Sound (cache : FontCache) : Prop :=
  ∀ size font, Table.get? cache size = some font → font = kit.fontFor size

theorem sound_empty : kit.Sound .empty := by
  intro size font h
  exact absurd h (by simp [Table.get?, Table.empty, Table.lookup])

/-- A font comes from the state or from a look-up, which is the same font; the state stays sound. -/
theorem font_spec (size : Int) {cache : FontCache} (h : kit.Sound cache) :
    ∃ calls cache', kit.font size cache = .ok ((kit.fontFor size, calls), cache') ∧
      kit.Sound cache' ∧ calls.filter Call.paints = [] := by
  rw [font, FontCache.get]
  cases hget : Table.get? cache size with
  | some font => exact ⟨[], cache, by rw [h size font hget], h, rfl⟩
  | none =>
    refine ⟨_, _, rfl, ?_, ?_⟩
    · intro size' font hget'
      rw [Table.get?, Table.put, Table.lookup_store] at hget'
      split at hget'
      · next heq =>
        obtain rfl := Option.some.inj hget'
        rw [← heq, fontFor]
      · exact h size' font hget'
    · apply List.filter_eq_nil_iff.mpr
      intro call hcall
      rw [lookUp_paints kit.fonts _ size call hcall]
      exact Bool.false_ne_true

/-- From every sound state the step gives the same, up to p, and leaves a sound state. -/
structure Draws {β γ : Type} (p : β → γ) (m : Draw β) (e : Except Fault γ) : Prop where
  result : ∀ cache, kit.Sound cache → (m cache).map (fun r => p r.1) = e
  sound : ∀ cache r, kit.Sound cache → m cache = .ok r → kit.Sound r.2

namespace Draws

variable {kit} {β γ δ ε : Type} {p : β → γ} {q : δ → ε}

theorem pure {b : β} {c : γ} (h : p b = c) : kit.Draws p (Pure.pure b) (Pure.pure c) where
  result _ _ := congrArg Except.ok h
  sound cache r hcache hr := by
    obtain rfl := Except.ok.inj hr
    exact hcache

theorem lift_bind (x : Except Fault β) {f : β → Draw δ} {g : β → Except Fault ε}
    (h : ∀ b, x = .ok b → kit.Draws q (f b) (g b)) : kit.Draws q (liftM x >>= f) (x >>= g) := by
  cases x with
  | error fault => exact ⟨fun _ _ => rfl, fun _ _ _ hr => nomatch hr⟩
  | ok b => exact ⟨(h b rfl).result, (h b rfl).sound⟩

theorem ok_bind (b : β) {f : β → Draw δ} {e : Except Fault ε} (h : kit.Draws q (f b) e) :
    kit.Draws q (liftM (Except.ok b : Except Fault β) >>= f) e := ⟨h.result, h.sound⟩

theorem font_bind (size : Int) {f : Font × List (Call α) → Draw δ} {e : Except Fault ε}
    (h : ∀ calls, calls.filter Call.paints = [] → kit.Draws q (f (kit.fontFor size, calls)) e) :
    kit.Draws q (kit.font size >>= f) e where
  result cache hcache := by
    obtain ⟨calls, cache', hfont, hcache', hcalls⟩ := kit.font_spec size hcache
    change (kit.font size cache >>= fun r => f r.1 r.2).map _ = e
    rw [hfont]
    exact (h calls hcalls).result cache' hcache'
  sound cache r hcache hr := by
    obtain ⟨calls, cache', hfont, hcache', hcalls⟩ := kit.font_spec size hcache
    change (kit.font size cache >>= fun r => f r.1 r.2) = .ok r at hr
    rw [hfont] at hr
    exact (h calls hcalls).sound cache' r hcache' hr

theorem bind {m : Draw β} {e : Except Fault γ} {f : β → Draw δ} {g : γ → Except Fault ε}
    (hm : kit.Draws p m e) (hf : ∀ b, kit.Draws q (f b) (g (p b))) : kit.Draws q (m >>= f) (e >>= g) where
  result cache hcache := by
    change (m cache >>= fun r => f r.1 r.2).map _ = e >>= g
    rw [← hm.result cache hcache]
    cases hr : m cache with
    | error fault => rfl
    | ok r => exact (hf r.1).result r.2 (hm.sound cache r hcache hr)
  sound cache s hcache hs := by
    change (m cache >>= fun r => f r.1 r.2) = .ok s at hs
    obtain ⟨r, hr, hs⟩ := bind_eq_ok hs
    exact (hf r.1).sound r.2 s (hm.sound cache r hcache hr) hs

theorem mapM {ι : Type} {f : ι → Draw β} {g : ι → Except Fault γ} (h : ∀ i, kit.Draws p (f i) (g i))
    (is : List ι) : kit.Draws (List.map p) (is.mapM f) (is.mapM g) := by
  induction is with
  | nil => exact pure rfl
  | cons i is ih =>
    rw [List.mapM_cons, List.mapM_cons]
    exact (h i).bind fun b => ih.bind fun bs => pure rfl

end Draws

end Kit

end FlowDiagram.Raster
