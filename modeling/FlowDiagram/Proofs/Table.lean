import FlowDiagram.Table
import Mathlib.Data.List.Forall2
import Mathlib.Data.List.Induction
import Mathlib.Data.List.Nodup

namespace FlowDiagram

section Distinct

variable {κ : Type} [DecidableEq κ]

theorem filter_distinct (p : κ → Bool) (ks : List κ) : (distinct ks).filter p = distinct (ks.filter p) := by
  induction ks with
  | nil => rfl
  | cons k ks ih =>
    by_cases hk : p k = true
    · have hcomm : ((distinct ks).filter (· ≠ k)).filter p = ((distinct ks).filter p).filter (· ≠ k) := by
        rw [List.filter_filter, List.filter_filter]
        simp only [Bool.and_comm]
      rw [distinct, List.filter_cons_of_pos hk, List.filter_cons_of_pos hk, hcomm, ih, distinct]
    · have hdrop : ((distinct ks).filter (· ≠ k)).filter p = (distinct ks).filter p := by
        rw [List.filter_filter]
        apply List.filter_congr
        intro a _
        by_cases ha : a = k
        · simp [ha, hk]
        · simp [ha]
      rw [distinct, List.filter_cons_of_neg hk, List.filter_cons_of_neg hk, hdrop, ih]

theorem distinct_append (as bs : List κ) :
    distinct (as ++ bs) = distinct as ++ (distinct bs).filter (· ∉ as) := by
  induction as with
  | nil => simp [distinct]
  | cons a as ih =>
    have hrest : ((distinct bs).filter (· ∉ as)).filter (· ≠ a) = (distinct bs).filter (· ∉ a :: as) := by
      rw [List.filter_filter]
      apply List.filter_congr
      intro b _
      simp
    rw [List.cons_append, distinct, ih, List.filter_append, hrest, distinct, List.cons_append]

theorem filter_distinct_insert (before after : List κ) (k : κ) :
    (distinct (before ++ k :: after)).filter (· ≠ k) = (distinct (before ++ after)).filter (· ≠ k) := by
  rw [filter_distinct, filter_distinct]
  simp

theorem distinct_insert {before : List κ} {k : κ} (h : k ∈ before) (after : List κ) :
    distinct (before ++ k :: after) = distinct (before ++ after) := by
  induction before with
  | nil => cases h
  | cons a before ih =>
    rw [List.cons_append, List.cons_append, distinct, distinct]
    by_cases ha : k = a
    · rw [← ha, filter_distinct_insert]
    · rw [ih ((List.mem_cons.mp h).resolve_left ha)]

theorem distinct_concat (ks : List κ) (k : κ) :
    distinct (ks ++ [k]) = if k ∈ ks then distinct ks else distinct ks ++ [k] := by
  by_cases hk : k ∈ ks
  · rw [if_pos hk, distinct_insert hk, List.append_nil]
  · rw [if_neg hk]
    induction ks with
    | nil => rfl
    | cons a ks ih =>
      obtain ⟨ha, hks⟩ := not_or.mp (mt List.mem_cons.mpr hk)
      rw [List.cons_append, distinct, ih hks, distinct, List.filter_append]
      simp [ha]

theorem distinct_of_nodup {ks : List κ} (h : ks.Nodup) : distinct ks = ks := by
  induction ks with
  | nil => rfl
  | cons k ks ih =>
    obtain ⟨hk, hks⟩ := List.nodup_cons.mp h
    have hkeep : ∀ a ∈ ks, decide (a ≠ k) = true := by
      intro a ha
      exact decide_eq_true fun heq => hk (heq ▸ ha)
    rw [distinct, ih hks, List.filter_eq_self.mpr hkeep]

theorem distinct_distinct_concat (ks : List κ) (k : κ) :
    distinct (distinct ks ++ [k]) = distinct (ks ++ [k]) := by
  rw [distinct_concat, distinct_concat, distinct_of_nodup (nodup_distinct ks)]
  simp only [mem_distinct]

end Distinct

namespace Table

variable {κ ν : Type} [DecidableEq κ]

theorem get?_eq_none_iff (t : Table κ ν) (k : κ) : t.get? k = none ↔ k ∉ t.keys := by
  rw [← get?_isSome]
  simp

theorem exists_of_mem_keys {t : Table κ ν} {k : κ} (h : k ∈ t.keys) : ∃ v, t.get? k = some v :=
  Option.isSome_iff_exists.mp ((get?_isSome t k).mpr h)

theorem mem_entries_of_get? {t : Table κ ν} {k : κ} {v : ν} (h : t.get? k = some v) :
    (k, v) ∈ t.entries := by
  obtain ⟨es⟩ := t
  simp only [get?] at h ⊢
  induction es with
  | nil => simp [lookup] at h
  | cons e es ih =>
    by_cases hk : e.1 = k
    · simp only [lookup, hk, if_true, Option.some.injEq] at h
      simp [← hk, ← h]
    · simp only [lookup, hk, if_false] at h
      exact List.mem_cons_of_mem _ (ih h)

theorem get?_eq_some_iff {t : Table κ ν} (hn : t.keys.Nodup) (k : κ) (v : ν) :
    t.get? k = some v ↔ (k, v) ∈ t.entries := by
  refine ⟨mem_entries_of_get?, ?_⟩
  intro h
  have hk : k ∈ t.keys := List.mem_map_of_mem h
  obtain ⟨w, hw⟩ := exists_of_mem_keys hk
  have he := List.inj_on_of_nodup_map hn (mem_entries_of_get? hw) h rfl
  rw [hw, (Prod.mk.inj he).2]

theorem find_eq_ok {ν : Type} {t : Table String ν} {id : String} {v : ν} (h : t.get? id = some v) :
    t.find id = .ok v := by
  rw [find, h]

theorem nodup_keys_put {t : Table κ ν} (hn : t.keys.Nodup) (k : κ) (v : ν) :
    (t.put k v).keys.Nodup := by
  rw [keys_put]
  split
  · exact hn
  · rename_i hk
    exact hn.append (List.nodup_singleton k) (by simpa using hk)

theorem mem_entries_put {t : Table κ ν} {k : κ} {v : ν} {e : κ × ν}
    (h : e ∈ (t.put k v).entries) : e = (k, v) ∨ e ∈ t.entries := by
  obtain ⟨es⟩ := t
  simp only [put] at h ⊢
  induction es with
  | nil => exact .inl (List.mem_singleton.mp h)
  | cons f es ih =>
    rw [store] at h
    split at h
    · rcases List.mem_cons.mp h with h | h
      · exact .inl h
      · exact .inr (List.mem_cons_of_mem _ h)
    · rcases List.mem_cons.mp h with h | h
      · exact .inr (h ▸ List.mem_cons_self ..)
      · exact (ih h).imp_right (List.mem_cons_of_mem _)

theorem mem_entries_putAll {t : Table κ ν} {es : List (κ × ν)} {e : κ × ν}
    (h : e ∈ (t.putAll es).entries) : e ∈ t.entries ∨ e ∈ es := by
  induction es generalizing t with
  | nil => exact .inl h
  | cons f es ih =>
    obtain h | h := ih (t := t.put f.1 f.2) h
    · obtain rfl | h := mem_entries_put h
      · exact .inr (List.mem_cons_self ..)
      · exact .inl h
    · exact .inr (List.mem_cons_of_mem _ h)

theorem entries_put_new {t : Table κ ν} {k : κ} (h : k ∉ t.keys) (v : ν) :
    (t.put k v).entries = t.entries ++ [(k, v)] := by
  obtain ⟨es⟩ := t
  simp only [keys, put] at h ⊢
  induction es with
  | nil => rfl
  | cons e es ih =>
    simp only [List.map_cons, List.mem_cons, not_or] at h
    rw [store, if_neg (Ne.symm h.1), ih h.2, List.cons_append]

theorem entries_putAll_new {t : Table κ ν} {es : List (κ × ν)} (hn : (es.map (·.1)).Nodup)
    (h : ∀ e ∈ es, e.1 ∉ t.keys) : (t.putAll es).entries = t.entries ++ es := by
  induction es generalizing t with
  | nil => simp [putAll]
  | cons e es ih =>
    have hn' := List.nodup_cons.mp hn
    have he := entries_put_new (h e (by simp)) e.2
    change ((t.put e.1 e.2).putAll es).entries = _
    rw [ih hn'.2 _, he, List.append_assoc]
    · rfl
    · intro f hf
      rw [keys, he]
      simp only [List.map_append, List.map_cons, List.map_nil, List.mem_append,
        List.mem_singleton, not_or]
      exact ⟨h f (List.mem_cons_of_mem _ hf), fun hk => hn'.1 (List.mem_map.mpr ⟨f, hf, hk⟩)⟩

theorem entries_ofList {es : List (κ × ν)} (hn : (es.map (·.1)).Nodup) :
    (ofList es).entries = es := by
  rw [ofList, entries_putAll_new hn (by simp [empty, keys])]
  rfl

theorem get?_ofList {es : List (κ × ν)} (hn : (es.map (·.1)).Nodup) (k : κ) (v : ν) :
    (ofList es).get? k = some v ↔ (k, v) ∈ es := by
  have he := entries_ofList hn
  rw [get?_eq_some_iff (by rw [keys, he]; exact hn), he]

theorem get?_ofList_perm {es es' : List (κ × ν)} (h : es'.Perm es) (hn : (es.map (·.1)).Nodup) (k : κ) :
    (ofList es').get? k = (ofList es).get? k := by
  have hn' : (es'.map (·.1)).Nodup := (h.map _).nodup_iff.mpr hn
  apply Option.ext
  intro v
  rw [get?_ofList hn', get?_ofList hn, h.mem_iff]

theorem ofList_concat (es : List (κ × ν)) (e : κ × ν) :
    ofList (es ++ [e]) = (ofList es).put e.1 e.2 := by
  rw [ofList, putAll, List.foldl_append]
  rfl

theorem keys_ofList (es : List (κ × ν)) : (ofList es).keys = distinct (es.map (·.1)) := by
  induction es using List.reverseRecOn with
  | nil => rfl
  | append_singleton es e ih =>
    rw [ofList_concat, keys_put, ih, List.map_append, List.map_singleton, distinct_concat]
    simp only [mem_distinct]

theorem get?_ofList_last (es : List (κ × ν)) (k : κ) :
    (ofList es).get? k = ((es.filter (·.1 = k)).getLast?).map (·.2) := by
  induction es using List.reverseRecOn with
  | nil => rfl
  | append_singleton es e ih =>
    rw [ofList_concat, get?_put, ih, List.filter_append]
    by_cases he : e.1 = k
    · simp [he]
    · simp [he]

theorem get?_ofList_filterMap_last {β : Type} (key : β → κ) (value? : β → Option ν) (bs : List β) (k : κ) :
    (ofList (bs.filterMap fun b => (value? b).map fun v => (key b, v))).get? k =
      ((bs.filter fun b => key b = k).filterMap value?).getLast? := by
  rw [get?_ofList_last, ← List.getLast?_map, List.filter_filterMap, List.map_filterMap, List.filterMap_filter]
  refine congrArg List.getLast? (List.filterMap_congr fun b _ => ?_)
  cases value? b with
  | none => simp
  | some v => by_cases hb : key b = k <;> simp [hb]

theorem get?_ofList_map_last {β : Type} (key : β → κ) (value : β → ν) (bs : List β) (k : κ) :
    (ofList (bs.map fun b => (key b, value b))).get? k =
      ((bs.filter fun b => key b = k).map value).getLast? := by
  simpa using get?_ofList_filterMap_last key (fun b => some (value b)) bs k

theorem lookup_append (k : κ) (es fs : List (κ × ν)) :
    lookup k (es ++ fs) = (lookup k es).or (lookup k fs) := by
  induction es with
  | nil => rfl
  | cons e es ih => by_cases hk : e.1 = k <;> simp [lookup, hk, ih]

theorem get?_append {t u w : Table κ ν} (h : w.entries = t.entries ++ u.entries) (k : κ) :
    w.get? k = (t.get? k).or (u.get? k) := by
  rw [get?, h, lookup_append]
  rfl

theorem get?_map {μ : Type} (f : κ → ν → μ) (t : Table κ ν) (k : κ) :
    (Table.mk (t.entries.map fun e => (e.1, f e.1 e.2))).get? k = (t.get? k).map (f k) := by
  obtain ⟨es⟩ := t
  simp only [get?]
  induction es with
  | nil => rfl
  | cons e es ih => by_cases h : e.1 = k <;> simp [lookup, h, ih]

theorem get?_mk_map (f : κ → ν) (ks : List κ) (k : κ) :
    (Table.mk (ks.map fun k => (k, f k))).get? k = if k ∈ ks then some (f k) else none := by
  simp only [get?]
  induction ks with
  | nil => rfl
  | cons a ks ih =>
    by_cases h : a = k
    · simp [lookup, h]
    · simp [lookup, h, ih, Ne.symm h]

omit [DecidableEq κ] in
theorem keys_mk_map (f : κ → ν) (ks : List κ) : (Table.mk (ks.map fun k => (k, f k))).keys = ks := by
  rw [keys, List.map_map]
  exact List.map_id ks

/-- The table with all values changed; keys keep their places. -/
def map {μ : Type} (f : ν → μ) (t : Table κ ν) : Table κ μ := ⟨t.entries.map fun e => (e.1, f e.2)⟩

section Map

variable {μ : Type} (f : ν → μ)

omit [DecidableEq κ] in
theorem keys_map (t : Table κ ν) : (t.map f).keys = t.keys := by
  rw [keys, map, List.map_map]
  rfl

theorem get?_map_value (t : Table κ ν) (k : κ) : (t.map f).get? k = (t.get? k).map f :=
  get?_map (fun _ => f) t k

theorem put_map (t : Table κ ν) (k : κ) (v : ν) : (t.map f).put k (f v) = (t.put k v).map f := by
  obtain ⟨es⟩ := t
  simp only [put, map, Table.mk.injEq]
  induction es with
  | nil => rfl
  | cons e es ih => by_cases h : e.1 = k <;> simp [store, h, ih]

theorem putAll_map (t : Table κ ν) (es : List (κ × ν)) :
    (t.map f).putAll (es.map fun e => (e.1, f e.2)) = (t.putAll es).map f := by
  induction es generalizing t with
  | nil => rfl
  | cons e es ih =>
    change ((t.map f).put e.1 (f e.2)).putAll (es.map fun e => (e.1, f e.2)) = _
    rw [put_map]
    exact ih (t.put e.1 e.2)

theorem ofList_map (es : List (κ × ν)) : ofList (es.map fun e => (e.1, f e.2)) = (ofList es).map f :=
  putAll_map f empty es

theorem get?_ofList_map (es : List (κ × ν)) (k : κ) :
    (ofList (es.map fun e => (e.1, f e.2))).get? k = ((ofList es).get? k).map f := by
  rw [ofList_map, get?_map_value]

theorem find_map {ν μ : Type} (f : ν → μ) (t : Table String ν) (id : String) :
    (t.map f).find id = f <$> t.find id := by
  rw [find, find, get?_map_value]
  cases t.get? id <;> rfl

end Map

end Table

theorem bind_eq_ok {β γ : Type} {x : Except Fault β} {f : β → Except Fault γ} {c : γ}
    (h : x >>= f = .ok c) : ∃ b, x = .ok b ∧ f b = .ok c := by
  cases x with
  | error fault => cases h
  | ok b => exact ⟨b, rfl, h⟩

theorem bind_eq_error {β γ : Type} {x : Except Fault β} {f : β → Except Fault γ} {fault : Fault}
    (h : x >>= f = .error fault) : x = .error fault ∨ ∃ b, x = .ok b ∧ f b = .error fault := by
  cases x with
  | error fault =>
    obtain rfl := Except.error.inj h
    exact .inl rfl
  | ok b => exact .inr ⟨b, rfl, h⟩

section Both

variable {β γ δ : Type} {x : Except Fault β} {y : Except Fault γ}

theorem both_ok_iff (f : β → γ → δ) :
    (∃ d, (do let b ← x; let c ← y; return f b c) = .ok d) ↔ (∃ b, x = .ok b) ∧ ∃ c, y = .ok c := by
  constructor
  · rintro ⟨d, h⟩
    obtain ⟨b, hb, h⟩ := bind_eq_ok h
    obtain ⟨c, hc, -⟩ := bind_eq_ok h
    exact ⟨⟨b, hb⟩, c, hc⟩
  · rintro ⟨⟨b, hb⟩, c, hc⟩
    rw [hb, hc]
    exact ⟨_, rfl⟩

theorem both_eq_error {f : β → γ → δ} {fault : Fault}
    (h : (do let b ← x; let c ← y; return f b c) = .error fault) : x = .error fault ∨ y = .error fault := by
  obtain h | ⟨b, -, h⟩ := bind_eq_error h
  · exact .inl h
  · obtain h | ⟨c, -, h⟩ := bind_eq_error h
    · exact .inr h
    · cases h

theorem map_ok_iff (f : β → γ) : (∃ c, (do return f (← x)) = .ok c) ↔ ∃ b, x = .ok b := by
  cases x with
  | error fault => exact iff_of_false nofun nofun
  | ok b => exact iff_of_true ⟨_, rfl⟩ ⟨b, rfl⟩

theorem map_eq_error {f : β → γ} {fault : Fault} (h : (do return f (← x)) = .error fault) :
    x = .error fault := by
  obtain h | ⟨b, -, h⟩ := bind_eq_error h
  · exact h
  · cases h

end Both

theorem exists_ok {β : Type} {x : Except Fault β} (h : x.toOption.isSome = true) : ∃ b, x = .ok b := by
  cases x with
  | error fault => cases h
  | ok b => exact ⟨b, rfl⟩

theorem guard_eq_ok {β : Type} (p : Bool) (fault : Fault) (k : Except Fault β) (b : β) :
    (do if p then throw fault
        k) = Except.ok b ↔ p = false ∧ k = .ok b := by
  cases p <;> simp [bind, Except.bind, throw, throwThe, MonadExceptOf.throw]

/-- Each step of a run that succeeds was taken from where the steps before it led. -/
theorem foldlM_split {β γ : Type} {f : β → γ → Except Fault β} {b c : β} {before after : List γ} {a : γ}
    (h : (before ++ a :: after).foldlM f b = .ok c) :
    ∃ r r', before.foldlM f b = .ok r ∧ f r a = .ok r' := by
  rw [List.foldlM_append] at h
  obtain ⟨r, hr, h⟩ := bind_eq_ok h
  rw [List.foldlM_cons] at h
  obtain ⟨r', hr', -⟩ := bind_eq_ok h
  exact ⟨r, r', hr, hr'⟩

theorem mapM_eq_ok {α β : Type} {f : α → Except Fault β} {g : α → β} {as : List α}
    (h : ∀ a ∈ as, f a = .ok (g a)) : as.mapM f = .ok (as.map g) := by
  induction as with
  | nil => rfl
  | cons a as ih =>
    rw [List.mapM_cons, h a (by simp), ih fun b hb => h b (List.mem_cons_of_mem _ hb)]
    rfl

theorem forall₂_of_mapM {α β : Type} {f : α → Except Fault β} {as : List α} {bs : List β}
    (h : as.mapM f = .ok bs) : List.Forall₂ (fun a b => f a = .ok b) as bs := by
  induction as generalizing bs with
  | nil =>
    obtain rfl := Except.ok.inj h
    exact .nil
  | cons a as ih =>
    rw [List.mapM_cons] at h
    obtain ⟨b, hb, h⟩ := bind_eq_ok h
    obtain ⟨rest, hrest, h⟩ := bind_eq_ok h
    obtain rfl := Except.ok.inj h
    exact .cons hb (ih hrest)

theorem forall_of_mapM {α β : Type} {f : α → Except Fault β} {P : β → Prop} {as : List α} {bs : List β}
    (h : as.mapM f = .ok bs) (hf : ∀ a ∈ as, ∀ b, f a = .ok b → P b) : ∀ b ∈ bs, P b := by
  have hall := forall₂_of_mapM h
  clear h
  induction hall with
  | nil => simp
  | @cons a b as bs hab _ ih =>
    have htail := ih fun a ha => hf a (List.mem_cons_of_mem _ ha)
    exact List.forall_mem_cons.mpr ⟨hf a (by simp) b hab, htail⟩

end FlowDiagram
