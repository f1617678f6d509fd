import FlowDiagram.Proofs.Table
import FlowDiagram.Trace.Recorder

namespace FlowDiagram

variable {α : Type}

/-- A list with more values at its end. Other values have no end. -/
def Value.extend (more : List (Value α)) : Value α → Value α
  | list vs => list (vs ++ more)
  | v => v

theorem Value.extend_nil (v : Value α) : v.extend [] = v := by
  cases v <;> simp [extend]

def Slot.address? : Slot α → Option Nat
  | value _ => none
  | shared a => some a

/-- The slot holds a list by an address below this one, and every other value itself. -/
inductive Slot.Fits (n : Nat) : Slot α → Prop
  | value {v : Value α} (h : ∀ vs, v ≠ .list vs) : Fits n (.value v)
  | shared {a : Nat} (h : a < n) : Fits n (.shared a)

theorem Slot.Fits.mono {n n' : Nat} {s : Slot α} (h : s.Fits n) (hle : n ≤ n') : s.Fits n' := by
  cases h with
  | value h => exact .value h
  | shared h => exact .shared (Nat.lt_of_lt_of_le h hle)

namespace Recorder

def address? (r : Recorder α) (map : Nat) (key : String) : Option Nat := (r.slot? map key).bind Slot.address?

section Operations

variable (r : Recorder α) (map map' : Nat) (key key' : String) (s : Slot α) (v : Value α)

@[simp] theorem lists_put : (r.put map key s).lists = r.lists := rfl

@[simp] theorem maps_allot : (r.allot v).2.maps = r.maps := by
  cases v <;> rfl

@[simp] theorem stages_allot : (r.allot v).2.stages = r.stages := by
  cases v <;> rfl

theorem lists_allot : r.lists <+: (r.allot v).2.lists := by
  cases v <;> simp [allot]

theorem address?_allot {a : Nat} (h : (r.allot v).1.address? = some a) : a = r.lists.length := by
  cases v with
  | list vs => exact (Option.some.inj h).symm
  | _ => cases h

theorem fits_allot : (r.allot v).1.Fits (r.allot v).2.lists.length := by
  cases v with
  | list vs => exact .shared (by simp [allot])
  | _ => exact .value (by simp)

theorem address?_put : (r.put map' key' s).address? map key =
    if map' = map ∧ key' = key ∧ map < r.maps.length then s.address? else r.address? map key := by
  rw [address?, slot?, put, List.getElem?_modify, address?, slot?]
  by_cases hmap : map' = map
  · subst hmap
    cases hheld : r.maps[map']? with
    | none =>
      have hout : ¬map' < r.maps.length := by simpa using hheld
      simp [hout]
    | some held =>
      obtain ⟨hlt, -⟩ := List.getElem?_eq_some_iff.mp hheld
      by_cases hkey : key' = key <;> simp [Table.get?_put, hlt, hkey]
  · simp [hmap]

theorem step_set_held : r.step (.set map key (.held map' key')) =
    match r.slot? map' key' with
    | none => r
    | some s => r.put map key s := by
  rw [step, perform, set]
  cases r.slot? map' key' <;> rfl

theorem step_append : r.step (.append map key v) =
    match r.address? map key with
    | none => r
    | some a => { r with lists := r.lists.modify a (· ++ [v]) } := by
  rw [step, perform, append, address?]
  cases r.slot? map key with
  | none => rfl
  | some s => cases s <;> rfl

end Operations

/-- The lists that maps and stages hold are there, and a map has every key once. -/
structure Sound (r : Recorder α) : Prop where
  keys : ∀ held ∈ r.maps, held.keys.Nodup
  maps : ∀ held ∈ r.maps, ∀ e ∈ held.entries, e.2.Fits r.lists.length
  stages : ∀ stage ∈ r.stages, ∀ e ∈ stage.2.entries, e.2.Fits r.lists.length

theorem sound_start (input : String) (diagnostics : List String) : ({ input, diagnostics } : Recorder α).Sound := by
  constructor <;> simp

section Sound

variable {r : Recorder α}

theorem Sound.fits_slot (h : r.Sound) {map : Nat} {key : String} {s : Slot α} (hs : r.slot? map key = some s) :
    s.Fits r.lists.length := by
  obtain ⟨held, hheld, hs⟩ := Option.bind_eq_some_iff.mp hs
  exact h.maps held (List.mem_of_getElem? hheld) _ (Table.mem_entries_of_get? hs)

theorem Sound.grow (h : r.Sound) {r' : Recorder α} (hmaps : r'.maps = r.maps) (hstages : r'.stages = r.stages)
    (hlength : r.lists.length ≤ r'.lists.length) : r'.Sound where
  keys held hheld := h.keys held (hmaps ▸ hheld)
  maps held hheld e he := (h.maps held (hmaps ▸ hheld) e he).mono hlength
  stages stage hstage e he := (h.stages stage (hstages ▸ hstage) e he).mono hlength

theorem Sound.put (h : r.Sound) (map : Nat) (key : String) {s : Slot α} (hs : s.Fits r.lists.length) :
    (r.put map key s).Sound := by
  have hmaps : ∀ held ∈ (r.put map key s).maps, ∃ old ∈ r.maps, held = old ∨ held = old.put key s := by
    intro held hheld
    obtain ⟨i, hi⟩ := List.mem_iff_getElem?.mp hheld
    rw [Recorder.put, List.getElem?_modify] at hi
    obtain ⟨old, hold, rfl⟩ := Option.map_eq_some_iff.mp hi
    refine ⟨old, List.mem_of_getElem? hold, ?_⟩
    split
    · exact .inr rfl
    · exact .inl rfl
  refine ⟨?_, ?_, h.stages⟩
  · intro held hheld
    obtain ⟨old, hold, rfl | rfl⟩ := hmaps held hheld
    · exact h.keys _ hold
    · exact Table.nodup_keys_put (h.keys old hold) key s
  · intro held hheld e he
    obtain ⟨old, hold, rfl | rfl⟩ := hmaps held hheld
    · exact h.maps _ hold e he
    · obtain rfl | he := Table.mem_entries_put he
      · exact hs
      · exact h.maps old hold e he

theorem Sound.step (h : r.Sound) (s : Step α) : (r.step s).Sound := by
  cases s with
  | make =>
    refine ⟨?_, ?_, h.stages⟩ <;> intro held hheld <;> obtain hheld | hheld := List.mem_append.mp hheld
    · exact h.keys held hheld
    · exact List.mem_singleton.mp hheld ▸ List.nodup_nil
    · exact h.maps held hheld
    · exact List.mem_singleton.mp hheld ▸ nofun
  | set map key source =>
    cases source with
    | new v =>
      have hgrow := h.grow (maps_allot r v) (stages_allot r v) (lists_allot r v).length_le
      exact hgrow.put map key (fits_allot r v)
    | held map' key' =>
      rw [step_set_held]
      split
      · exact h
      · next s hs => exact h.put map key (h.fits_slot hs)
  | append map key v =>
    rw [step_append]
    split
    · exact h
    · exact h.grow rfl rfl (Nat.le_of_eq (List.length_modify ..).symm)
  | add name map =>
    change (r.add name map).Sound
    rw [add]
    split
    · exact h
    · next held hheld =>
      refine ⟨h.keys, h.maps, ?_⟩
      intro stage hstage
      obtain hstage | hstage := List.mem_append.mp hstage
      · exact h.stages stage hstage
      · obtain rfl := List.mem_singleton.mp hstage
        exact h.maps held (List.mem_of_getElem? hheld)

theorem Sound.after (h : r.Sound) (steps : List (Step α)) : (r.after steps).Sound := by
  induction steps generalizing r with
  | nil => exact h
  | cons s steps ih => exact ih (h.step s)

end Sound

/-- Lists, maps and stages are never taken away, and a stage stays where it is. -/
structure Grows (r r' : Recorder α) : Prop where
  lists : r.lists.length ≤ r'.lists.length
  maps : r.maps.length ≤ r'.maps.length
  stages : r.stages <+: r'.stages

section Grows

variable {r r' r'' : Recorder α}

theorem Grows.refl (r : Recorder α) : r.Grows r := ⟨Nat.le_refl _, Nat.le_refl _, List.prefix_refl _⟩

theorem Grows.trans (h : r.Grows r') (h' : r'.Grows r'') : r.Grows r'' :=
  ⟨Nat.le_trans h.lists h'.lists, Nat.le_trans h.maps h'.maps, h.stages.trans h'.stages⟩

theorem grows_put (r : Recorder α) (map : Nat) (key : String) (s : Slot α) : r.Grows (r.put map key s) :=
  ⟨Nat.le_refl _, Nat.le_of_eq (List.length_modify ..).symm, List.prefix_refl _⟩

theorem grows_allot (r : Recorder α) (v : Value α) : r.Grows (r.allot v).2 :=
  ⟨(lists_allot r v).length_le, by simp, by simp⟩

theorem grows_step (s : Step α) : r.Grows (r.step s) := by
  cases s with
  | make => exact ⟨Nat.le_refl _, (List.prefix_append r.maps [.empty]).length_le, List.prefix_refl _⟩
  | set map key source =>
    cases source with
    | new v => exact (grows_allot r v).trans (grows_put _ map key _)
    | held map' key' =>
      rw [step_set_held]
      split
      · exact .refl r
      · exact grows_put r map key _
  | append map key v =>
    rw [step_append]
    split
    · exact .refl r
    · exact ⟨Nat.le_of_eq (List.length_modify ..).symm, Nat.le_refl _, List.prefix_refl _⟩
  | add name map =>
    change r.Grows (r.add name map)
    rw [add]
    split
    · exact .refl r
    · exact ⟨Nat.le_refl _, Nat.le_refl _, List.prefix_append ..⟩

theorem grows_after (steps : List (Step α)) : r.Grows (r.after steps) := by
  induction steps generalizing r with
  | nil => exact .refl r
  | cons s steps ih => exact (grows_step s).trans ih

end Grows

/-- What a step adds to the list at an address, through whichever key of whichever map. -/
def gain (r : Recorder α) (a : Nat) : Step α → List (Value α)
  | .append map key v => if r.address? map key = some a then [v] else []
  | _ => []

def gains (a : Nat) : Recorder α → List (Step α) → List (Value α)
  | _, [] => []
  | r, s :: steps => r.gain a s ++ gains a (r.step s) steps

/-- What is added to the list in a slot, if there is one. -/
def gainsOf (r : Recorder α) (s : Slot α) (steps : List (Step α)) : List (Value α) :=
  match s.address? with
  | none => []
  | some a => r.gains a steps

section Lists

variable {r : Recorder α}

theorem lists_step {a : Nat} (ha : a < r.lists.length) (s : Step α) :
    (r.step s).lists[a]? = r.lists[a]?.map (· ++ r.gain a s) := by
  cases s with
  | make =>
    change r.lists[a]? = _
    simp [gain]
  | set map key source =>
    cases source with
    | new v =>
      change (r.allot v).2.lists[a]? = _
      rw [List.prefix_iff_getElem?.mp (lists_allot r v) a ha]
      simp [gain, ha]
    | held map' key' =>
      rw [step_set_held]
      split <;> simp [gain]
  | append map key v =>
    rw [step_append, gain]
    split
    · next haddress => simp [haddress]
    · next a' haddress =>
      rw [haddress, List.getElem?_modify]
      by_cases heq : a' = a <;> simp [heq]
  | add name map =>
    change (r.add name map).lists[a]? = _
    rw [add]
    split <;> simp [gain]

/-- A list keeps what it has, and has what is added behind. -/
theorem lists_after {a : Nat} (ha : a < r.lists.length) (steps : List (Step α)) :
    (r.after steps).lists[a]? = r.lists[a]?.map (· ++ r.gains a steps) := by
  induction steps generalizing r with
  | nil => simp [after, gains]
  | cons s steps ih =>
    have hafter : (r.step s).after steps = r.after (s :: steps) := rfl
    rw [← hafter, ih (Nat.lt_of_lt_of_le ha (grows_step s).lists), lists_step ha, Option.map_map, gains]
    congr 1
    funext vs
    exact List.append_assoc ..

theorem read_after {s : Slot α} (hs : s.Fits r.lists.length) (steps : List (Step α)) :
    (r.after steps).read s = (r.read s).extend (r.gainsOf s steps) := by
  cases hs with
  | @value v _ => exact (Value.extend_nil v).symm
  | shared ha => simp [read, lists_after ha, ha, gainsOf, Slot.address?, Value.extend]

end Lists

end Recorder

end FlowDiagram
