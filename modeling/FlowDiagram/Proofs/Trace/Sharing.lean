import FlowDiagram.Proofs.Trace.Store
import Mathlib.Data.List.Pairwise

namespace FlowDiagram

variable {α : Type}

/-- The addresses of the lists in a map, key by key. -/
def Table.addresses (held : Table String (Slot α)) : List Nat := held.entries.filterMap (·.2.address?)

theorem Table.mem_addresses {held : Table String (Slot α)} {key : String} {s : Slot α} {a : Nat}
    (h : (key, s) ∈ held.entries) (ha : s.address? = some a) : a ∈ held.addresses :=
  List.mem_filterMap.mpr ⟨_, h, ha⟩

theorem Table.mem_addresses_of_get? {held : Table String (Slot α)} {key : String} {a : Nat}
    (h : (held.get? key).bind Slot.address? = some a) : a ∈ held.addresses := by
  obtain ⟨s, hs, ha⟩ := Option.bind_eq_some_iff.mp h
  exact mem_addresses (mem_entries_of_get? hs) ha

theorem Table.key_unique {held : Table String (Slot α)} (hn : held.addresses.Nodup) {key key' : String} {a : Nat}
    (h : (held.get? key).bind Slot.address? = some a) (h' : (held.get? key').bind Slot.address? = some a) :
    key = key' := by
  obtain ⟨s, hs, ha⟩ := Option.bind_eq_some_iff.mp h
  obtain ⟨s', hs', ha'⟩ := Option.bind_eq_some_iff.mp h'
  have hsymm : Std.Symm fun e e' : String × Slot α =>
      ∀ b, e.2.address? = some b → ∀ b', e'.2.address? = some b' → b ≠ b' :=
    ⟨fun _ _ h b hb b' hb' => (h b' hb' b hb).symm⟩
  have hpairs := (List.pairwise_filterMap.mp hn).forall (mem_entries_of_get? hs) (mem_entries_of_get? hs')
  by_contra hne
  exact hpairs (fun heq => hne (Prod.mk.inj heq).1) a ha a ha' rfl

namespace Recorder

namespace Step

def sets (map : Nat) (key : String) : Step α → Bool
  | set map' key' _ => map' = map && key' = key
  | _ => false

/-- The value that a step adds under a key of a map. -/
def appends? (map : Nat) (key : String) : Step α → Option (Value α)
  | append map' key' v => if map' = map ∧ key' = key then some v else none
  | _ => none

theorem appends?_of_sets {map : Nat} {key : String} {s : Step α} (h : s.sets map key = true) :
    s.appends? map key = none := by
  cases s with
  | append map' key' v => cases h
  | _ => rfl

/-- The step sets or adds under a key of this map, if it does so of any. -/
def works (map : Nat) : Step α → Bool
  | set map' _ _ | append map' _ _ => map' = map
  | _ => true

/-- The step sets no key of the map to one of these lists, and adds to none of them through another map. -/
def Apart (r : Recorder α) (map : Nat) (lists : List Nat) : Step α → Prop
  | set map' _ (.held from' key) =>
    map' = map → (r.slot? from' key).isSome ∧ ∀ a ∈ lists, r.address? from' key ≠ some a
  | append map' key _ => map' ≠ map → ∀ a ∈ lists, r.address? map' key ≠ some a
  | _ => True

instance (r : Recorder α) (map : Nat) (lists : List Nat) : (s : Step α) → Decidable (s.Apart r map lists)
  | set map' _ (.held from' key) =>
    inferInstanceAs (Decidable (map' = map → (r.slot? from' key).isSome ∧ ∀ a ∈ lists, r.address? from' key ≠ some a))
  | append map' key _ => inferInstanceAs (Decidable (map' ≠ map → ∀ a ∈ lists, r.address? map' key ≠ some a))
  | set _ _ (.new _) | make | add _ _ => inferInstanceAs (Decidable True)

end Step

/-- What is added under a key of a map before the key is first set. -/
def appended (map : Nat) (key : String) (steps : List (Step α)) : List (Value α) :=
  (steps.takeWhile fun s => !s.sets map key).filterMap (·.appends? map key)

theorem appended_cons (map : Nat) (key : String) (s : Step α) (steps : List (Step α)) :
    appended map key (s :: steps) =
      if s.sets map key then [] else (s.appends? map key).toList ++ appended map key steps := by
  cases hsets : s.sets map key with
  | true => simp [appended, hsets]
  | false => cases hv : s.appends? map key <;> simp [appended, hsets, hv]

example : appended (α := Nat) 0 "k" [.append 0 "k" (.int 1), .append 0 "l" .null, .set 1 "k" (.new .null),
    .append 0 "k" (.int 2), .set 0 "k" (.held 0 "l"), .append 0 "k" (.int 3)] = [.int 1, .int 2] := rfl

def Apart (map : Nat) (lists : List Nat) : Recorder α → List (Step α) → Prop
  | _, [] => True
  | r, s :: steps => s.Apart r map lists ∧ Apart map lists (r.step s) steps

def decideApart (map : Nat) (lists : List Nat) : (r : Recorder α) → (steps : List (Step α)) →
    Decidable (r.Apart map lists steps)
  | _, [] => inferInstanceAs (Decidable True)
  | r, s :: steps =>
    have := decideApart map lists (r.step s) steps
    inferInstanceAs (Decidable (s.Apart r map lists ∧ (r.step s).Apart map lists steps))

instance (map : Nat) (lists : List Nat) (r : Recorder α) (steps : List (Step α)) :
    Decidable (r.Apart map lists steps) := decideApart map lists r steps

section Apart

variable {r : Recorder α} {map a : Nat} {lists : List Nat}

/-- Only setting its key takes a list away from a map, and the map does not get it elsewhere. -/
theorem address?_step (hmap : map < r.maps.length) (ha : a < r.lists.length) (hmem : a ∈ lists) {s : Step α}
    (hs : s.Apart r map lists) (key : String) :
    (r.step s).address? map key = some a ↔ r.address? map key = some a ∧ s.sets map key = false := by
  have hput {t : Slot α} {map' : Nat} {key' : String} (ht : map' = map → t.address? ≠ some a) :
      (r.put map' key' t).address? map key = some a ↔
        r.address? map key = some a ∧ (decide (map' = map) && decide (key' = key)) = false := by
    rw [address?_put]
    by_cases hkey : map' = map ∧ key' = key
    · simp [hkey.1, hkey.2, hmap, ht hkey.1]
    · have hother : (decide (map' = map) && decide (key' = key)) = false := by simpa using hkey
      rw [if_neg fun h => hkey ⟨h.1, h.2.1⟩, hother]
      simp
  cases s with
  | make =>
    have hsame : (r.step .make).address? map key = r.address? map key := by
      change ((r.maps ++ [_])[map]?.bind _).bind _ = _
      rw [List.getElem?_append_left hmap, address?, slot?]
    simp [hsame, Step.sets]
  | set map' key' source =>
    cases source with
    | new v =>
      have hsame (t : Slot α) :
          ((r.allot v).2.put map' key' t).address? map key = (r.put map' key' t).address? map key := by
        rw [address?, slot?, put, maps_allot, address?, slot?, put]
      have hnew : (r.allot v).1.address? ≠ some a := by
        intro h
        obtain rfl := address?_allot r v h
        exact Nat.lt_irrefl _ ha
      change ((r.allot v).2.put map' key' _).address? map key = some a ↔ _
      rw [hsame]
      exact hput fun _ => hnew
    | held from' key'' =>
      rw [step_set_held]
      cases hslot : r.slot? from' key'' with
      | none =>
        have hother : map' ≠ map := by
          intro h
          have hsome := (hs h).1
          rw [hslot] at hsome
          cases hsome
        simp [Step.sets, hother]
      | some t =>
        apply hput
        intro h ht
        apply (hs h).2 a hmem
        rw [address?, hslot]
        exact ht
  | append map' key' v =>
    rw [step_append]
    split <;> simp [Step.sets, address?, slot?]
  | add name map' =>
    have hsame : (r.step (.add name map')).maps = r.maps := by
      change (r.add name map').maps = r.maps
      rw [add]
      split <;> rfl
    simp [address?, slot?, hsame, Step.sets]

theorem gain_eq (hmem : a ∈ lists) {key : String} (hown : ∀ key', r.address? map key' = some a → key' = key)
    {s : Step α} (hs : s.Apart r map lists) :
    r.gain a s = if r.address? map key = some a then (s.appends? map key).toList else [] := by
  cases s with
  | append map' key' v =>
    rw [gain, Step.appends?]
    by_cases hmap : map' = map
    · subst hmap
      by_cases hkey : key' = key
      · subst hkey
        simp
      · have hnot : r.address? map' key' ≠ some a := fun h => hkey (hown key' h)
        simp [hkey, hnot]
    · have hnot := hs hmap a hmem
      simp [hmap, hnot]
  | _ => simp [gain, Step.appends?]

/-- While the steps keep apart, what is added to a list of the map is added under its key, until the key is set. -/
theorem gains_eq (key : String) {steps : List (Step α)} (hmap : map < r.maps.length) (ha : a < r.lists.length)
    (hmem : a ∈ lists) (hown : ∀ key', r.address? map key' = some a → key' = key) (hsteps : r.Apart map lists steps) :
    r.gains a steps = if r.address? map key = some a then appended map key steps else [] := by
  induction steps generalizing r with
  | nil => simp [gains, appended]
  | cons s steps ih =>
    obtain ⟨hs, hsteps⟩ := hsteps
    have hkeep := address?_step hmap ha hmem hs
    have hrest := ih (Nat.lt_of_lt_of_le hmap (grows_step s).maps)
      (Nat.lt_of_lt_of_le ha (grows_step s).lists) (fun key' h => hown key' ((hkeep key').mp h).1) hsteps
    rw [gains, gain_eq hmem hown hs, hrest, appended_cons]
    -- Once its key is set, the list is under no key of the map, and stays so.
    by_cases hheld : r.address? map key = some a
    · cases hsets : s.sets map key with
      | true =>
        simp [hkeep, hsets, Step.appends?_of_sets hsets]
      | false => simp [hkeep, hheld, hsets]
    · simp [hkeep, hheld]

end Apart

section Stages

variable {r : Recorder α}

/-- A recorded stage keeps its keys, and shows under each what it showed, each list with what is added to it. -/
theorem Sound.stage_after (h : r.Sound) {i : Nat} {stage : String × Table String (Slot α)}
    (hi : r.stages[i]? = some stage) (steps : List (Step α)) : (r.after steps).trace.stages[i]? =
      some ⟨stage.1, ⟨stage.2.entries.map fun e => (e.1, (r.read e.2).extend (r.gainsOf e.2 steps))⟩⟩ := by
  obtain ⟨hlt, hget⟩ := List.getElem?_eq_some_iff.mp hi
  have hkept : (r.after steps).stages[i]? = some stage :=
    hget ▸ List.prefix_iff_getElem?.mp (grows_after steps).stages i hlt
  have hread : ∀ e ∈ stage.2.entries, (r.after steps).read e.2 = (r.read e.2).extend (r.gainsOf e.2 steps) := by
    intro e he
    exact read_after (h.stages stage (List.mem_of_getElem? hi) e he) steps
  rw [trace, List.getElem?_map, hkept, Option.map_some, view]
  congr 3
  apply List.map_congr_left
  intro e he
  rw [hread e he]

section Held

variable {map : Nat} {held : Table String (Slot α)} (hheld : r.maps[map]? = some held)
include hheld

theorem address?_of_map (key : String) : r.address? map key = (held.get? key).bind Slot.address? := by
  rw [address?, slot?, hheld, Option.bind_some]

theorem Sound.extend_gainsOf (h : r.Sound) (hn : held.addresses.Nodup) {key : String} {s : Slot α}
    (he : (key, s) ∈ held.entries) {steps : List (Step α)} (hsteps : r.Apart map held.addresses steps) :
    (r.read s).extend (r.gainsOf s steps) = (r.read s).extend (appended map key steps) := by
  have hmem : held ∈ r.maps := List.mem_of_getElem? hheld
  have hmap : map < r.maps.length := (List.getElem?_eq_some_iff.mp hheld).1
  have hget : held.get? key = some s := (Table.get?_eq_some_iff (h.keys held hmem) key s).mpr he
  have hfits : s.Fits r.lists.length := h.maps held hmem _ he
  cases hfits with
  | @value v hv =>
    change v.extend [] = v.extend _
    cases v with
    | list vs => exact absurd rfl (hv vs)
    | _ => rfl
  | @shared a ha =>
    have haddress : (held.get? key).bind Slot.address? = some a := by
      rw [hget]
      rfl
    have hown : ∀ key', r.address? map key' = some a → key' = key := by
      intro key' hkey'
      rw [address?_of_map hheld] at hkey'
      exact Table.key_unique hn hkey' haddress
    change (r.read _).extend (r.gains a steps) = _
    rw [gains_eq key hmap ha (Table.mem_addresses he rfl) hown hsteps, address?_of_map hheld, if_pos haddress]

theorem gainsOf_eq_nil {lists : List Nat} (hdisjoint : ∀ a ∈ held.addresses, a ∉ lists) {s : Slot α}
    (hs : s.Fits r.lists.length) (hmem : ∀ a, s.address? = some a → a ∈ lists) {steps : List (Step α)}
    (hsteps : r.Apart map lists steps) : r.gainsOf s steps = [] := by
  cases hs with
  | value hv => rfl
  | @shared a ha =>
    have hmap : map < r.maps.length := (List.getElem?_eq_some_iff.mp hheld).1
    have hnot : ∀ key, r.address? map key ≠ some a := by
      intro key hkey
      rw [address?_of_map hheld] at hkey
      exact hdisjoint a (Table.mem_addresses_of_get? hkey) (hmem a rfl)
    change r.gains a steps = []
    rw [gains_eq "" hmap ha (hmem a rfl) (fun key h => absurd h (hnot key)) hsteps, if_neg (hnot "")]

end Held

theorem stages_step_add {map : Nat} {held : Table String (Slot α)} (h : r.maps[map]? = some held) (name : String) :
    r.step (.add name map) = { r with stages := r.stages ++ [(name, held)] } := by
  change r.add name map = _
  rw [add, h]

end Stages

/-- What a recorded stage shows after more steps. Under each key it shows what it showed, each list with all that
was added to it meanwhile. So a map whose lists are all different shows what it held when it was recorded, each
list with what is added under its key before the key is first set, if no key of the map is set to a list that it
held; and an earlier stage shows what it showed, if the map holds none of its lists and gets none. -/
theorem trace_after_add (input : String) (diagnostics : List String) (before after : List (Step α)) (name : String)
    (map : Nat) (held : Table String (Slot α)) :
    let r := ({ input, diagnostics } : Recorder α).after before
    let added := r.step (.add name map)
    let stages := (added.after after).trace.stages
    r.maps[map]? = some held →
      (∀ (i : Nat) stage, added.stages[i]? = some stage → stages[i]? = some ⟨stage.1,
        ⟨stage.2.entries.map fun e => (e.1, (added.read e.2).extend (added.gainsOf e.2 after))⟩⟩) ∧
      (held.addresses.Nodup → added.Apart map held.addresses after → stages[r.stages.length]? = some ⟨name,
        ⟨held.entries.map fun e => (e.1, (r.read e.2).extend (appended map e.1 after))⟩⟩) ∧
      ∀ (i : Nat) stage, r.stages[i]? = some stage → (∀ a ∈ held.addresses, a ∉ stage.2.addresses) →
        added.Apart map stage.2.addresses after → stages[i]? = r.trace.stages[i]? := by
  intro r added stages hheld
  have hr : r.Sound := (sound_start input diagnostics).after before
  have hadded : added.Sound := hr.step (.add name map)
  have heq : added = { r with stages := r.stages ++ [(name, held)] } := stages_step_add hheld name
  have hmaps : added.maps[map]? = some held := by
    rw [heq]
    exact hheld
  have hread (s : Slot α) : added.read s = r.read s := by
    rw [heq]
    cases s <;> rfl
  refine ⟨fun i stage hi => hadded.stage_after hi after, ?_, ?_⟩
  · intro hn hafter
    have hstage : added.stages[r.stages.length]? = some (name, held) := by
      rw [heq]
      simp
    rw [hadded.stage_after hstage after]
    congr 3
    apply List.map_congr_left
    rintro ⟨key, s⟩ he
    rw [← hread, hadded.extend_gainsOf hmaps hn he hafter]
  · intro i stage hi hdisjoint hafter
    have hstage : added.stages[i]? = some stage := by
      rw [heq, List.getElem?_append_left (List.getElem?_eq_some_iff.mp hi).1, hi]
    rw [hadded.stage_after hstage after, trace, List.getElem?_map, hi, Option.map_some, view]
    congr 3
    apply List.map_congr_left
    rintro ⟨key, s⟩ he
    have hfits : s.Fits added.lists.length := hadded.stages stage (List.mem_of_getElem? hstage) _ he
    have hmem : ∀ a, s.address? = some a → a ∈ stage.2.addresses := fun a ha => Table.mem_addresses he ha
    rw [gainsOf_eq_nil hmaps hdisjoint hfits hmem hafter, Value.extend_nil, hread]

/-- Two recorded maps, and a third list that the second map is set to. -/
theorem trace_after_add_apart :
    let before : List (Step Float) := [.make, .set 0 "a" (.new (.list [.int 1])), .add "first" 0, .make,
      .set 1 "a" (.new (.list [.int 2])), .set 1 "n" (.new .null), .make, .set 2 "b" (.new (.list [.int 3]))]
    let after : List (Step Float) := [.append 1 "a" (.int 4), .set 1 "a" (.held 2 "b"), .append 1 "a" (.int 5),
      .set 1 "n" (.new (.list [])), .append 1 "n" (.int 6), .add "last" 1]
    let r := ({ input := "" } : Recorder Float).after before
    let stages := ((r.step (.add "second" 1)).after after).trace.stages
    stages[1]? = some ⟨"second", ⟨[("a", .list [.int 2, .int 4]), ("n", .null)]⟩⟩ ∧
      stages[0]? = some ⟨"first", ⟨[("a", .list [.int 1])]⟩⟩ := by
  intro before after r stages
  obtain ⟨-, hshown, hearlier⟩ := trace_after_add "" [] before after "second" 1 _ rfl
  exact ⟨hshown (by decide) (by decide), hearlier 0 _ rfl (by decide) (by decide)⟩

/-- A key that is set to the list it holds already, after which it is added to; and a map that is recorded twice. -/
theorem trace_after_add_aliased :
    (¬∀ (before after : List (Step Float)) (name : String) (map : Nat) (held : Table String (Slot Float)),
      let r := ({ input := "" } : Recorder Float).after before
      r.maps[map]? = some held → held.addresses.Nodup → (∀ s ∈ after, s.works map = true) →
        ((r.step (.add name map)).after after).trace.stages[r.stages.length]? = some ⟨name,
          ⟨held.entries.map fun e => (e.1, (r.read e.2).extend (appended map e.1 after))⟩⟩) ∧
    ¬∀ (before after : List (Step Float)) (name : String) (map : Nat) (held : Table String (Slot Float)),
      let r := ({ input := "" } : Recorder Float).after before
      r.maps[map]? = some held → held.addresses.Nodup → (∀ s ∈ after, s.works map = true) →
        ∀ i < r.stages.length, ((r.step (.add name map)).after after).trace.stages[i]? = r.trace.stages[i]? := by
  constructor
  · intro h
    have hshown := h [.make, .set 0 "a" (.new (.list []))] [.set 0 "a" (.held 0 "a"), .append 0 "a" .null] "s" 0 _ rfl
      (by decide) (by decide)
    cases hshown
  · intro h
    have hshown := h [.make, .set 0 "a" (.new (.list [])), .add "s" 0] [.append 0 "a" .null] "again" 0 _ rfl
      (by decide) (by decide) 0 (by decide)
    cases hshown

end Recorder

end FlowDiagram
