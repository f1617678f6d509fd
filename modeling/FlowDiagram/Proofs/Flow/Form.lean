import FlowDiagram.Flow.Statement
import FlowDiagram.Proofs.Text.Line

namespace FlowDiagram

open Text

@[ext]
structure Identifier where
  chars : List Char
  ne_nil : chars ≠ []
  word : ∀ c ∈ chars, isWordChar c = true

/-- What may follow the label of a node. White space around a name belongs to the name. -/
inductive ActorForm where
  | absent
  | bracketed (before inside behind : Blanks) (name : Before ']')
  | quoted (before behind inside : Blanks) (name : Before '"')

namespace ActorForm

def text : ActorForm → List Char
  | absent => []
  | bracketed before inside behind name =>
    before.chars ++ '[' :: (inside.chars ++ ("actor".toList ++ (behind.chars ++ ':' :: (name.chars ++ [']']))))
  | quoted before behind inside name =>
    before.chars ++ ("actor".toList ++ (behind.chars ++ '=' :: (inside.chars ++ '"' :: (name.chars ++ ['"']))))

def name : ActorForm → Option (List Char)
  | absent => none
  | bracketed _ _ _ name => some name.chars
  | quoted _ _ _ name => some name.chars

/-- The name that is meant: without the white space around it, and none if nothing else is there. -/
def given (f : ActorForm) : Option String :=
  f.name.bind fun name => if trim name = [] then none else some (String.ofList (trim name))

end ActorForm

@[ext]
structure NodeForm where
  kind : Kind
  gap : Blanks
  gap_ne : gap.chars ≠ []
  id : Identifier
  space : Blanks
  label : Before '"'
  actor : ActorForm

namespace NodeForm

def text (f : NodeForm) : List Char :=
  f.kind.word.toList ++ (f.gap.chars ++ (f.id.chars ++ (f.space.chars ++ '"' :: (f.label.chars ++ '"' :: f.actor.text))))

def node (f : NodeForm) : Node where
  id := String.ofList f.id.chars
  kind := f.kind
  label := String.ofList f.label.chars
  actor := if f.kind = .task then f.actor.given else none

def statement (f : NodeForm) : Statement :=
  .node f.node (if f.kind = .task then none else f.actor.given)

end NodeForm

@[ext]
structure EdgeForm where
  source : Identifier
  before : Blanks
  /-- The arrow has two dashes. -/
  long : Bool
  behind : Blanks
  first : Option (Before '|' × Blanks)
  target : Identifier
  last : Option (Blanks × Before '|')

namespace EdgeForm

def arrow : Bool → List Char
  | true => ['-', '-', '>']
  | false => ['-', '>']

def firstText : Option (Before '|' × Blanks) → List Char
  | none => []
  | some (label, ws) => '|' :: (label.chars ++ '|' :: ws.chars)

def lastText : Option (Blanks × Before '|') → List Char
  | none => []
  | some (ws, label) => ws.chars ++ '|' :: (label.chars ++ ['|'])

def text (f : EdgeForm) : List Char :=
  f.source.chars ++ (f.before.chars ++ (arrow f.long ++ (f.behind.chars ++ (firstText f.first ++
    (f.target.chars ++ lastText f.last)))))

/-- The label that counts is the first one. -/
def label (f : EdgeForm) : List Char :=
  ((f.first.map (·.1.chars)).or (f.last.map (·.2.chars))).getD []

def edge (f : EdgeForm) : Edge where
  source := String.ofList f.source.chars
  target := String.ofList f.target.chars
  label := String.ofList (trim f.label)

def doubled (f : EdgeForm) : Bool := f.first.isSome && f.last.isSome

def statement (f : EdgeForm) : Statement := .edge f.edge f.doubled

end EdgeForm

section Classes

theorem isWordChar_iff (c : Char) : isWordChar c = true ↔ c.isAlphanum = true ∨ c = '_' := by
  simp [isWordChar]

theorem toNat_of_isWordChar {c : Char} (h : isWordChar c = true) : c.toNat ≤ 122 ∧ 48 ≤ c.toNat := by
  rw [isWordChar_iff] at h
  obtain h | rfl := h
  · change ((decide (65 ≤ c.val ∧ c.val ≤ 90) || (decide (97 ≤ c.val) && decide (c.val ≤ 122))) ||
      (decide (48 ≤ c.val) && decide (c.val ≤ 57))) = true at h
    simp only [Bool.or_eq_true, Bool.and_eq_true, decide_eq_true_eq, UInt32.le_iff_toNat_le] at h
    have hnat : c.toNat = c.val.toNat := rfl
    simp at h
    omega
  · decide

theorem isBlank_of_isWordChar {c : Char} (h : isWordChar c = true) : isBlank c = false := by
  have hn := toNat_of_isWordChar h
  rw [Bool.eq_false_iff]
  intro hb
  simp only [isBlank, inRanges, blankRanges, List.any_cons, List.any_nil, Bool.or_false,
    Bool.or_eq_true, Bool.and_eq_true, decide_eq_true_eq] at hb
  omega

theorem isWordChar_of_isBlank {c : Char} (h : isBlank c = true) : isWordChar c = false := by
  rw [Bool.eq_false_iff]
  intro hw
  rw [isBlank_of_isWordChar hw] at h
  cases h

theorem Kind.isWordChar_of_mem_word (k : Kind) : ∀ c ∈ k.word.toList, isWordChar c = true := by
  apply List.all_eq_true.mp
  cases k <;> decide

theorem Kind.word_ne_nil (k : Kind) : k.word.toList ≠ [] := by
  cases k <;> decide

theorem Kind.word_inj {k k' : Kind} (h : k.word = k'.word) : k = k' := by
  have hk := Kind.ofWord_word k
  rw [h, Kind.ofWord_word] at hk
  exact (Except.ok.inj hk).symm

theorem Identifier.stops (id : Identifier) (rest : List Char) : Stops isBlank (id.chars ++ rest) := by
  apply (stops_append id.ne_nil rest).mpr
  obtain ⟨c, cs, hc⟩ := List.exists_cons_of_ne_nil id.ne_nil
  rw [hc, stops_cons]
  apply isBlank_of_isWordChar
  apply id.word
  simp [hc]

theorem Text.Blanks.stops (ws : Blanks) {rest : List Char} (h : Stops isWordChar rest) :
    Stops isWordChar (ws.chars ++ rest) := h.of_run (fun _ => isWordChar_of_isBlank) ws.blank

theorem Text.Blanks.stops_self (ws : Blanks) : Stops isWordChar ws.chars := by
  have h := ws.stops (stops_nil isWordChar)
  rwa [List.append_nil] at h

theorem EdgeForm.arrow_stops (p : Char → Bool) (h : p '-' = false) (long : Bool) (rest : List Char) :
    Stops p (arrow long ++ rest) := by
  cases long <;> simpa [arrow] using h

end Classes

theorem Identifier.inj {id id' : Identifier} {rest rest' : List Char} (h : Stops isWordChar rest)
    (h' : Stops isWordChar rest') (heq : id.chars ++ rest = id'.chars ++ rest') : id = id' ∧ rest = rest' := by
  obtain ⟨hid, hrest⟩ := run_inj id.word h id'.word h' heq
  exact ⟨Identifier.ext hid, hrest⟩

theorem stops_actor (rest : List Char) : Stops isBlank ("actor".toList ++ rest) := by
  have hhead : "actor".toList ++ rest = 'a' :: ('c' :: 't' :: 'o' :: 'r' :: rest) := rfl
  rw [hhead, stops_cons]
  decide

theorem stops_blank_cons {c : Char} (h : isBlank c = false) (rest : List Char) :
    Stops isBlank (c :: rest) := stops_cons.mpr h

theorem ActorForm.text_injective : Function.Injective ActorForm.text := by
  have hbracket : isBlank '[' = false := by decide
  have hcolon : isBlank ':' = false := by decide
  have hequals : isBlank '=' = false := by decide
  have hquote : isBlank '"' = false := by decide
  intro f g h
  cases f with
  | absent =>
    cases g with
    | absent => rfl
    | bracketed => simp [text] at h
    | quoted => simp [text] at h
  | bracketed a b c name =>
    cases g with
    | absent => simp [text] at h
    | bracketed a' b' c' name' =>
      obtain ⟨ha, hinside⟩ := Blanks.inj (stops_blank_cons hbracket _) (stops_blank_cons hbracket _) h
      obtain ⟨hb, hword⟩ := Blanks.inj (stops_actor _) (stops_actor _) (List.cons.inj hinside).2
      have hbehind := List.append_cancel_left hword
      obtain ⟨hc, hname⟩ := Blanks.inj (stops_blank_cons hcolon _) (stops_blank_cons hcolon _) hbehind
      obtain ⟨hn, -⟩ := Before.inj (List.cons.inj hname).2
      rw [ha, hb, hc, hn]
    | quoted a' b' c' name' =>
      obtain ⟨-, hhead⟩ := Blanks.inj (stops_blank_cons hbracket _) (stops_actor _) h
      exact absurd (List.cons.inj hhead).1 (by decide)
  | quoted a b c name =>
    cases g with
    | absent => simp [text] at h
    | bracketed a' b' c' name' =>
      obtain ⟨-, hhead⟩ := Blanks.inj (stops_actor _) (stops_blank_cons hbracket _) h
      exact absurd (List.cons.inj hhead).1 (by decide)
    | quoted a' b' c' name' =>
      obtain ⟨ha, hword⟩ := Blanks.inj (stops_actor _) (stops_actor _) h
      have hbehind := List.append_cancel_left hword
      obtain ⟨hb, hinside⟩ :=
        Blanks.inj (stops_blank_cons hequals _) (stops_blank_cons hequals _) hbehind
      obtain ⟨hc, hname⟩ := Blanks.inj (stops_blank_cons hquote _) (stops_blank_cons hquote _)
        (List.cons.inj hinside).2
      obtain ⟨hn, -⟩ := Before.inj (List.cons.inj hname).2
      rw [ha, hb, hc, hn]

theorem NodeForm.text_injective : Function.Injective NodeForm.text := by
  have hquote : isBlank '"' = false := by decide
  have hstop : isWordChar '"' = false := by decide
  intro f g h
  have hgap (f : NodeForm) (rest : List Char) : Stops isWordChar (f.gap.chars ++ rest) :=
    (stops_append f.gap_ne rest).mpr f.gap.stops_self
  obtain ⟨hword, hrest⟩ := run_inj f.kind.isWordChar_of_mem_word (hgap f _)
    g.kind.isWordChar_of_mem_word (hgap g _) h
  have hkind := Kind.word_inj (String.toList_inj.mp hword)
  obtain ⟨hgap, hrest⟩ := Blanks.inj (f.id.stops _) (g.id.stops _) hrest
  obtain ⟨hid, hrest⟩ := Identifier.inj (f.space.stops (stops_cons.mpr hstop))
    (g.space.stops (stops_cons.mpr hstop)) hrest
  obtain ⟨hspace, hrest⟩ := Blanks.inj (stops_blank_cons hquote _) (stops_blank_cons hquote _) hrest
  obtain ⟨hlabel, hrest⟩ := Before.inj (List.cons.inj hrest).2
  have hactor := ActorForm.text_injective hrest
  exact NodeForm.ext hkind hgap hid hspace hlabel hactor

theorem Identifier.ne_bar (id : Identifier) (rest cs : List Char) : id.chars ++ rest ≠ '|' :: cs := by
  intro h
  obtain ⟨c, tail, hc⟩ := List.exists_cons_of_ne_nil id.ne_nil
  rw [hc] at h
  obtain ⟨rfl, -⟩ := List.cons.inj h
  have hbar := id.word '|' (by simp [hc])
  revert hbar
  decide

namespace EdgeForm

theorem arrow_inj {long long' : Bool} {rest rest' : List Char}
    (h : arrow long ++ rest = arrow long' ++ rest') : long = long' ∧ rest = rest' := by
  cases long <;> cases long' <;> simp_all [arrow]

theorem stops_firstText (first : Option (Before '|' × Blanks)) (target : Identifier)
    (rest : List Char) : Stops isBlank (firstText first ++ (target.chars ++ rest)) := by
  cases first with
  | none => exact target.stops rest
  | some first =>
    have hbar : isBlank '|' = false := by decide
    exact stops_cons.mpr hbar

theorem stops_lastText (last : Option (Blanks × Before '|')) : Stops isWordChar (lastText last) := by
  cases last with
  | none => exact stops_nil _
  | some last =>
    have hbar : isWordChar '|' = false := by decide
    exact last.1.stops (stops_cons.mpr hbar)

theorem firstText_inj {first first' : Option (Before '|' × Blanks)} {target target' : Identifier}
    {rest rest' : List Char}
    (h : firstText first ++ (target.chars ++ rest) = firstText first' ++ (target'.chars ++ rest')) :
    first = first' ∧ target.chars ++ rest = target'.chars ++ rest' := by
  cases first with
  | none =>
    cases first' with
    | none => exact ⟨rfl, h⟩
    | some first' => exact absurd h (Identifier.ne_bar _ _ _)
  | some first =>
    cases first' with
    | none => exact absurd h.symm (Identifier.ne_bar _ _ _)
    | some first' =>
      obtain ⟨label, ws⟩ := first
      obtain ⟨label', ws'⟩ := first'
      simp only [firstText, List.cons_append, List.append_assoc] at h
      have hcons := (List.cons.inj h).2
      obtain ⟨hlabel, hrest⟩ := Before.inj hcons
      obtain ⟨hws, htarget⟩ := Blanks.inj (target.stops _) (target'.stops _) hrest
      exact ⟨by rw [hlabel, hws], htarget⟩

theorem lastText_injective : Function.Injective lastText := by
  have hbar : isBlank '|' = false := by decide
  intro last last' h
  cases last with
  | none =>
    cases last' with
    | none => rfl
    | some last' => simp [lastText] at h
  | some last =>
    cases last' with
    | none => simp [lastText] at h
    | some last' =>
      obtain ⟨ws, label⟩ := last
      obtain ⟨ws', label'⟩ := last'
      obtain ⟨hws, hrest⟩ := Blanks.inj (stops_blank_cons hbar _) (stops_blank_cons hbar _) h
      obtain ⟨hlabel, -⟩ := Before.inj (List.cons.inj hrest).2
      rw [hws, hlabel]

theorem text_injective : Function.Injective EdgeForm.text := by
  have hdash : isWordChar '-' = false := by decide
  have hblank : isBlank '-' = false := by decide
  intro f g h
  obtain ⟨hsource, hrest⟩ := Identifier.inj (f.before.stops (arrow_stops _ hdash _ _))
    (g.before.stops (arrow_stops _ hdash _ _)) h
  obtain ⟨hbefore, hrest⟩ := Blanks.inj (arrow_stops _ hblank _ _) (arrow_stops _ hblank _ _) hrest
  obtain ⟨hlong, hrest⟩ := arrow_inj hrest
  obtain ⟨hbehind, hrest⟩ := Blanks.inj (stops_firstText _ _ _) (stops_firstText _ _ _) hrest
  obtain ⟨hfirst, hrest⟩ := firstText_inj hrest
  obtain ⟨htarget, hrest⟩ := Identifier.inj (stops_lastText _) (stops_lastText _) hrest
  have hlast := lastText_injective hrest
  exact EdgeForm.ext hsource hbefore hlong hbehind hfirst htarget hlast

end EdgeForm

theorem NodeForm.exists_head (f : NodeForm) :
    ∃ c rest, f.text = c :: rest ∧ isWordChar c = true := by
  obtain ⟨c, cs, hc⟩ := List.exists_cons_of_ne_nil f.kind.word_ne_nil
  refine ⟨c, _, by rw [NodeForm.text, hc, List.cons_append], ?_⟩
  apply f.kind.isWordChar_of_mem_word
  simp [hc]

theorem EdgeForm.exists_head (f : EdgeForm) :
    ∃ c rest, f.text = c :: rest ∧ isWordChar c = true := by
  obtain ⟨c, cs, hc⟩ := List.exists_cons_of_ne_nil f.source.ne_nil
  refine ⟨c, _, by rw [EdgeForm.text, hc, List.cons_append], ?_⟩
  apply f.source.word
  simp [hc]

theorem NodeForm.text_ne (f : NodeForm) (g : EdgeForm) : f.text ≠ g.text := by
  have hdash : isWordChar '-' = false := by decide
  have hblank : isBlank '-' = false := by decide
  intro h
  have hgap : Stops isWordChar (f.gap.chars ++ (f.id.chars ++ (f.space.chars ++
      '"' :: (f.label.chars ++ '"' :: f.actor.text)))) :=
    (stops_append f.gap_ne _).mpr f.gap.stops_self
  obtain ⟨-, hrest⟩ := run_inj f.kind.isWordChar_of_mem_word hgap g.source.word
    (g.before.stops (EdgeForm.arrow_stops _ hdash _ _)) h
  obtain ⟨-, hrest⟩ := Blanks.inj (f.id.stops _) (EdgeForm.arrow_stops _ hblank _ _) hrest
  obtain ⟨c, cs, hc⟩ := List.exists_cons_of_ne_nil f.id.ne_nil
  have hword : isWordChar c = true := f.id.word c (by simp [hc])
  have hstop := EdgeForm.arrow_stops isWordChar hdash g.long (g.behind.chars ++
    (EdgeForm.firstText g.first ++ (g.target.chars ++ EdgeForm.lastText g.last)))
  rw [← hrest, hc, List.cons_append, stops_cons, hword] at hstop
  cases hstop

theorem trim_of_ends {text : List Char} (hhead : ∃ c rest, text = c :: rest ∧ isWordChar c = true)
    (hlast : ∃ cs c, text = cs ++ [c] ∧ isBlank c = false) : trim text = text := by
  obtain ⟨c, rest, htext, hc⟩ := hhead
  have hfirst : Stops isBlank text := by
    rw [htext, stops_cons]
    exact isBlank_of_isWordChar hc
  obtain ⟨cs, d, rfl, hd⟩ := hlast
  exact trim_concat hfirst hd

theorem NodeForm.trim_text (f : NodeForm) : trim f.text = f.text := by
  have hquote : isBlank '"' = false := by decide
  have hbracket : isBlank ']' = false := by decide
  apply trim_of_ends f.exists_head
  cases h : f.actor with
  | absent =>
    refine ⟨f.kind.word.toList ++ (f.gap.chars ++ (f.id.chars ++ (f.space.chars ++
      '"' :: f.label.chars))), '"', ?_, hquote⟩
    simp [NodeForm.text, h, ActorForm.text]
  | bracketed before inside behind name =>
    refine ⟨f.kind.word.toList ++ (f.gap.chars ++ (f.id.chars ++ (f.space.chars ++
      '"' :: (f.label.chars ++ '"' :: (before.chars ++ '[' :: (inside.chars ++
        ("actor".toList ++ (behind.chars ++ ':' :: name.chars)))))))), ']', ?_, hbracket⟩
    simp [NodeForm.text, h, ActorForm.text]
  | quoted before behind inside name =>
    refine ⟨f.kind.word.toList ++ (f.gap.chars ++ (f.id.chars ++ (f.space.chars ++
      '"' :: (f.label.chars ++ '"' :: (before.chars ++ ("actor".toList ++ (behind.chars ++
        '=' :: (inside.chars ++ '"' :: name.chars)))))))), '"', ?_, hquote⟩
    simp [NodeForm.text, h, ActorForm.text]

theorem EdgeForm.trim_text (f : EdgeForm) : trim f.text = f.text := by
  have hbar : isBlank '|' = false := by decide
  apply trim_of_ends f.exists_head
  cases h : f.last with
  | none =>
    refine ⟨f.source.chars ++ (f.before.chars ++ (EdgeForm.arrow f.long ++ (f.behind.chars ++
      (EdgeForm.firstText f.first ++ f.target.chars.dropLast)))), f.target.chars.getLast f.target.ne_nil,
      ?_, ?_⟩
    · simp [EdgeForm.text, h, EdgeForm.lastText, List.dropLast_concat_getLast]
    · exact isBlank_of_isWordChar (f.target.word _ (List.getLast_mem _))
  | some last =>
    refine ⟨f.source.chars ++ (f.before.chars ++ (EdgeForm.arrow f.long ++ (f.behind.chars ++
      (EdgeForm.firstText f.first ++ (f.target.chars ++ (last.1.chars ++ '|' :: last.2.chars)))))), '|',
      ?_, hbar⟩
    simp [EdgeForm.text, h, EdgeForm.lastText]

end FlowDiagram
