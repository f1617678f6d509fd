import FlowDiagram.Proofs.Flow.Form

namespace FlowDiagram.Statement

open Text

theorem after?_append (lead rest : List Char) : after? lead (lead ++ rest) = some rest :=
  after?_eq_some.mpr rfl

theorem word?_append (id : Identifier) {rest : List Char} (h : Stops isWordChar rest) :
    word? (id.chars ++ rest) = some (id.chars, rest) := by
  rw [word?, takeWhile_run id.word h, dropWhile_run id.word h, if_neg id.ne_nil]

theorem exists_of_word? {cs word rest : List Char} (h : word? cs = some (word, rest)) :
    ∃ id : Identifier, id.chars = word ∧ Stops isWordChar rest ∧ cs = id.chars ++ rest := by
  rw [word?] at h
  split at h
  · cases h
  · rename_i hne
    obtain ⟨rfl, rfl⟩ := Prod.mk.inj (Option.some.inj h)
    refine ⟨⟨cs.takeWhile isWordChar, hne, ?_⟩, rfl, stops_dropWhile _ _, ?_⟩
    · intro c hc
      exact List.mem_takeWhile_imp hc
    · exact List.takeWhile_append_dropWhile.symm

section Close

variable {close : Char}

theorem upTo?_append (as : Before close) (rest : List Char) :
    upTo? close (as.chars ++ close :: rest) = some (as.chars, rest) := by
  have hstop := stops_close close rest
  rw [upTo?, dropWhile_run as.ne hstop, takeWhile_run as.ne hstop]

theorem exists_of_upTo? {cs word rest : List Char} (h : upTo? close cs = some (word, rest)) :
    ∃ as : Before close, as.chars = word ∧ cs = as.chars ++ close :: rest := by
  rw [upTo?] at h
  split at h
  · cases h
  · rename_i c tail hdrop
    obtain ⟨rfl, rfl⟩ := Prod.mk.inj (Option.some.inj h)
    have hstop := stops_dropWhile (fun c => decide (c ≠ close)) cs
    rw [hdrop, stops_cons] at hstop
    obtain rfl : c = close := by simpa using hstop
    refine ⟨⟨cs.takeWhile (· ≠ c), ?_⟩, rfl, ?_⟩
    · intro hmem
      have hne := List.mem_takeWhile_imp hmem
      simp at hne
    · rw [← hdrop, List.takeWhile_append_dropWhile]

end Close

theorem atEnd_iff {cs : List Char} : atEnd cs = true ↔ ∀ c ∈ cs, isBlank c = true := by
  rw [atEnd, decide_eq_true_eq, dropBlanks_eq_nil]

theorem atEnd_blanks (ws : Blanks) : atEnd ws.chars = true := atEnd_iff.mpr ws.blank

section Keyword

theorem after?_word {k : Kind} {cs : List Char} {v : Kind × List Char}
    (h : (match after? k.word.toList cs with
      | some (c :: rest) => if isBlank c then some (k, dropBlanks rest) else none
      | _ => none) = some v) :
    v.1 = k ∧ Stops isBlank v.2 ∧ ∃ gap : Blanks, gap.chars ≠ [] ∧ cs = k.word.toList ++ (gap.chars ++ v.2) := by
  split at h
  · rename_i c rest hafter
    by_cases hc : isBlank c = true
    · rw [if_pos hc] at h
      obtain rfl := Option.some.inj h
      obtain ⟨ws, hws⟩ := exists_blanks rest
      refine ⟨rfl, stops_dropBlanks rest, ⟨c :: ws.chars, ?_⟩, List.cons_ne_nil _ _, ?_⟩
      · exact List.forall_mem_cons.mpr ⟨hc, ws.blank⟩
      · rw [after?_eq_some.mp hafter, List.cons_append, ← hws]
    · rw [if_neg hc] at h
      cases h
  · cases h

theorem exists_of_keyword? {cs rest : List Char} {k : Kind} (h : keyword? cs = some (k, rest)) :
    Stops isBlank rest ∧ ∃ gap : Blanks, gap.chars ≠ [] ∧ cs = k.word.toList ++ (gap.chars ++ rest) := by
  obtain ⟨k', -, hk⟩ := List.exists_of_findSome?_eq_some h
  obtain ⟨heq, hstops, hgap⟩ := after?_word hk
  obtain rfl : k = k' := heq
  exact ⟨hstops, hgap⟩

theorem keyword?_append (k : Kind) {gap : Blanks} (hgap : gap.chars ≠ []) {rest : List Char}
    (h : Stops isBlank rest) : keyword? (k.word.toList ++ (gap.chars ++ rest)) = some (k, rest) := by
  have hword {gap : Blanks} (hne : gap.chars ≠ []) (rest : List Char) :
      Stops isWordChar (gap.chars ++ rest) := (stops_append hne rest).mpr gap.stops_self
  have hfound : (keyword? (k.word.toList ++ (gap.chars ++ rest))).isSome = true := by
    refine List.findSome?_isSome_iff.mpr ⟨k, by cases k <;> decide, ?_⟩
    obtain ⟨c, cs, hc⟩ := List.exists_cons_of_ne_nil hgap
    have hblank : isBlank c = true := gap.blank c (by simp [hc])
    rw [after?_append, hc, List.cons_append]
    simp [hblank]
  obtain ⟨⟨k', rest'⟩, hsome⟩ := Option.isSome_iff_exists.mp hfound
  -- No other keyword can be read there, as the word ends where the white space begins.
  obtain ⟨hstops, gap', hgap', heq⟩ := exists_of_keyword? hsome
  obtain ⟨hk, hrest⟩ := run_inj k.isWordChar_of_mem_word (hword hgap rest)
    k'.isWordChar_of_mem_word (hword hgap' rest') heq
  obtain ⟨-, rfl⟩ := Blanks.inj h hstops hrest
  obtain rfl := Kind.word_inj (String.toList_inj.mp hk)
  exact hsome

end Keyword

section Actor

theorem bracketedActor?_eq_some {cs name : List Char} : bracketedActor? cs = some name ↔
    ∃ (inside behind ws : Blanks) (as : Before ']'), as.chars = name ∧
      cs = '[' :: (inside.chars ++ ("actor".toList ++ (behind.chars ++ ':' :: (as.chars ++ ']' :: ws.chars)))) := by
  have hcolon : isBlank ':' = false := by decide
  constructor
  · intro h
    simp only [bracketedActor?, Option.bind_eq_bind, Option.bind_eq_some_iff] at h
    obtain ⟨cs₁, h₁, cs₂, h₂, cs₃, h₃, ⟨word, rest⟩, h₄, h₅⟩ := h
    obtain ⟨inside, hinside⟩ := exists_blanks cs₁
    obtain ⟨behind, hbehind⟩ := exists_blanks cs₂
    obtain ⟨as, rfl, has⟩ := exists_of_upTo? h₄
    by_cases hend : atEnd rest = true
    · rw [if_pos hend] at h₅
      obtain rfl := Option.some.inj h₅
      refine ⟨inside, behind, ⟨rest, atEnd_iff.mp hend⟩, as, rfl, ?_⟩
      rw [after?_eq_some.mp h₁, hinside, after?_eq_some.mp h₂, hbehind, after?_eq_some.mp h₃, has]
      rfl
    · rw [if_neg hend] at h₅
      cases h₅
  · rintro ⟨inside, behind, ws, as, rfl, rfl⟩
    have hopen (rest : List Char) : after? ['['] ('[' :: rest) = some rest := after?_append ['['] rest
    have hpoint (rest : List Char) : after? [':'] (':' :: rest) = some rest := after?_append [':'] rest
    simp only [bracketedActor?, Option.bind_eq_bind, Option.bind_some, hopen, hpoint, after?_append,
      upTo?_append, dropBlanks_append inside (stops_actor _),
      dropBlanks_append behind (stops_blank_cons hcolon _), atEnd_blanks, if_true]

theorem quotedActor?_eq_some {cs name : List Char} : quotedActor? cs = some name ↔
    ∃ (behind inside ws : Blanks) (as : Before '"'), as.chars = name ∧
      cs = "actor".toList ++ (behind.chars ++ '=' :: (inside.chars ++ '"' :: (as.chars ++ '"' :: ws.chars))) := by
  have hequals : isBlank '=' = false := by decide
  have hquote : isBlank '"' = false := by decide
  constructor
  · intro h
    simp only [quotedActor?, Option.bind_eq_bind, Option.bind_eq_some_iff] at h
    obtain ⟨cs₁, h₁, cs₂, h₂, cs₃, h₃, ⟨word, rest⟩, h₄, h₅⟩ := h
    obtain ⟨behind, hbehind⟩ := exists_blanks cs₁
    obtain ⟨inside, hinside⟩ := exists_blanks cs₂
    obtain ⟨as, rfl, has⟩ := exists_of_upTo? h₄
    by_cases hend : atEnd rest = true
    · rw [if_pos hend] at h₅
      obtain rfl := Option.some.inj h₅
      refine ⟨behind, inside, ⟨rest, atEnd_iff.mp hend⟩, as, rfl, ?_⟩
      rw [after?_eq_some.mp h₁, hbehind, after?_eq_some.mp h₂, hinside, after?_eq_some.mp h₃, has]
      rfl
    · rw [if_neg hend] at h₅
      cases h₅
  · rintro ⟨behind, inside, ws, as, rfl, rfl⟩
    have hopen (rest : List Char) : after? ['"'] ('"' :: rest) = some rest := after?_append ['"'] rest
    have hsign (rest : List Char) : after? ['='] ('=' :: rest) = some rest := after?_append ['='] rest
    simp only [quotedActor?, Option.bind_eq_bind, Option.bind_some, hopen, hsign, after?_append,
      upTo?_append, dropBlanks_append behind (stops_blank_cons hequals _),
      dropBlanks_append inside (stops_blank_cons hquote _), atEnd_blanks, if_true]

theorem bracketedActor?_actor (rest : List Char) : bracketedActor? ("actor".toList ++ rest) = none := by
  rw [bracketedActor?]
  rfl

theorem atEnd_append {ws : Blanks} {c : Char} (h : isBlank c = false) (rest : List Char) :
    atEnd (ws.chars ++ c :: rest) = false := by
  rw [Bool.eq_false_iff]
  intro hend
  have hc := atEnd_iff.mp hend c (by simp)
  rw [h] at hc
  cases hc

theorem actor?_append (f : ActorForm) (ws : Blanks) : actor? (f.text ++ ws.chars) = some f.name := by
  cases f with
  | absent =>
    have hend : atEnd (ActorForm.absent.text ++ ws.chars) = true := atEnd_blanks ws
    rw [actor?, if_pos hend]
    rfl
  | bracketed before inside behind name =>
    have htext : (ActorForm.bracketed before inside behind name).text ++ ws.chars = before.chars ++
        '[' :: (inside.chars ++ ("actor".toList ++ (behind.chars ++ ':' :: (name.chars ++ ']' :: ws.chars)))) := by
      simp [ActorForm.text]
    have hbracket : isBlank '[' = false := by decide
    have hread := bracketedActor?_eq_some.mpr ⟨inside, behind, ws, name, rfl, rfl⟩
    rw [htext, actor?, atEnd_append hbracket, dropBlanks_append before (stops_blank_cons hbracket _),
      hread]
    rfl
  | quoted before behind inside name =>
    have htext : (ActorForm.quoted before behind inside name).text ++ ws.chars = before.chars ++
        ("actor".toList ++ (behind.chars ++ '=' :: (inside.chars ++ '"' :: (name.chars ++ '"' :: ws.chars)))) := by
      simp [ActorForm.text]
    have ha : isBlank 'a' = false := by decide
    have hend : atEnd (before.chars ++ ("actor".toList ++
        (behind.chars ++ '=' :: (inside.chars ++ '"' :: (name.chars ++ '"' :: ws.chars))))) = false :=
      atEnd_append ha _
    have hread := quotedActor?_eq_some.mpr ⟨behind, inside, ws, name, rfl, rfl⟩
    rw [htext, actor?, hend, dropBlanks_append before (stops_actor _), bracketedActor?_actor, hread]
    rfl

theorem exists_of_actor? {cs : List Char} {name : Option (List Char)} (h : actor? cs = some name) :
    ∃ (f : ActorForm) (ws : Blanks), cs = f.text ++ ws.chars ∧ f.name = name := by
  rw [actor?] at h
  by_cases hend : atEnd cs = true
  · rw [if_pos hend] at h
    exact ⟨.absent, ⟨cs, atEnd_iff.mp hend⟩, rfl, Option.some.inj h⟩
  · rw [if_neg hend] at h
    obtain ⟨word, hword, rfl⟩ := Option.map_eq_some_iff.mp h
    obtain ⟨before, hbefore⟩ := exists_blanks cs
    obtain hread | ⟨-, hread⟩ := Option.or_eq_some_iff.mp hword
    · obtain ⟨inside, behind, ws, name, rfl, hcs⟩ := bracketedActor?_eq_some.mp hread
      refine ⟨.bracketed before inside behind name, ws, ?_, rfl⟩
      rw [hbefore, hcs]
      simp [ActorForm.text]
    · obtain ⟨behind, inside, ws, name, rfl, hcs⟩ := quotedActor?_eq_some.mp hread
      refine ⟨.quoted before behind inside name, ws, ?_, rfl⟩
      rw [hbefore, hcs]
      simp [ActorForm.text]

end Actor

section Node

/-- A node line is read as what it declares, whatever white space follows. -/
theorem node?_append (f : NodeForm) (ws : Blanks) :
    (node? (f.text ++ ws.chars)).map ofNode = some f.statement := by
  have hquote : isBlank '"' = false := by decide
  have hstop : isWordChar '"' = false := by decide
  have htext : f.text ++ ws.chars = f.kind.word.toList ++ (f.gap.chars ++ (f.id.chars ++ (f.space.chars ++
      '"' :: (f.label.chars ++ '"' :: (f.actor.text ++ ws.chars))))) := by
    simp [NodeForm.text]
  have hname : f.actor.name.bind name? = f.actor.given := rfl
  have hread : node? (f.text ++ ws.chars) = some ⟨String.ofList f.id.chars, f.kind, String.ofList f.label.chars,
      f.actor.given⟩ := by
    have hopen (rest : List Char) : after? ['"'] ('"' :: rest) = some rest := after?_append ['"'] rest
    rw [htext]
    simp only [node?, Option.bind_eq_bind, Option.bind_some, hopen, upTo?_append, actor?_append, hname,
      keyword?_append f.kind f.gap_ne (f.id.stops _),
      word?_append f.id (f.space.stops (stops_cons.mpr hstop)),
      dropBlanks_append f.space (stops_blank_cons hquote _)]
  rw [hread, Option.map_some, ofNode, NodeForm.statement, NodeForm.node]
  by_cases hk : f.kind = .task
  · simp [hk]
  · simp [hk]

theorem exists_of_node? {cs : List Char} {n : Node} (h : node? cs = some n) :
    ∃ (f : NodeForm) (ws : Blanks), cs = f.text ++ ws.chars := by
  simp only [node?, Option.bind_eq_bind, Option.bind_eq_some_iff, Prod.exists] at h
  obtain ⟨kind, cs₁, h₁, word, cs₂, h₂, cs₃, h₃, title, cs₄, h₄, name, h₅, -⟩ := h
  obtain ⟨-, gap, hgap, hcs⟩ := exists_of_keyword? h₁
  obtain ⟨id, rfl, -, hid⟩ := exists_of_word? h₂
  obtain ⟨space, hspace⟩ := exists_blanks cs₂
  obtain ⟨label, rfl, hlabel⟩ := exists_of_upTo? h₄
  obtain ⟨actor, ws, hactor, -⟩ := exists_of_actor? h₅
  refine ⟨⟨kind, gap, hgap, id, space, label, actor⟩, ws, ?_⟩
  rw [hcs, hid, hspace, after?_eq_some.mp h₃, hlabel, hactor]
  simp [NodeForm.text]

end Node

section Edge

theorem arrow?_append (long : Bool) (rest : List Char) :
    arrow? (EdgeForm.arrow long ++ rest) = some rest := by
  cases long with
  | true =>
    have hlong : after? ['-', '-', '>'] (EdgeForm.arrow true ++ rest) = some rest := after?_append _ _
    rw [arrow?, hlong]
    rfl
  | false =>
    have hlong : after? ['-', '-', '>'] (EdgeForm.arrow false ++ rest) = none := rfl
    have hshort : after? ['-', '>'] (EdgeForm.arrow false ++ rest) = some rest := after?_append _ _
    rw [arrow?, hlong, hshort]
    rfl

theorem exists_of_arrow? {cs rest : List Char} (h : arrow? cs = some rest) :
    ∃ long, cs = EdgeForm.arrow long ++ rest := by
  obtain h | ⟨-, h⟩ := Option.or_eq_some_iff.mp h
  · exact ⟨true, after?_eq_some.mp h⟩
  · exact ⟨false, after?_eq_some.mp h⟩

theorem bars?_append (label : Before '|') (rest : List Char) :
    bars? ('|' :: (label.chars ++ '|' :: rest)) = some (label.chars, rest) := by
  have hafter : after? ['|'] ('|' :: (label.chars ++ '|' :: rest)) = some (label.chars ++ '|' :: rest) :=
    after?_append ['|'] _
  rw [bars?, hafter]
  exact upTo?_append label rest

theorem exists_of_bars? {cs word rest : List Char} (h : bars? cs = some (word, rest)) :
    ∃ label : Before '|', label.chars = word ∧ cs = '|' :: (label.chars ++ '|' :: rest) := by
  simp only [bars?, Option.bind_eq_bind, Option.bind_eq_some_iff] at h
  obtain ⟨cs₁, h₁, h₂⟩ := h
  obtain ⟨label, rfl, hlabel⟩ := exists_of_upTo? h₂
  refine ⟨label, rfl, ?_⟩
  rw [after?_eq_some.mp h₁, hlabel]
  rfl

theorem arrowLabel?_append (first : Option (Before '|' × Blanks)) (target : Identifier)
    (rest : List Char) : arrowLabel? (EdgeForm.firstText first ++ (target.chars ++ rest)) =
      some (first.map (·.1.chars), target.chars ++ rest) := by
  cases first with
  | none =>
    have hhead : (target.chars ++ rest).head? ≠ some '|' := by
      intro h
      obtain ⟨cs, hcs⟩ := List.head?_eq_some_iff.mp h
      exact target.ne_bar rest cs hcs
    exact if_neg hhead
  | some first =>
    obtain ⟨label, ws⟩ := first
    have htext : EdgeForm.firstText (some (label, ws)) ++ (target.chars ++ rest) =
        '|' :: (label.chars ++ '|' :: (ws.chars ++ (target.chars ++ rest))) := by
      simp [EdgeForm.firstText]
    rw [htext, arrowLabel?, List.head?_cons, if_pos rfl, bars?_append, Option.map_some]
    simp only [dropBlanks_append ws (target.stops rest), Option.map_some]

theorem exists_of_arrowLabel? {cs rest : List Char} {label : Option (List Char)}
    (h : arrowLabel? cs = some (label, rest)) :
    ∃ first, first.map (·.1.chars) = label ∧ cs = EdgeForm.firstText first ++ rest := by
  rw [arrowLabel?] at h
  split at h
  · obtain ⟨⟨word, tail⟩, hbars, heq⟩ := Option.map_eq_some_iff.mp h
    obtain ⟨rfl, rfl⟩ := Prod.mk.inj heq
    obtain ⟨as, rfl, hcs⟩ := exists_of_bars? hbars
    obtain ⟨ws, hws⟩ := exists_blanks tail
    refine ⟨some (as, ws), rfl, ?_⟩
    rw [hcs, EdgeForm.firstText, List.cons_append, List.append_assoc, List.cons_append, ← hws]
  · obtain ⟨rfl, rfl⟩ := Prod.mk.inj (Option.some.inj h)
    exact ⟨none, rfl, rfl⟩

theorem endLabel?_append (last : Option (Blanks × Before '|')) (ws : Blanks) :
    endLabel? (EdgeForm.lastText last ++ ws.chars) = some (last.map (·.2.chars)) := by
  cases last with
  | none => exact if_pos (atEnd_blanks ws)
  | some last =>
    obtain ⟨before, label⟩ := last
    have hbar : isBlank '|' = false := by decide
    have htext : EdgeForm.lastText (some (before, label)) ++ ws.chars =
        before.chars ++ '|' :: (label.chars ++ '|' :: ws.chars) := by
      simp [EdgeForm.lastText]
    rw [htext, endLabel?, atEnd_append hbar, dropBlanks_append before (stops_blank_cons hbar _)]
    simp only [Bool.false_eq_true, if_false, bars?_append, Option.bind_eq_bind, Option.bind_some,
      atEnd_blanks, if_true, Option.map_some]

theorem exists_of_endLabel? {cs : List Char} {label : Option (List Char)}
    (h : endLabel? cs = some label) :
    ∃ (last : Option (Blanks × Before '|')) (ws : Blanks), last.map (·.2.chars) = label ∧
      cs = EdgeForm.lastText last ++ ws.chars := by
  rw [endLabel?] at h
  by_cases hend : atEnd cs = true
  · rw [if_pos hend] at h
    exact ⟨none, ⟨cs, atEnd_iff.mp hend⟩, Option.some.inj h, rfl⟩
  · rw [if_neg hend] at h
    simp only [Option.bind_eq_bind, Option.bind_eq_some_iff] at h
    obtain ⟨⟨word, rest⟩, hbars, hlabel⟩ := h
    obtain ⟨before, hbefore⟩ := exists_blanks cs
    obtain ⟨as, rfl, hcs⟩ := exists_of_bars? hbars
    by_cases hrest : atEnd rest = true
    · rw [if_pos hrest] at hlabel
      refine ⟨some (before, as), ⟨rest, atEnd_iff.mp hrest⟩, Option.some.inj hlabel, ?_⟩
      rw [hbefore, hcs]
      simp [EdgeForm.lastText]
    · rw [if_neg hrest] at hlabel
      cases hlabel

theorem edge?_append (f : EdgeForm) (ws : Blanks) :
    edge? (f.text ++ ws.chars) = some (f.edge, f.doubled) := by
  have hdash : isWordChar '-' = false := by decide
  have hblank : isBlank '-' = false := by decide
  have htext : f.text ++ ws.chars = f.source.chars ++ (f.before.chars ++ (EdgeForm.arrow f.long ++ (f.behind.chars ++
      (EdgeForm.firstText f.first ++ (f.target.chars ++ (EdgeForm.lastText f.last ++ ws.chars)))))) := by
    simp [EdgeForm.text]
  have hlast : Stops isWordChar (EdgeForm.lastText f.last ++ ws.chars) := by
    by_cases hnil : EdgeForm.lastText f.last = []
    · rw [hnil]
      exact ws.stops_self
    · exact (stops_append hnil _).mpr (EdgeForm.stops_lastText _)
  rw [htext]
  simp only [edge?, Option.bind_eq_bind, Option.bind_some, arrow?_append, arrowLabel?_append,
    endLabel?_append, word?_append f.target hlast,
    word?_append f.source (f.before.stops (EdgeForm.arrow_stops _ hdash _ _)),
    dropBlanks_append f.before (EdgeForm.arrow_stops _ hblank _ _),
    dropBlanks_append f.behind (EdgeForm.stops_firstText _ _ _)]
  simp [EdgeForm.edge, EdgeForm.label, EdgeForm.doubled]

theorem exists_of_edge? {cs : List Char} {v : Edge × Bool} (h : edge? cs = some v) :
    ∃ (f : EdgeForm) (ws : Blanks), cs = f.text ++ ws.chars := by
  simp only [edge?, Option.bind_eq_bind, Option.bind_eq_some_iff, Prod.exists] at h
  obtain ⟨word, cs₁, h₁, cs₂, h₂, label, cs₃, h₃, word', cs₄, h₄, label', h₅, -⟩ := h
  obtain ⟨source, rfl, -, hsource⟩ := exists_of_word? h₁
  obtain ⟨before, hbefore⟩ := exists_blanks cs₁
  obtain ⟨long, hlong⟩ := exists_of_arrow? h₂
  obtain ⟨behind, hbehind⟩ := exists_blanks cs₂
  obtain ⟨first, -, hfirst⟩ := exists_of_arrowLabel? h₃
  obtain ⟨target, rfl, -, htarget⟩ := exists_of_word? h₄
  obtain ⟨last, ws, -, hlast⟩ := exists_of_endLabel? h₅
  refine ⟨⟨source, before, long, behind, first, target, last⟩, ws, ?_⟩
  rw [hsource, hbefore, hlong, hbehind, hfirst, htarget, hlast]
  simp [EdgeForm.text]

end Edge

section Apart

theorem isComment_of_isWordChar {c : Char} (h : isWordChar c = true) (cs : List Char) :
    isComment (c :: cs) = false := by
  have hsharp : '#' ≠ c := by
    rintro rfl
    revert h
    decide
  have hpercent : '%' ≠ c := by
    rintro rfl
    revert h
    decide
  simp [isComment, after?, hsharp, hpercent]

theorem all_isWordChar_eq_false {cs : List Char} {c : Char} (hc : c ∈ cs) (h : isWordChar c = false) :
    cs.all isWordChar = false := by
  rw [List.all_eq_false]
  exact ⟨c, hc, by simp [h]⟩

theorem node?_trimmed {line : List Char} (h : trim line = line) (s : Statement) :
    (node? line).map ofNode = some s ↔ ∃ f : NodeForm, f.text = line ∧ f.statement = s := by
  constructor
  · intro hread
    obtain ⟨n, hn, -⟩ := Option.map_eq_some_iff.mp hread
    obtain ⟨f, ws, rfl⟩ := exists_of_node? hn
    have hnil := blanks_eq_nil_of_trim h
    rw [node?_append] at hread
    exact ⟨f, by rw [hnil, List.append_nil], Option.some.inj hread⟩
  · rintro ⟨f, rfl, rfl⟩
    have hread := node?_append f Blanks.none
    rwa [Blanks.none, List.append_nil] at hread

theorem edge?_trimmed {line : List Char} (h : trim line = line) (e : Edge) (doubled : Bool) :
    edge? line = some (e, doubled) ↔ ∃ f : EdgeForm, f.text = line ∧ f.edge = e ∧ f.doubled = doubled := by
  constructor
  · intro hread
    obtain ⟨f, ws, rfl⟩ := exists_of_edge? hread
    have hnil := blanks_eq_nil_of_trim h
    rw [edge?_append] at hread
    obtain ⟨he, hdoubled⟩ := Prod.mk.inj (Option.some.inj hread)
    exact ⟨f, by rw [hnil, List.append_nil], he, hdoubled⟩
  · rintro ⟨f, rfl, rfl, rfl⟩
    have hread := edge?_append f Blanks.none
    rwa [Blanks.none, List.append_nil] at hread

theorem ofLine_eq_ofContent {line : List Char} (h : trim line = line)
    (hhead : ∃ c rest, line = c :: rest ∧ isWordChar c = true) : ofLine line = ofContent line := by
  obtain ⟨c, rest, rfl, hc⟩ := hhead
  have hcomment := isComment_of_isWordChar hc rest
  rw [ofLine, h, if_neg]
  rintro (hnil | hsome)
  · cases hnil
  · rw [hcomment] at hsome
    cases hsome

theorem ofLine_node (f : NodeForm) : ofLine f.text = f.statement := by
  have hread := (node?_trimmed f.trim_text f.statement).mpr ⟨f, rfl, rfl⟩
  obtain ⟨n, hn, hs⟩ := Option.map_eq_some_iff.mp hread
  rw [ofLine_eq_ofContent f.trim_text f.exists_head, ofContent, hn]
  exact hs

theorem node?_edge (f : EdgeForm) : node? f.text = none := by
  rw [Option.eq_none_iff_forall_ne_some]
  intro n hn
  have hread : (node? f.text).map ofNode = some (ofNode n) := by rw [hn, Option.map_some]
  obtain ⟨g, hg, -⟩ := (node?_trimmed f.trim_text _).mp hread
  exact g.text_ne f hg

theorem ofLine_edge (f : EdgeForm) : ofLine f.text = f.statement := by
  have hread := (edge?_trimmed f.trim_text _ _).mpr ⟨f, rfl, rfl, rfl⟩
  rw [ofLine_eq_ofContent f.trim_text f.exists_head, ofContent, node?_edge, hread]
  rfl

theorem exists_form_of_node {line : List Char} {n : Node} {dropped : Option String}
    (h : ofLine line = .node n dropped) : ∃ f : NodeForm, f.text = trim line ∧ f.node = n := by
  rw [ofLine] at h
  split at h
  · cases h
  · rw [ofContent] at h
    split at h
    · rename_i m hm
      have hread : (node? (trim line)).map ofNode = some (.node n dropped) := by rw [hm, Option.map_some, h]
      obtain ⟨f, hf, hs⟩ := (node?_trimmed (trim_trim line) _).mp hread
      obtain ⟨hn, -⟩ := Statement.node.inj hs
      exact ⟨f, hf, hn⟩
    · split at h
      · cases h
      · split at h <;> cases h

theorem exists_form_of_edge {line : List Char} {e : Edge} {doubled : Bool}
    (h : ofLine line = .edge e doubled) : ∃ f : EdgeForm, f.text = trim line ∧ f.edge = e := by
  rw [ofLine] at h
  split at h
  · cases h
  · rw [ofContent] at h
    split at h
    · rw [ofNode] at h
      split at h <;> cases h
    · split at h
      · rename_i e' doubled' hread
        obtain ⟨rfl, rfl⟩ := Statement.edge.inj h
        obtain ⟨f, hf, he, -⟩ := (edge?_trimmed (trim_trim line) _ _).mp hread
        exact ⟨f, hf, he⟩
      · split at h <;> cases h

theorem node_apart (f : NodeForm) :
    edge? f.text = none ∧ isComment f.text = false ∧ f.text.all isWordChar = false := by
  have hquote : isWordChar '"' = false := by decide
  obtain ⟨c, rest, htext, hc⟩ := f.exists_head
  refine ⟨?_, ?_, all_isWordChar_eq_false (by simp [NodeForm.text]) hquote⟩
  · rw [Option.eq_none_iff_forall_ne_some]
    rintro ⟨e, doubled⟩ hread
    obtain ⟨g, hg, -⟩ := (edge?_trimmed f.trim_text e doubled).mp hread
    exact f.text_ne g hg.symm
  · rw [htext]
    exact isComment_of_isWordChar hc rest

theorem edge_apart (f : EdgeForm) :
    isComment f.text = false ∧ f.text.all isWordChar = false := by
  have hdash : isWordChar '-' = false := by decide
  obtain ⟨c, rest, htext, hc⟩ := f.exists_head
  refine ⟨?_, all_isWordChar_eq_false ?_ hdash⟩
  · rw [htext]
    exact isComment_of_isWordChar hc rest
  · cases h : f.long <;> simp [EdgeForm.text, EdgeForm.arrow, h]

/-- On trimmed lines the recognisers accept the forms and nothing else. A line has one form at most,
which settles everything that is read from it; and no line is of two sorts. -/
theorem recognizes_forms {line : List Char} (h : trim line = line) :
    ((∀ s, (node? line).map ofNode = some s ↔ ∃ f : NodeForm, f.text = line ∧ f.statement = s) ∧
      ∀ e doubled, edge? line = some (e, doubled) ↔
        ∃ f : EdgeForm, f.text = line ∧ f.edge = e ∧ f.doubled = doubled) ∧
    ((∀ f g : NodeForm, f.text = line → g.text = line → f = g) ∧
      ∀ f g : EdgeForm, f.text = line → g.text = line → f = g) ∧
    ((node? line).isSome = true → edge? line = none) ∧
    ((node? line).isSome = true ∨ (edge? line).isSome = true →
      isComment line = false ∧ line.all isWordChar = false) := by
  have hnode (hsome : (node? line).isSome = true) : ∃ f : NodeForm, f.text = line := by
    obtain ⟨n, hn⟩ := Option.isSome_iff_exists.mp hsome
    obtain ⟨f, hf, -⟩ := (node?_trimmed h (ofNode n)).mp (by rw [hn, Option.map_some])
    exact ⟨f, hf⟩
  have hedge (hsome : (edge? line).isSome = true) : ∃ f : EdgeForm, f.text = line := by
    obtain ⟨⟨e, doubled⟩, he⟩ := Option.isSome_iff_exists.mp hsome
    obtain ⟨f, hf, -⟩ := (edge?_trimmed h e doubled).mp he
    exact ⟨f, hf⟩
  refine ⟨⟨node?_trimmed h, edge?_trimmed h⟩, ⟨?_, ?_⟩, ?_, ?_⟩
  · intro f g hf hg
    exact NodeForm.text_injective (hf.trans hg.symm)
  · intro f g hf hg
    exact EdgeForm.text_injective (hf.trans hg.symm)
  · intro hsome
    obtain ⟨f, rfl⟩ := hnode hsome
    exact (node_apart f).1
  · rintro (hsome | hsome)
    · obtain ⟨f, rfl⟩ := hnode hsome
      exact (node_apart f).2
    · obtain ⟨f, rfl⟩ := hedge hsome
      exact edge_apart f

theorem recognizes_forms_task : ∃ line, line = "task  t_1\"Re[view] -> x\" [ actor :  Ann B ]".toList ∧
    trim line = line ∧ edge? line = none ∧ ∃ f : NodeForm, f.text = line ∧
      f.statement = .node ⟨"t_1", .task, "Re[view] -> x", some "Ann B"⟩ none ∧
      ∀ g : NodeForm, g.text = line → g = f := by
  refine ⟨_, rfl, ?_⟩
  have h : trim "task  t_1\"Re[view] -> x\" [ actor :  Ann B ]".toList =
      "task  t_1\"Re[view] -> x\" [ actor :  Ann B ]".toList := by decide +kernel
  have hread : (node? "task  t_1\"Re[view] -> x\" [ actor :  Ann B ]".toList).map ofNode =
      some (.node ⟨"t_1", .task, "Re[view] -> x", some "Ann B"⟩ none) := by decide +kernel
  obtain ⟨⟨hnode, -⟩, ⟨hunique, -⟩, hedge, -⟩ := recognizes_forms h
  obtain ⟨f, hf, hs⟩ := (hnode _).mp hread
  exact ⟨h, hedge (by decide +kernel), f, hf, hs, fun g hg => hunique g f hg hf⟩

end Apart

end FlowDiagram.Statement
