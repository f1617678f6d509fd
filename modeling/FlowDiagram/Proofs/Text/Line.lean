import FlowDiagram.Text.Blank
import Mathlib.Data.List.TakeWhile

namespace FlowDiagram.Text

/-- The text does not begin with a character of the class. -/
def Stops (p : Char → Bool) (cs : List Char) : Prop := ∀ c ∈ cs.head?, p c = false

theorem stops_nil (p : Char → Bool) : Stops p [] := by simp [Stops]

@[simp] theorem stops_cons {p : Char → Bool} {c : Char} {cs : List Char} :
    Stops p (c :: cs) ↔ p c = false := by simp [Stops]

theorem stops_append {p : Char → Bool} {cs : List Char} (h : cs ≠ []) (rest : List Char) :
    Stops p (cs ++ rest) ↔ Stops p cs := by
  cases cs with
  | nil => exact absurd rfl h
  | cons c cs => simp

theorem stops_dropWhile (p : Char → Bool) (cs : List Char) : Stops p (cs.dropWhile p) := by
  intro c hc
  have hnot := List.head?_dropWhile_not p cs
  rw [Option.mem_def.mp hc] at hnot
  exact hnot

theorem Stops.of_run {p q : Char → Bool} (hpq : ∀ c, q c = true → p c = false) {run : List Char}
    (hrun : ∀ c ∈ run, q c = true) {rest : List Char} (hrest : Stops p rest) :
    Stops p (run ++ rest) := by
  cases run with
  | nil => exact hrest
  | cons c run =>
    have hc := hrun c (by simp)
    exact stops_cons.mpr (hpq c hc)

section Run

variable {p : Char → Bool} {run run' rest rest' : List Char}

theorem takeWhile_run (hrun : ∀ c ∈ run, p c = true) (hrest : Stops p rest) :
    (run ++ rest).takeWhile p = run := by
  rw [List.takeWhile_append_of_pos hrun]
  cases rest with
  | nil => simp
  | cons c rest => simp [stops_cons.mp hrest]

theorem dropWhile_run (hrun : ∀ c ∈ run, p c = true) (hrest : Stops p rest) :
    (run ++ rest).dropWhile p = rest := by
  rw [List.dropWhile_append_of_pos hrun]
  cases rest with
  | nil => rfl
  | cons c rest => simp [stops_cons.mp hrest]

theorem run_inj (hrun : ∀ c ∈ run, p c = true) (hrest : Stops p rest)
    (hrun' : ∀ c ∈ run', p c = true) (hrest' : Stops p rest') (h : run ++ rest = run' ++ rest') :
    run = run' ∧ rest = rest' := by
  have htake := congrArg (List.takeWhile p) h
  have hdrop := congrArg (List.dropWhile p) h
  rw [takeWhile_run hrun hrest, takeWhile_run hrun' hrest'] at htake
  rw [dropWhile_run hrun hrest, dropWhile_run hrun' hrest'] at hdrop
  exact ⟨htake, hdrop⟩

end Run

/-- Nothing but white space. -/
@[ext]
structure Blanks where
  chars : List Char
  blank : ∀ c ∈ chars, isBlank c = true

/-- A text without the character that closes it. -/
@[ext]
structure Before (close : Char) where
  chars : List Char
  free : close ∉ chars

theorem Before.ne {close : Char} (as : Before close) : ∀ c ∈ as.chars, decide (c ≠ close) = true := by
  intro c hc
  simp only [ne_eq, decide_eq_true_eq]
  rintro rfl
  exact as.free hc

theorem stops_close (close : Char) (rest : List Char) :
    Stops (fun c => decide (c ≠ close)) (close :: rest) := by simp

theorem Blanks.inj {ws ws' : Blanks} {rest rest' : List Char} (h : Stops isBlank rest)
    (h' : Stops isBlank rest') (heq : ws.chars ++ rest = ws'.chars ++ rest') : ws = ws' ∧ rest = rest' := by
  obtain ⟨hws, hrest⟩ := run_inj ws.blank h ws'.blank h' heq
  exact ⟨Blanks.ext hws, hrest⟩

theorem Before.inj {close : Char} {as bs : Before close} {rest rest' : List Char}
    (heq : as.chars ++ close :: rest = bs.chars ++ close :: rest') : as = bs ∧ rest = rest' := by
  obtain ⟨hab, hrest⟩ := run_inj as.ne (stops_close close rest) bs.ne (stops_close close rest') heq
  exact ⟨Before.ext hab, (List.cons.inj hrest).2⟩

def Blanks.none : Blanks := ⟨[], by simp⟩

def Blanks.space : Blanks := ⟨[' '], List.all_eq_true.mp (by decide)⟩

theorem dropBlanks_append (ws : Blanks) {rest : List Char} (h : Stops isBlank rest) :
    dropBlanks (ws.chars ++ rest) = rest := dropWhile_run ws.blank h

theorem stops_dropBlanks (cs : List Char) : Stops isBlank (dropBlanks cs) := stops_dropWhile isBlank cs

theorem exists_blanks (cs : List Char) : ∃ ws : Blanks, cs = ws.chars ++ dropBlanks cs := by
  refine ⟨⟨cs.takeWhile isBlank, ?_⟩, ?_⟩
  · intro c hc
    exact List.mem_takeWhile_imp hc
  · exact List.takeWhile_append_dropWhile.symm

theorem dropBlanks_eq_nil {cs : List Char} : dropBlanks cs = [] ↔ ∀ c ∈ cs, isBlank c = true := by
  rw [dropBlanks, List.dropWhile_eq_nil_iff]

section Trim

/-- Trimming takes white space away at both ends, and leaves none there. -/
theorem trim_spec (cs : List Char) : (∃ before behind : Blanks, cs = before.chars ++ trim cs ++ behind.chars) ∧
    Stops isBlank (trim cs) ∧ Stops isBlank (trim cs).reverse := by
  obtain ⟨before, hbefore⟩ := exists_blanks cs
  obtain ⟨behind, hbehind⟩ := exists_blanks (dropBlanks cs).reverse
  have hdrop : dropBlanks cs = trim cs ++ behind.1.reverse := by
    have hrev := congrArg List.reverse hbehind
    rw [List.reverse_reverse, List.reverse_append] at hrev
    exact hrev
  refine ⟨⟨before, ⟨behind.1.reverse, ?_⟩, ?_⟩, ?_, ?_⟩
  · intro c hc
    exact behind.blank c (List.mem_reverse.mp hc)
  · rw [List.append_assoc, ← hdrop]
    exact hbefore
  · have hstops := stops_dropBlanks cs
    by_cases hnil : trim cs = []
    · rw [hnil]
      exact stops_nil _
    · rw [hdrop] at hstops
      exact (stops_append hnil _).mp hstops
  · rw [trim, List.reverse_reverse]
    exact stops_dropBlanks _

theorem trim_eq_self {cs : List Char} (h : Stops isBlank cs) (hr : Stops isBlank cs.reverse) :
    trim cs = cs := by
  have hfirst := dropBlanks_append Blanks.none h
  have hlast := dropBlanks_append Blanks.none hr
  simp only [Blanks.none, List.nil_append] at hfirst hlast
  rw [trim, hfirst, hlast, List.reverse_reverse]

theorem trim_concat {cs : List Char} {c : Char} (h : Stops isBlank (cs ++ [c])) (hc : isBlank c = false) :
    trim (cs ++ [c]) = cs ++ [c] := by
  apply trim_eq_self h
  rw [List.reverse_append]
  exact stops_cons.mpr hc

theorem trim_trim (cs : List Char) : trim (trim cs) = trim cs := by
  obtain ⟨-, hfirst, hlast⟩ := trim_spec cs
  exact trim_eq_self hfirst hlast

theorem trim_space (cs : List Char) : trim (' ' :: cs) = trim cs := by
  have hspace : dropBlanks (' ' :: cs) = dropBlanks cs := rfl
  rw [trim, hspace, trim]

theorem mem_of_mem_trim {cs : List Char} {c : Char} (h : c ∈ trim cs) : c ∈ cs := by
  obtain ⟨⟨before, behind, hcs⟩, -⟩ := trim_spec cs
  rw [hcs]
  simp [h]

theorem blanks_eq_nil_of_trim {cs : List Char} {ws : Blanks} (h : trim (cs ++ ws.chars) = cs ++ ws.chars) :
    ws.chars = [] := by
  obtain ⟨-, -, hlast⟩ := trim_spec (cs ++ ws.chars)
  rw [h, List.reverse_append] at hlast
  by_contra hne
  have hrev : ws.1.reverse ≠ [] := by simpa using hne
  have hstops := (stops_append hrev cs.reverse).mp hlast
  obtain ⟨c, rest, hc⟩ := List.exists_cons_of_ne_nil hrev
  have hblank : isBlank c = true := by
    apply ws.blank
    rw [← List.mem_reverse, hc]
    simp
  rw [hc, stops_cons, hblank] at hstops
  cases hstops

end Trim

section Lines

theorem not_isBreak_of_mem_lines {cs line : List Char} (h : line ∈ lines cs) :
    ∀ c ∈ line, isBreak c = false := by
  fun_induction lines cs generalizing line with
  | case1 => simp at h
  | case2 cs ih =>
    obtain rfl | h := List.mem_cons.mp h
    · simp
    · exact ih h
  | case3 c cs _ _ ih =>
    obtain rfl | h := List.mem_cons.mp h
    · simp
    · exact ih h
  | case4 c cs _ hc ih =>
    have hc' : isBreak c = false := by simpa using hc
    cases hl : lines cs with
    | nil =>
      rw [hl] at h
      obtain rfl : line = [c] := by simpa [pushFirst] using h
      simpa using hc'
    | cons first more =>
      rw [hl, pushFirst] at h
      obtain rfl | h := List.mem_cons.mp h
      · have hmem : first ∈ lines cs := by simp [hl]
        exact List.forall_mem_cons.mpr ⟨hc', ih hmem⟩
      · exact ih (by simp [hl, h])

def breaks : List (List Char) := [['\n'], ['\r', '\n'], ['\r']]

/-- The text has these lines, with one of the three breaks between each two. -/
inductive Joined : List (List Char) → List Char → Prop
  | nil : Joined [] []
  | last (line : List Char) : Joined [line] line
  | cons {line next : List Char} {more : List (List Char)} {brk rest : List Char} :
      brk ∈ breaks → Joined (next :: more) rest →
      Joined (line :: next :: more) (line ++ brk ++ rest)

theorem joined_intercalate {brk : List Char} (h : brk ∈ breaks) (ls : List (List Char)) :
    Joined ls (brk.intercalate ls) := by
  induction ls with
  | nil => exact .nil
  | cons line ls ih =>
    cases ls with
    | nil =>
      rw [List.intercalate_singleton]
      exact .last line
    | cons next more =>
      rw [List.intercalate_cons_cons]
      exact .cons h ih

theorem lines_cons {c : Char} (h : isBreak c = false) (cs : List Char) :
    lines (c :: cs) = pushFirst c (lines cs) := by
  rw [lines]
  · rw [h]
    rfl
  · rintro rest rfl -
    revert h
    decide

theorem lines_append {line rest first : List Char} {more : List (List Char)}
    (h : ∀ c ∈ line, isBreak c = false) (hl : lines rest = first :: more) :
    lines (line ++ rest) = (line ++ first) :: more := by
  induction line with
  | nil => exact hl
  | cons c line ih =>
    obtain ⟨hc, hline⟩ := List.forall_mem_cons.mp h
    rw [List.cons_append, lines_cons hc, ih hline]
    rfl

theorem lines_single {line : List Char} (h : ∀ c ∈ line, isBreak c = false) (hne : line ≠ []) :
    lines line = [line] := by
  induction line with
  | nil => exact absurd rfl hne
  | cons c line ih =>
    obtain ⟨hc, hline⟩ := List.forall_mem_cons.mp h
    rw [lines_cons hc]
    by_cases hnil : line = []
    · rw [hnil]
      rfl
    · rw [ih hline hnil]
      rfl

/-- A break ends a line; a carriage return does so alone when no line feed follows. -/
theorem lines_break {brk : List Char} (h : brk ∈ breaks) {rest : List Char}
    (hrest : Stops (· = '\n') rest) : lines (brk ++ rest) = [] :: lines rest := by
  simp only [breaks, List.mem_cons, List.not_mem_nil, or_false] at h
  obtain rfl | rfl | rfl := h
  · rw [List.singleton_append, lines, if_pos (by decide)]
    simp
  · rfl
  · rw [List.singleton_append, lines, if_pos (by decide)]
    rintro cs - rfl
    simp at hrest

theorem Joined.head {line text : List Char} {more : List (List Char)}
    (h : Joined (line :: more) text) : ∃ rest, text = line ++ rest := by
  cases h with
  | last => exact ⟨[], by simp⟩
  | cons hb hj => exact ⟨_, List.append_assoc ..⟩

/-- Lines that are not empty and have no break inside come apart as they were put together. -/
theorem Joined.lines {ls : List (List Char)} {text : List Char} (h : Joined ls text)
    (hls : ∀ line ∈ ls, line ≠ [] ∧ ∀ c ∈ line, isBreak c = false) : lines text = ls := by
  induction h with
  | nil => rfl
  | last line =>
    obtain ⟨hne, hfree⟩ := hls line (by simp)
    exact lines_single hfree hne
  | @cons line next more brk rest hb hj ih =>
    obtain ⟨hline, htail⟩ := List.forall_mem_cons.mp hls
    obtain ⟨hnext, -⟩ := List.forall_mem_cons.mp htail
    obtain ⟨behind, rfl⟩ := hj.head
    -- The next line does not begin with a line feed, which a carriage return would take in.
    have hstop : Stops (· = '\n') (next ++ behind) := by
      apply (stops_append hnext.1 behind).mpr
      cases next with
      | nil => exact stops_nil _
      | cons c next =>
        have hc := hnext.2 c (by simp)
        apply stops_cons.mpr
        simp only [decide_eq_false_iff_not]
        rintro rfl
        exact absurd hc (by decide)
    have hlines := lines_break hb hstop
    rw [List.append_assoc, lines_append hline.2 hlines, List.append_nil, ih htail]

end Lines

end FlowDiagram.Text
