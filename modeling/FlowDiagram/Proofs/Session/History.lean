import FlowDiagram.Proofs.Layout.Total
import FlowDiagram.Session.Basic
import Mathlib.Data.List.Induction

namespace FlowDiagram

/-- A trace tells how the result for a text came about: no stage is missing, the warnings are those of the
result, and the canvas has its size. -/
structure Trace.Records (t : Trace Float) (text : String) (r : Result Float) : Prop where
  input : t.input = text
  diagnostics : t.diagnostics = r.diagnostics.map Diagnostic.message
  empty : r.picture.diagram? = none → t.stages.map (·.name) = ["parse"]
  full : ∀ d, r.picture.diagram? = some d →
    t.stages.map (·.name) = ["parse", "graph", "levels", "positions", "routes", "canvas"] ∧
    ∃ stage, t.stage? "canvas" = some stage ∧ stage.data.get? "width" = some (.real d.width) ∧
      stage.data.get? "height" = some (.real d.height)

theorem Run.trace_records {run : Run Float} {r : Result Float} (h : run.result = .ok r) (text : String) :
    (run.trace text).Records text r := by
  cases run with
  | empty doc =>
    obtain rfl := Except.ok.inj h
    exact ⟨rfl, rfl, fun _ => rfl, fun d hd => nomatch hd⟩
  | unplanned => cases h
  | unframed => cases h
  | framed doc plan shift diagram =>
    obtain rfl := Except.ok.inj h
    refine ⟨rfl, rfl, (fun hnone => nomatch hnone), ?_⟩
    intro d hd
    obtain rfl : diagram = d := Option.some.inj hd
    refine ⟨rfl, canvasStage shift diagram, ?_, ?_, ?_⟩
    · simp [Trace.stage?, trace, planStages, parseStage, graphStage, levelsStage, positionsStage, routesStage,
        canvasStage]
    · rfl
    · rfl

def Session.Command.leftMargin? : Session.Command → Option (Quantity Float)
  | .setLeftMargin margin => some margin
  | _ => none

def Session.Command.canvasMargin? : Session.Command → Option (Quantity Float)
  | .setCanvasMargin margin => some margin
  | _ => none

/-- The settings with the margins that were set last. -/
def Settings.assigned (s : Settings Float) (cs : List Session.Command) : Settings Float :=
  { s with
    leftMargin := (cs.filterMap Session.Command.leftMargin?).getLast?.getD s.leftMargin
    canvasMargin := (cs.filterMap Session.Command.canvasMargin?).getLast?.getD s.canvasMargin }

theorem Settings.run_ok {s : Settings Float} (hleft : s.leftMargin.InRange) (hcanvas : s.canvasMargin.InRange)
    (text : String) : ∃ r, (s.run text).result = .ok r := by
  by_cases hne : (Document.read text).nodes = []
  · have hrun : s.run text = .empty (Document.read text) := if_pos hne
    rw [hrun]
    exact ⟨_, rfl⟩
  · obtain ⟨p, hp, -⟩ := plan_spec s hne (Document.nodup_ids text)
    obtain ⟨shift, d, hd, -⟩ := frame_shifted hleft hcanvas p
    rw [run]
    simp only [if_neg hne, hp, hd]
    exact ⟨_, rfl⟩

theorem Settings.diagram?_eq_none_iff {s : Settings Float} {text : String} {r : Result Float}
    (h : (s.run text).result = .ok r) : r.picture.diagram? = none ↔ (Document.read text).nodes = [] := by
  rw [run] at h
  split at h
  case isTrue hempty =>
    obtain rfl := Except.ok.inj h
    exact iff_of_true rfl hempty
  case isFalse hne =>
    split at h
    · cases h
    · split at h
      · cases h
      · obtain rfl := Except.ok.inj h
        exact iff_of_false (Option.some_ne_none _) hne

namespace Session

def fresh (s : Settings Float) : Session := { settings := s }

def after (s : Session) (cs : List Command) : Session := cs.foldl (fun s c => (s.step c).1) s

/-- The text of a command that makes a diagram, and whether its trace is kept. -/
def Command.generates? : Command → Option (String × Bool)
  | .generate text debug => some (text, debug)
  | .saveSvg text _ _ => some (text, false)
  | .savePng text _ _ _ => some (text, false)
  | _ => none

theorem after_concat (s : Session) (cs : List Command) (c : Command) :
    s.after (cs ++ [c]) = ((s.after cs).step c).1 := by
  rw [after, List.foldl_concat]
  rfl

theorem answers_append (s : Session) (cs ds : List Command) :
    s.answers (cs ++ ds) = s.answers cs ++ (s.after cs).answers ds := by
  induction cs generalizing s with
  | nil => rfl
  | cons c cs ih => exact congrArg _ (ih (s.step c).1)

theorem length_answers (s : Session) (cs : List Command) : (s.answers cs).length = cs.length := by
  induction cs generalizing s with
  | nil => rfl
  | cons c cs ih => exact congrArg Nat.succ (ih (s.step c).1)

theorem answer_after (s : Session) (before later : List Command) (c : Command) :
    (s.answers (before ++ c :: later))[before.length]? = some ((s.after before).step c).2 := by
  rw [answers_append, ← s.length_answers before, List.getElem?_append_right (Nat.le_refl _), Nat.sub_self]
  rfl

/-- What a command changes: at most one margin of the settings, and the trace if it makes a diagram. -/
theorem step_changes (s : Session) (c : Command) : (s.step c).1.settings = s.settings.assigned [c] ∧
    (s.step c).1.trace = match c.generates? with
      | none => s.trace
      | some (text, debug) => if debug then some ((s.settings.run text).trace text) else none := by
  cases c with
  | generate text debug =>
    simp only [step, generate]
    split <;> exact ⟨rfl, rfl⟩
  | dumpTo path =>
    simp only [step, dumpTo]
    split
    · exact ⟨rfl, rfl⟩
    · split <;> exact ⟨rfl, rfl⟩
  | saveSvg text path style =>
    simp only [step, saveSvg, draft]
    split
    · exact ⟨rfl, rfl⟩
    · split <;> exact ⟨rfl, rfl⟩
  | _ => exact ⟨rfl, rfl⟩

theorem assigned_concat (s : Settings Float) (cs : List Command) (c : Command) :
    (s.assigned cs).assigned [c] = s.assigned (cs ++ [c]) := by
  cases c <;> simp [Settings.assigned, Command.leftMargin?, Command.canvasMargin?]

theorem after_settings (s : Session) (cs : List Command) : (s.after cs).settings = s.settings.assigned cs := by
  induction cs using List.reverseRecOn with
  | nil => rfl
  | append_singleton cs c ih => rw [after_concat, (step_changes _ c).1, ih, assigned_concat]

theorem step_generate (s : Session) (text : String) (debug : Bool) :
    (s.step (.generate text debug)).2 = (s.settings.run text).result.map .result := by
  simp only [step, generate]
  cases (s.settings.run text).result <;> rfl

theorem answer_generate (s : Settings Float) (before later : List Command) (text : String) (debug : Bool) :
    ((fresh s).answers (before ++ .generate text debug :: later))[before.length]? =
      some (((s.assigned before).run text).result.map .result) := by
  rw [answer_after, step_generate, after_settings]
  rfl

theorem after_quiet (s : Session) {later : List Command} (h : ∀ c ∈ later, c.generates? = none) :
    (s.after later).trace = s.trace := by
  induction later using List.reverseRecOn with
  | nil => rfl
  | append_singleton later c ih =>
    have hlast := h c (by simp)
    rw [after_concat, (step_changes _ c).2, hlast, ih fun c hc => h c (List.mem_append_left _ hc)]

theorem after_trace (s : Session) (before : List Command) {c : Command} {text : String} {debug : Bool}
    (hc : c.generates? = some (text, debug)) {later : List Command} (h : ∀ c ∈ later, c.generates? = none) :
    (s.after (before ++ c :: later)).trace =
      if debug then some (((s.settings.assigned before).run text).trace text) else none := by
  have hafter : s.after (before ++ c :: later) = ((s.after before).step c).1.after later := by
    rw [after, List.foldl_append, List.foldl_cons]
    rfl
  rw [hafter, after_quiet _ h, (step_changes _ c).2, hc, after_settings]

theorem last_generating (cs : List Command) : (∀ c ∈ cs, c.generates? = none) ∨
    ∃ before c later text debug, cs = before ++ c :: later ∧ c.generates? = some (text, debug) ∧
      ∀ c ∈ later, c.generates? = none := by
  induction cs using List.reverseRecOn with
  | nil => exact .inl (by simp)
  | append_singleton cs c ih =>
    -- The last command decides, unless it makes no diagram.
    cases hc : c.generates? with
    | some g => exact .inr ⟨cs, c, [], g.1, g.2, rfl, hc, by simp⟩
    | none =>
      obtain hquiet | ⟨before, c', later, text, debug, rfl, hc', hquiet⟩ := ih
      · exact .inl (by simpa [or_imp, forall_and, hc] using hquiet)
      · exact .inr ⟨before, c', later ++ [c], text, debug, by simp, hc',
          by simpa [or_imp, forall_and, hc] using hquiet⟩

theorem generates?_debug {c : Command} {text : String} (h : c.generates? = some (text, true)) :
    c = .generate text true := by
  cases c <;> simp_all [Command.generates?]

theorem filterMap_quiet {later : List Command} (h : ∀ c ∈ later, c.generates? = none) :
    later.filterMap Command.generates? = [] := List.filterMap_eq_nil_iff.mpr h

theorem after_trace_isSome (s : Settings Float) (cs : List Command) :
    (∃ t, ((fresh s).after cs).trace = some t) ↔
      ∃ text, (cs.filterMap Command.generates?).getLast? = some (text, true) := by
  obtain hquiet | ⟨before, c, later, text, debug, rfl, hc, hquiet⟩ := last_generating cs
  · rw [after_quiet _ hquiet, filterMap_quiet hquiet]
    simp [fresh]
  · rw [after_trace _ before hc hquiet, List.filterMap_append, List.filterMap_cons_some hc, filterMap_quiet hquiet]
    cases debug <;> simp

/-- If all commands of a session return normally, each result is that of a session with the same settings
and the margins set last that has done nothing yet, with a trace or without, and it is empty exactly if the
text declares no node. There is a trace exactly if the last command that makes a diagram asks for one, and
then it tells how this result came about. -/
theorem answers_independent (s : Settings Float) (cs : List Command)
    (hok : ∀ a ∈ (fresh s).answers cs, ∃ b, a = .ok b) :
    (∀ before text debug later, cs = before ++ .generate text debug :: later → ∃ r,
      ((fresh s).answers cs)[before.length]? = some (.ok (.result r)) ∧
      (r.picture.diagram? = none ↔ (Document.read text).nodes = []) ∧
      ∀ debug', (fresh (s.assigned before)).answers [.generate text debug'] = [.ok (.result r)]) ∧
    ((∃ t, ((fresh s).after cs).trace = some t) ↔
      ∃ text, (cs.filterMap Command.generates?).getLast? = some (text, true)) ∧
    ∀ t, ((fresh s).after cs).trace = some t → ∃ before text later r,
      cs = before ++ .generate text true :: later ∧ (∀ c ∈ later, c.generates? = none) ∧
      ((fresh s).answers cs)[before.length]? = some (.ok (.result r)) ∧ t.Records text r := by
  have hresult {before text debug later} (hcs : cs = before ++ .generate text debug :: later) :
      ∃ r, ((s.assigned before).run text).result = .ok r := by
    subst hcs
    have hanswer := answer_generate s before later text debug
    obtain ⟨b, hb⟩ := hok _ (List.mem_of_getElem? hanswer)
    cases hr : ((s.assigned before).run text).result with
    | error fault =>
      rw [hr] at hb
      cases hb
    | ok r => exact ⟨r, rfl⟩
  have hanswer {before text debug later r} (hcs : cs = before ++ .generate text debug :: later)
      (hr : ((s.assigned before).run text).result = .ok r) :
      ((fresh s).answers cs)[before.length]? = some (.ok (.result r)) := by
    rw [hcs, answer_generate, hr]
    rfl
  refine ⟨?_, after_trace_isSome s cs, ?_⟩
  · intro before text debug later hcs
    obtain ⟨r, hr⟩ := hresult hcs
    refine ⟨r, hanswer hcs hr, Settings.diagram?_eq_none_iff hr, ?_⟩
    intro debug'
    rw [answers, step_generate, fresh, hr]
    rfl
  · intro t ht
    obtain hquiet | ⟨before, c, later, text, debug, hcs, hc, hquiet⟩ := last_generating cs
    · rw [after_quiet _ hquiet] at ht
      cases ht
    · rw [hcs, after_trace _ before hc hquiet] at ht
      cases debug with
      | false => cases ht
      | true =>
        obtain rfl := generates?_debug hc
        obtain rfl := Option.some.inj ht
        obtain ⟨r, hr⟩ := hresult hcs
        exact ⟨before, text, later, r, hcs, hquiet, hanswer hcs hr, Run.trace_records hr text⟩

/-- A run without a trace, a new margin, and a run with a trace. -/
theorem answers_independent_margin :
    let s : Settings Float := ⟨⟨150, 120, 100, 60, 20⟩, .real 20, .real 40⟩
    let cs : List Command := [.generate "task b \"B\"" false, .setCanvasMargin (.real 7),
      .generate "task a \"A\"" true]
    (∀ a ∈ (fresh s).answers cs, ∃ b, a = .ok b) ∧ ∃ t r d, ((fresh s).after cs).trace = some t ∧
      ((fresh s).answers cs)[2]? = some (.ok (.result r)) ∧ t.Records "task a \"A\"" r ∧
      (fresh { s with canvasMargin := .real 7 }).answers [.generate "task a \"A\"" false] = [.ok (.result r)] ∧
      r.picture.diagram? = some d ∧ (d.width, d.height) = (157, 92) ∧
      t.stages.map (·.name) = ["parse", "graph", "levels", "positions", "routes", "canvas"] ∧
      ∃ stage, t.stage? "canvas" = some stage ∧ stage.data.get? "width" = some (.real 157) ∧
        stage.data.get? "height" = some (.real 92) := by
  intro s cs
  obtain ⟨first, hfirst⟩ := Settings.run_ok (s := s) (Quantity.inRange_real _) (Quantity.inRange_real _)
    "task b \"B\""
  obtain ⟨last, hlast⟩ := Settings.run_ok (s := { s with canvasMargin := .real 7 }) (Quantity.inRange_real _)
    (Quantity.inRange_real _) "task a \"A\""
  have hanswers : (fresh s).answers cs = [.ok (.result first), .ok .done, .ok (.result last)] := by
    simp only [cs, answers, step_generate, step_changes]
    change [(s.run "task b \"B\"").result.map Answer.result, .ok Answer.done,
      (Settings.run { s with canvasMargin := .real 7 } "task a \"A\"").result.map Answer.result] = _
    rw [hfirst, hlast]
    rfl
  have hok : ∀ a ∈ (fresh s).answers cs, ∃ b, a = .ok b := by
    rw [hanswers]
    simp
  obtain ⟨hresult, htrace, hrecords⟩ := answers_independent s cs hok
  obtain ⟨t, ht⟩ := htrace.mpr ⟨"task a \"A\"", rfl⟩
  obtain ⟨r, hr, -, hfresh⟩ := hresult [.generate "task b \"B\"" false, .setCanvasMargin (.real 7)]
    "task a \"A\"" true [] rfl
  obtain ⟨before, text, later, r', hcs, hquiet, hr', hrec⟩ := hrecords t ht
  obtain ⟨hlength, rfl⟩ : before.length = 2 ∧ text = "task a \"A\"" := by
    rcases before with _ | ⟨_, _ | ⟨_, _ | ⟨_, _⟩⟩⟩ <;> simp_all [cs]
  rw [hlength] at hr'
  obtain rfl : r' = r := by
    cases hr'.symm.trans hr
    rfl
  obtain rfl : r' = last := by
    rw [hanswers] at hr
    cases hr
    rfl
  have hsize : ((Settings.run { s with canvasMargin := .real 7 } "task a \"A\"").result.toOption.bind fun r =>
      r.picture.diagram?.map fun d => (d.width, d.height)) = some (157, 92) := by
    decide +kernel
  rw [hlast] at hsize
  obtain ⟨d, hd, hwh⟩ := Option.map_eq_some_iff.mp hsize
  obtain ⟨hnames, stage, hstage, hwidth, hheight⟩ := hrec.full d hd
  obtain ⟨hw, hh⟩ := Prod.mk.inj hwh
  exact ⟨hok, t, r', d, ht, hr, hrec, hfresh false, hd, hwh, hnames, stage, hstage, hw ▸ hwidth, hh ▸ hheight⟩

end Session

end FlowDiagram
