import TreeStream.Proofs.Discarding

/-!
# Arguments in pieces

The text at the beginning of an element may come in any number of pieces, with attributes between
them.  A directive hears the whole of it, and then the event that ended it, as if that came next.

* `spoken events`: the text of a run of texts and attributes.
* `Engine.useText_queue_eq`: what a directive makes of its argument does not depend on the queue.
* `Engine.submitAll_run`: the run is gathered, and the event behind it is submitted to the state in
  which the directive leaves the engine.
* `Engine.submitAll_chunks`: the outcome is the same for all runs of one text.
-/

namespace TreeStream
set_option autoImplicit false

/-- The text of a run of texts and attributes. -/
def spoken : List Event → String
  | [] => ""
  | .text content :: events => content ++ spoken events
  | _ :: events => spoken events

/-- A run of texts and attributes is the beginning of some children. -/
theorem exists_lead_of_run {events : List Event}
    (h : ∀ event ∈ events, event.kind ∈ [.text, .attr]) :
    ∃ forest : Forest, forest.lead = events ∧ forest.argument = spoken events := by
  induction events with
  | nil => exact ⟨.nil, rfl, rfl⟩
  | cons event events ih =>
    obtain ⟨forest, hlead, hargument⟩ :=
      ih fun other hmem => h other (List.mem_cons_of_mem event hmem)
    have hkind := h event List.mem_cons_self
    cases event with
    | text content =>
      exact ⟨.text content forest, by rw [Forest.lead, hlead],
        by rw [Forest.argument, hargument, spoken]⟩
    | attr name value =>
      exact ⟨.attr name value forest, by rw [Forest.lead, hlead], hargument⟩
    | start name => simp [Event.kind] at hkind
    | close => simp [Event.kind] at hkind

theorem State.evaluate_queue_eq (s : State) (evaluator : Evaluator) (source : String)
    (queue : Queue) : ({ s with queue } : State).evaluate evaluator source =
      ((s.evaluate evaluator source).1, { (s.evaluate evaluator source).2 with queue }) := by
  obtain ⟨log, heval⟩ := s.evaluate_queue evaluator source
  have hsame := heval s.queue
  rw [heval queue, hsame]

namespace Engine

variable {engine : Engine} {s : State}

theorem useText_queue_eq (engine : Engine) (use : TextUse) (text : String) (s : State)
    (queue : Queue) :
    engine.useText use text { s with queue } = { engine.useText use text s with queue } := by
  cases use with
  | eval =>
    simp only [useText, State.evaluate_queue_eq]
    rfl
  | cond start =>
    rcases hvalue : s.evaluate engine.evaluator text with ⟨error | value, t⟩
    · simp only [useText, State.evaluate_queue_eq, hvalue]
      rfl
    · cases htruthy : value.isTruthy <;>
        simp only [useText, State.evaluate_queue_eq, hvalue, htruthy] <;> rfl
  | each start =>
    simp only [useText]
    cases EachArgument.parse? text with
    | none => rfl
    | some argument =>
      rcases hvalue : s.evaluate engine.evaluator argument.source with ⟨error | value, t⟩
      · simp only [State.evaluate_queue_eq, hvalue]
        rfl
      · cases value <;> simp only [State.evaluate_queue_eq, hvalue] <;> rfl
  | defer =>
    cases hselector : (Selection.parse text).selector <;> simp only [useText, hselector] <;> rfl
  | substitute name =>
    simp only [useText, State.evaluate_queue_eq]
    split <;> rfl
  | report tag => rfl
  | reportValue tag =>
    simp only [useText, State.evaluate_queue_eq]
    rfl

/-! ## The run and the event behind it -/

theorem submitAll_singleton (engine : Engine) (steps : Nat) (event : Event) (s : State) :
    engine.submitAll steps [event] s = engine.submit steps event s := by
  rw [submitAll]
  rcases engine.submit steps event s with _ | ⟨fault | ⟨⟩, t⟩ <;> rfl

/-- However it is cut, the text is gathered, and nothing else changes. -/
theorem submitAll_run {name : String} {use : TextUse} (huse : engine.argumentUse? name = some use)
    (hhalted : s.halted = false) (hqueue : s.queue = []) (hcaptures : s.captures = [])
    {run : List Event} (hrun : ∀ event ∈ run, event.kind ∈ [.text, .attr]) {steps : Nat}
    (hsteps : 1 ≤ steps) (later : List Event) :
    engine.submitAll steps (.start name :: (run ++ later)) s =
      engine.submitAll steps later { s with
        levels := s.levels.push name
        captures := [.firstText (spoken run) use] } := by
  obtain ⟨forest, rfl, hargument⟩ := exists_lead_of_run hrun
  rcases s with ⟨scope, queue, levels, captures, markers, output, log, halted⟩
  obtain rfl : queue = [] := hqueue
  obtain rfl : captures = [] := hcaptures
  let s : State := { scope, levels, markers, output, log, halted }
  have hstart : engine.step (.event (.start name)) s =
      (.ok (), { s with levels := levels.push name }.captureText use) := route_argument huse s
  have hruns : engine.Runs 1 { s with queue := [.event (.start name)] }
      ({ s with levels := levels.push name }.captureText use) := Runs.single rfl hstart
  have hopened := submitAll_of_runs hhalted hruns rfl hsteps (forest.lead ++ later)
  have hread := submitAll_lead engine forest (s := { s with levels := levels.push name })
    hhalted hsteps "" use [] later
  rw [String.empty_append, hargument] at hread
  exact hopened.trans hread

/-- The event that ends the text is submitted to what the directive has made of it. -/
theorem submitAll_heard (engine : Engine) (hhalted : s.halted = false) (hqueue : s.queue = [])
    {captures : List Capture} {text : String} {use : TextUse} {boundary : Event}
    (hcaptures : s.captures = .firstText text use :: captures)
    (hboundary : boundary.kind ∈ [.start, .close]) (steps : Nat) :
    engine.submitAll (steps + 1) [boundary] s =
      engine.submit steps boundary (engine.useText use text { s with captures }) := by
  have hfeed : (Capture.firstText text use).feed boundary =
      (.firstText text use, some boundary) := by
    cases boundary <;> simp [Event.kind] at hboundary <;> rfl
  have hstep : engine.step (.event boundary) s = (.ok (),
      { engine.useText use text { s with captures } with queue := [.event boundary] }) := by
    refine (deliver_done hcaptures hfeed).trans ?_
    rw [complete, useText_queue_eq, hqueue]
    rfl
  have hleft : (engine.useText use text { s with captures }).halted = false :=
    (useText_halted engine use text { s with captures }).trans hhalted
  have hempty : (engine.useText use text { s with captures }).queue = [] :=
    (useText_queue engine use text { s with captures }).trans hqueue
  rw [submitAll_singleton, submit, submit, if_neg (by simp [hhalted]), if_neg (by simp [hleft])]
  rw [drain_succ_of_ok engine steps _ _ (.event boundary) [] (by rw [hqueue]; rfl)
    (by rw [← hqueue]; exact hstep), hempty]
  rfl

/-- The state in which an element of the name leaves the engine when it has heard its text. -/
def told (engine : Engine) (name : String) (use : TextUse) (text : String) (s : State) : State :=
  engine.useText use text { s with levels := s.levels.push name }

/-- Nobody waits for the next event then, or the rest of the element does. -/
theorem told_waits (engine : Engine) (name : String) (use : TextUse) (text : String)
    (hcaptures : s.captures = []) : (engine.told name use text s).captures = [] ∨
      ∃ discard body, (engine.told name use text s).captures = [.subLevel 0 discard [] body] := by
  have hgoes := useText_goesOn engine use text { s with levels := s.levels.push name }
  rw [told]
  generalize engine.useText use text { s with levels := s.levels.push name } = t at hgoes ⊢
  cases hgoes with
  | done scope output log hscope => exact .inl hcaptures
  | vanish scope log hscope => exact .inl hcaptures
  | dropped scope output log hscope => exact .inr ⟨true, .drop, by rw [← hcaptures]; rfl⟩
  | loop scope log item index items hscope =>
    exact .inr ⟨false, .loop item index items, by rw [← hcaptures]; rfl⟩
  | register selector binding =>
    exact .inr ⟨false, .register selector binding, by rw [← hcaptures]; rfl⟩

/-- The names that read the text behind them. -/
theorem exists_argumentUse (engine : Engine) {name : String}
    (htag : engine.options.classify name ∈ [.directive .eval, .directive .cond, .directive .each,
      .directive .defer, .affect]) : ∃ use, engine.argumentUse? name = some use := by
  unfold argumentUse?
  rcases hname : engine.options.classify name with (_ | _ | _ | _ | _ | _) | _ | _ | _ <;>
    simp [hname] at htag <;> exact ⟨_, rfl⟩

/-- Runs of the same text, whatever their pieces and attributes, have the same outcome together with
the event that ends them: that event is submitted, once, to the state in which the text leaves the
engine, where the router has it or the rest of the element begins with it. -/
theorem submitAll_chunks (engine : Engine) {s : State} (hqueue : s.queue = [])
    (hcaptures : s.captures = []) {name : String}
    (htag : engine.options.classify name ∈ [.directive .eval, .directive .cond, .directive .each,
      .directive .defer, .affect])
    {first second : List Event} (hfirst : ∀ event ∈ first, event.kind ∈ [.text, .attr])
    (hsecond : ∀ event ∈ second, event.kind ∈ [.text, .attr])
    (hspoken : spoken first = spoken second) {boundary : Event}
    (hboundary : boundary.kind ∈ [.start, .close]) :
    (∀ steps, engine.submitAll steps (.start name :: (first ++ [boundary])) s =
      engine.submitAll steps (.start name :: (second ++ [boundary])) s) ∧
      ∃ use left, engine.argumentUse? name = some use ∧
        left = engine.told name use (spoken first) s ∧ left.queue = [] ∧
        (left.captures = [] ∨ ∃ discard body, left.captures = [.subLevel 0 discard [] body]) ∧
        (s.halted = false → ∀ steps,
          engine.submitAll (steps + 1) (.start name :: (first ++ [boundary])) s =
            engine.submit steps boundary left) := by
  obtain ⟨use, huse⟩ := exists_argumentUse engine htag
  have hread : ∀ run : List Event, (∀ event ∈ run, event.kind ∈ [.text, .attr]) →
      s.halted = false → ∀ steps,
        engine.submitAll (steps + 1) (.start name :: (run ++ [boundary])) s =
          engine.submit steps boundary (engine.told name use (spoken run) s) := by
    intro run hrun hhalted steps
    rw [submitAll_run huse hhalted hqueue hcaptures hrun (Nat.le_add_left 1 steps)]
    refine (submitAll_heard engine (s := { s with
      levels := s.levels.push name
      captures := [.firstText (spoken run) use] }) hhalted hqueue rfl hboundary steps).trans ?_
    rw [told, ← hcaptures]
  refine ⟨fun steps => ?_, use, _, huse, rfl, ?_, told_waits engine name use _ hcaptures,
    hread first hfirst⟩
  · cases hhalted : s.halted with
    | true => simp [submitAll, submit, hhalted]
    | false =>
      cases steps with
      | zero =>
        have hnone : ∀ run : List Event,
            engine.submitAll 0 (.start name :: (run ++ [boundary])) s = none := fun run => by
          simp [submitAll, submit, hhalted, hqueue, Queue.pushBack, drain]
        rw [hnone, hnone]
      | succ steps => rw [hread first hfirst hhalted, hread second hsecond hhalted, hspoken]
  · exact (useText_queue engine use (spoken first) _).trans hqueue

/-- A loop whose argument comes in two pieces around an attribute: the element behind it is the
first of the body. -/
theorem submitAll_chunks_loop :
    let engine : Engine := { evaluator := fun _ _ => ⟨.ok (.list [.null]), []⟩ }
    let first : List Event := [.text "x i", .attr "y" "z", .text "n xs"]
    let second : List Event := [.text "", .text "x in xs"]
    engine.options.classify ":each" = .directive .each ∧ spoken first = spoken second ∧
      (∀ steps, engine.submitAll steps (.start ":each" :: (first ++ [.start "b"])) {} =
        engine.submitAll steps (.start ":each" :: (second ++ [.start "b"])) {}) ∧
      ∃ left : State, left.queue = [] ∧ left.captures.length = 1 ∧
        ∀ steps, engine.submitAll (steps + 1) (.start ":each" :: (first ++ [.start "b"])) {} =
          engine.submit steps (.start "b") left := by
  intro engine first second
  have htag : engine.options.classify ":each" = .directive .each := by decide +kernel
  have hargument : engine.options.classify ":each" ∈ [.directive .eval, .directive .cond,
      .directive .each, .directive .defer, .affect] := by simp [htag]
  have hfirst : ∀ event ∈ first, event.kind ∈ [.text, .attr] := by decide
  have hsecond : ∀ event ∈ second, event.kind ∈ [.text, .attr] := by decide
  have hspoken : spoken first = spoken second := by decide +kernel
  have hboundary : (Event.start "b").kind ∈ [.start, .close] := by decide
  obtain ⟨hsame, use, left, huse, hleft, hqueue, hwaits, hsubmit⟩ :=
    submitAll_chunks engine (s := {}) rfl rfl hargument hfirst hsecond hspoken hboundary
  have hlength : left.captures.length = 1 := by
    obtain rfl : TextUse.each (.start ":each") = use := by
      simpa [argumentUse?, htag] using huse
    rw [hleft]
    decide +kernel
  exact ⟨htag, hspoken, hsame, left, hqueue, hlength, hsubmit rfl⟩

end Engine
end TreeStream
