import TreeStream.Proofs.Elements

/-!
# Dropped content

An element that drops what is inside, or what follows its argument, drops it without a trace: no
difference in there can be told from the state after the element.

* `TextUse.Drops`: after this argument the rest of the element is dropped.
* `Engine.Discards engine s name first second`: with either of the children an element of the name
  drops everything in which they differ.
* `Engine.submitAll_dropped` and `Engine.submitAll_argument` submit what is dropped.
* `Engine.submitAll_eq_of_discards`: the element has the same effect with either of the children.
-/

namespace TreeStream
set_option autoImplicit false

/-- What an element of the name does with the text at its beginning, if it reads one. -/
def Engine.argumentUse? (engine : Engine) (name : String) : Option TextUse :=
  match engine.options.classify name with
  | .directive .eval => some .eval
  | .directive .cond => some (.cond (.start name))
  | .directive .each => some (.each (.start name))
  | .directive .defer => some .defer
  | .affect => some (.substitute name)
  | _ => none

/-- After the text, an element with this use for it drops what is left of itself. -/
inductive TextUse.Drops (engine : Engine) (scope : Scope) (text : String) : TextUse → Prop
  | eval : Drops engine scope text .eval
  | cond {start : Event} {value : Value}
      (hvalue : (scope.evaluate engine.evaluator text).1 = .ok value)
      (hfalsy : value.isTruthy = false) : Drops engine scope text (.cond start)
  | each_failed {start : Event} {argument : EachArgument} {error : EvalError}
      (hparse : EachArgument.parse? text = some argument)
      (herror : (scope.evaluate engine.evaluator argument.source).1 = .error error) :
      Drops engine scope text (.each start)
  | each_other {start : Event} {argument : EachArgument} {value : Value}
      (hparse : EachArgument.parse? text = some argument)
      (hvalue : (scope.evaluate engine.evaluator argument.source).1 = .ok value)
      (hlist : ∀ items, value ≠ .list items) : Drops engine scope text (.each start)
  | defer (hselector : (Selection.parse text).selector = none) : Drops engine scope text .defer
  | substitute {name : String} (hname : (Text.dropEnd? "=" name).getD name = "") :
      Drops engine scope text (.substitute name)

/-- In the state, an element of the name drops everything in which the children differ.  If its
start selects a deferred body, that is all the children when the body comes to its end, with which
the queue ends, and finds the innermost marker unclaimed. -/
inductive Engine.Discards (engine : Engine) (s : State) (name : String) : Forest → Forest → Prop
  | debug (htag : engine.options.classify name = .directive .debug) (first second : Forest) :
      Discards engine s name first second
  | through (htag : engine.options.classify name = .directive .through) (first second : Forest) :
      Discards engine s name first second
  | selected {n k : Nat} {u : State} {overlay : Overlay} {outer : Markers}
      (hrun : engine.Runs n { s with queue := [.event (.start name)] } u)
      (hqueue : u.queue = [.callback (.bodyDone overlay true)])
      (hmarkers : u.markers = .opened k :: outer) (first second : Forest) :
      Discards engine s name first second
  | argument {use : TextUse} {first second : Forest} (huse : engine.argumentUse? name = some use)
      (hdrops : use.Drops engine s.scope first.argument) (hlead : first.lead = second.lead) :
      Discards engine s name first second

theorem Forest.argument_eq_of_lead {first second : Forest} (h : first.lead = second.lead) :
    first.argument = second.argument := by
  induction first generalizing second with
  | nil => cases second <;> simp [lead] at h <;> rfl
  | text content rest ih =>
    cases second <;> simp [lead] at h
    rw [argument, argument, h.1, ih h.2]
  | attr name value rest ih =>
    cases second <;> simp [lead] at h
    rw [argument, argument, ih h.2]
  | element name children rest => cases second <;> simp [lead] at h <;> rfl

namespace Engine

variable {engine : Engine} {s t : State}

theorem route_argument {name : String} {use : TextUse} (h : engine.argumentUse? name = some use)
    (s : State) : engine.route (.start name) s =
      (.ok (), { s with levels := s.levels.push name }.captureText use) := by
  unfold argumentUse? at h
  cases htag : engine.options.classify name with
  | directive directive =>
    rw [htag] at h
    rw [route_directive htag]
    cases directive <;> simp at h <;> subst h <;> rfl
  | affect =>
    rw [htag] at h
    obtain rfl : TextUse.substitute name = use := by simpa using h
    exact route_affect htag
  | unknown => simp [htag] at h
  | element => simp [htag] at h

/-- What it comes to does not depend on the queue, which holds what is dropped. -/
theorem useText_drops {use : TextUse} {text : String} (h : use.Drops engine s.scope text) :
    ∃ scope output log, ∀ queue, engine.useText use text { s with queue } =
      { s with scope, output, log, queue }.discardBody := by
  cases h with
  | eval =>
    obtain ⟨log, heval⟩ := s.evaluate_queue engine.evaluator text
    exact ⟨(s.scope.evaluate engine.evaluator text).2, s.output, log, fun queue => by
      simp [useText, heval]⟩
  | cond hvalue hfalsy =>
    obtain ⟨log, heval⟩ := s.evaluate_queue engine.evaluator text
    exact ⟨(s.scope.evaluate engine.evaluator text).2, s.output, log, fun queue => by
      simp [useText, heval, hvalue, hfalsy]⟩
  | @each_failed start argument error hparse herror =>
    obtain ⟨log, heval⟩ := s.evaluate_queue engine.evaluator argument.source
    exact ⟨(s.scope.evaluate engine.evaluator argument.source).2,
      s.output ++ [.text error.inline], log, fun queue => by
      simp [useText, hparse, heval, herror, State.emit]⟩
  | @each_other start argument value hparse hvalue hlist =>
    obtain ⟨log, heval⟩ := s.evaluate_queue engine.evaluator argument.source
    refine ⟨(s.scope.evaluate engine.evaluator argument.source).2, s.output,
      log ++ [.misuse (.notAList argument.source value.typeName)], ?_⟩
    intro queue
    cases value with
    | list items => exact absurd rfl (hlist items)
    | _ => simp [useText, hparse, heval, hvalue, State.tell]
  | defer hselector =>
    exact ⟨s.scope, s.output, s.log ++ [.misuse (.missingSelector text)], fun queue => by
      simp [useText, hselector, State.tell]⟩
  | substitute hname =>
    obtain ⟨log, heval⟩ := s.evaluate_queue engine.evaluator text
    let shown := Event.text (outcomeText (s.scope.evaluate engine.evaluator text).1)
    exact ⟨(s.scope.evaluate engine.evaluator text).2, s.output ++ [shown], log, fun queue => by
      simp [useText, heval, hname, State.emit, shown]⟩

/-! ## Submitting what is dropped -/

theorem submitAll_of_runs {n steps : Nat} {event : Event} (hhalted : s.halted = false)
    (hrun : engine.Runs n { s with queue := [.event event] } t) (ht : t.queue = [])
    (hsteps : n ≤ steps) (later : List Event) :
    engine.submitAll steps (event :: later) { s with queue := [] } =
      engine.submitAll steps later t :=
  submitAll_cons_of_ok hhalted (hrun.drain_of_nil ht hsteps)

theorem submitAll_eq_none {steps : Nat} {event : Event} (hhalted : s.halted = false)
    (hdrain : engine.drain steps { s with queue := [.event event] } = none) (later : List Event) :
    engine.submitAll steps (event :: later) { s with queue := [] } = none := by
  have hsubmit : engine.submit steps event { s with queue := [] } = none := by
    unfold submit
    rw [if_neg (by simp [hhalted]), show Queue.pushBack [] event = [.event event] from rfl, hdrain]
  rw [submitAll, hsubmit]

theorem submitAll_pending {steps : Nat} {event : Event} {capture capture' : Capture}
    {captures : List Capture} (hhalted : s.halted = false)
    (hfeed : capture.feed event = (capture', none)) (hsteps : 1 ≤ steps) (later : List Event) :
    engine.submitAll steps (event :: later)
        { s with queue := [], captures := capture :: captures } =
      engine.submitAll steps later { s with queue := [], captures := capture' :: captures } := by
  have hstep : engine.step (.event event) { s with queue := [], captures := capture :: captures } =
      (.ok (), { s with queue := [], captures := capture' :: captures }) :=
    deliver_pending (s := { s with queue := [], captures := capture :: captures }) rfl hfeed
  exact submitAll_of_runs (s := { s with captures := capture :: captures }) hhalted
    (Runs.single rfl hstep) rfl hsteps later

/-- Events that a capture waits with take a step each. -/
theorem submitAll_feedAll {steps : Nat} {events : List Event} {capture capture' : Capture}
    {captures : List Capture} (hhalted : s.halted = false) (hsteps : 1 ≤ steps)
    (h : capture.feedAll events = (capture', none)) (later : List Event) :
    engine.submitAll steps (events ++ later)
        { s with queue := [], captures := capture :: captures } =
      engine.submitAll steps later { s with queue := [], captures := capture' :: captures } := by
  induction events generalizing capture with
  | nil =>
    obtain ⟨rfl, -⟩ := Prod.mk.inj h
    rfl
  | cons event events ih =>
    obtain ⟨next, hfeed, hlater⟩ := Capture.feedAll_cons h
    rw [List.cons_append, submitAll_pending hhalted hfeed hsteps, ih hlater]

theorem submitAll_lead (engine : Engine) (forest : Forest) {steps : Nat}
    (hhalted : s.halted = false) (hsteps : 1 ≤ steps) (text : String) (use : TextUse)
    (captures : List Capture) (later : List Event) :
    engine.submitAll steps (forest.lead ++ later)
        { s with queue := [], captures := .firstText text use :: captures } =
      engine.submitAll steps later { s with
        queue := []
        captures := .firstText (text ++ forest.argument) use :: captures } :=
  submitAll_feedAll hhalted hsteps (Capture.feedAll_lead forest text use) later

theorem feed_dropped (event : Event) (depth depth' : Nat) (buffer : List Event) (use : BodyUse)
    (hdepth : (depth : Int) + Capture.shift event = depth') :
    (Capture.subLevel depth true buffer use).feed event =
      (.subLevel depth' true buffer use, none) := by
  rw [Capture.feed_subLevel_pending (by omega), hdepth]
  rfl

/-- Dropped events leave nothing behind, at any depth. -/
theorem submitAll_dropped (engine : Engine) (forest : Forest) {steps : Nat}
    (hhalted : s.halted = false) (hsteps : 1 ≤ steps) (depth : Nat) (buffer : List Event)
    (use : BodyUse) (captures : List Capture) (later : List Event) :
    engine.submitAll steps (forest.events ++ later)
        { s with queue := [], captures := .subLevel depth true buffer use :: captures } =
      engine.submitAll steps later
        { s with queue := [], captures := .subLevel depth true buffer use :: captures } := by
  have hfed := Capture.feedAll_forest forest (Int.natCast_nonneg depth) true buffer use
  rw [kept, if_pos rfl, List.append_nil] at hfed
  exact submitAll_feedAll hhalted hsteps hfed later

theorem submitAll_dropped_close (engine : Engine) (forest : Forest) {steps : Nat}
    (hhalted : s.halted = false) (hsteps : 1 ≤ steps) (name : String) :
    engine.submitAll steps (forest.events ++ [.close])
        { s with queue := [], levels := s.levels.push name }.discardBody =
      some (.ok (), { s with queue := [] }) := by
  have hclose : engine.step (.event .close)
      { s with queue := [], levels := s.levels.push name }.discardBody =
        (.ok (), BodyUse.drop.run [] { s with queue := [] }) :=
    step_subLevel_close engine (s := { s with levels := s.levels.push name }.discardBody) rfl
      (s.levels.pop?_push name) rfl [] s.log
  have hdropped := submitAll_dropped engine forest (s := { s with levels := s.levels.push name })
    hhalted hsteps 0 [] .drop s.captures [.close]
  refine hdropped.trans ?_
  exact submitAll_of_runs (s := { s with levels := s.levels.push name }.discardBody)
    (t := { s with queue := [] }) hhalted (Runs.single rfl hclose) rfl hsteps []

/-- The event that ends an argument is looked at again, so it takes two steps. -/
theorem submitAll_boundary {event : Event} {text : String} {use : TextUse} {u v : State}
    (hhalted : s.halted = false)
    (hfeed : (Capture.firstText text use).feed event = (.firstText text use, some event))
    (huse : engine.useText use text { s with queue := [.event event] } =
      { u with queue := [.event event] })
    (hagain : engine.deliver event { u with queue := [] } = (.ok (), v)) (hv : v.queue = [])
    (steps : Nat) (later : List Event) :
    engine.submitAll steps (event :: later)
        { s with queue := [], captures := .firstText text use :: s.captures } =
      if steps < 2 then none else engine.submitAll steps later v := by
  have hend : engine.step (.event event)
      { s with queue := [], captures := .firstText text use :: s.captures } =
        (.ok (), { u with queue := [.event event] }) :=
    (deliver_done (s := { s with queue := [], captures := .firstText text use :: s.captures })
      rfl hfeed).trans (congrArg _ huse)
  have hrun : engine.Runs 1 { s with
      queue := [.event event]
      captures := .firstText text use :: s.captures } { u with queue := [.event event] } :=
    Runs.single rfl hend
  split
  · exact submitAll_eq_none (s := { s with captures := .firstText text use :: s.captures })
      hhalted (hrun.drain_eq_none (by simp) (by omega)) later
  · exact submitAll_of_runs (s := { s with captures := .firstText text use :: s.captures })
      hhalted (hrun.trans (Runs.single rfl hagain)) hv (by omega) later

/-- Whatever follows its argument, the element closes with the same outcome, or there are too few
steps for it. -/
theorem submitAll_argument {text : String} {use : TextUse} (hhalted : s.halted = false)
    (hdrops : use.Drops engine s.scope text) (name : String) :
    ∃ scope output log, ∀ (steps : Nat) (forest : Forest),
      engine.submitAll steps (forest.body.events ++ [.close]) { s with
          queue := []
          levels := s.levels.push name
          captures := .firstText text use :: s.captures } =
        if steps < 2 then none else some (.ok (), { s with queue := [], scope, output, log }) := by
  obtain ⟨scope, output, log, huse⟩ :=
    useText_drops (s := { s with levels := s.levels.push name }) hdrops
  let u : State := { s with scope, output, log, levels := s.levels.push name }.discardBody
  refine ⟨scope, output, log, fun steps forest => ?_⟩
  rcases forest.body_cases with hnil | ⟨inner, children, rest, helement⟩
  · have hclose : engine.deliver .close { u with queue := [] } =
        (.ok (), BodyUse.drop.run [] { s with queue := [], scope, output, log }) :=
      step_subLevel_close engine (s := u) rfl (s.levels.pop?_push name) rfl [] log
    rw [hnil, Forest.events, List.nil_append]
    exact submitAll_boundary (s := { s with levels := s.levels.push name }) (u := u)
      hhalted rfl (huse _) hclose rfl steps []
  · have hstart : engine.deliver (.start inner) { u with queue := [] } = (.ok (), { u with
        queue := [], captures := .subLevel (1 : Nat) true [] .drop :: s.captures }) :=
      deliver_pending (s := { u with queue := [] }) rfl
        (feed_dropped (.start inner) 0 1 [] .drop rfl)
    have hlater := submitAll_boundary (s := { s with levels := s.levels.push name }) (u := u)
      hhalted rfl (huse _) hstart rfl steps (children.events ++ .close :: rest.events ++ [.close])
    rw [helement, Forest.events, List.cons_append]
    refine hlater.trans ?_
    split
    · rfl
    · have hdropped := submitAll_dropped_close engine (.element inner children rest)
        (s := { s with scope, output, log }) hhalted (by omega : 1 ≤ steps) name
      rw [Forest.events, List.cons_append] at hdropped
      exact (submitAll_pending (s := u) hhalted (feed_dropped (.start inner) 0 1 [] .drop rfl)
        (by omega) _).symm.trans hdropped

/-- Children that begin alike are read alike. -/
theorem submitAll_children {use : TextUse} {first second : Forest} {steps : Nat}
    (hhalted : s.halted = false) (hsteps : 1 ≤ steps) (hlead : first.lead = second.lead)
    (hdrops : use.Drops engine s.scope first.argument) (name : String) :
    engine.submitAll steps (first.events ++ [.close])
        ({ s with queue := [], levels := s.levels.push name }.captureText use) =
      engine.submitAll steps (second.events ++ [.close])
        ({ s with queue := [], levels := s.levels.push name }.captureText use) := by
  obtain ⟨scope, output, log, hclosed⟩ := submitAll_argument hhalted hdrops name
  have hread : ∀ forest : Forest, forest.argument = first.argument →
      engine.submitAll steps (forest.events ++ [.close])
        ({ s with queue := [], levels := s.levels.push name }.captureText use) =
          if steps < 2 then none
          else some (.ok (), { s with queue := [], scope, output, log }) := by
    intro forest hargument
    have hfront := submitAll_lead engine forest (s := { s with levels := s.levels.push name })
      hhalted hsteps "" use s.captures (forest.body.events ++ [.close])
    rw [String.empty_append, hargument] at hfront
    rw [forest.events_eq_lead_append, List.append_assoc]
    exact hfront.trans (hclosed steps forest)
  rw [hread first rfl, hread second (Forest.argument_eq_of_lead hlead).symm]

/-- Once its start has been worked off, an element that drops all the rest has the same outcome
whatever that is. -/
theorem submitAll_start {n : Nat} {name : String} {use : BodyUse} {captures : List Capture}
    (hhalted : s.halted = false)
    (hrun : engine.Runs n { s with queue := [.event (.start name)] }
      { t with queue := [], captures := .subLevel 0 true [] use :: captures })
    (steps : Nat) (first second : Forest) :
    engine.submitAll steps (.start name :: (first.events ++ [.close])) { s with queue := [] } =
      engine.submitAll steps (.start name :: (second.events ++ [.close]))
        { s with queue := [] } := by
  cases hanswer : engine.drain steps { s with queue := [.event (.start name)] } with
  | none => rw [submitAll_eq_none hhalted hanswer, submitAll_eq_none hhalted hanswer]
  | some answer =>
    have hends := hrun.drain_of_nil rfl (Nat.le_max_left n steps)
    rw [drain_mono engine (Nat.le_max_right n steps) hanswer, Option.some.injEq] at hends
    rw [hends] at hanswer
    have hsteps : 1 ≤ steps := by
      rcases Nat.eq_zero_or_pos steps with rfl | hpos
      · simp [drain] at hanswer
      · exact hpos
    have ht : t.halted = false := hrun.halted.trans hhalted
    have hdropped : ∀ forest : Forest, engine.submitAll steps
        (.start name :: (forest.events ++ [.close])) { s with queue := [] } =
          engine.submitAll steps [.close]
            { t with queue := [], captures := .subLevel 0 true [] use :: captures } :=
      fun forest => (submitAll_cons_of_ok (s := { s with queue := [] }) hhalted hanswer).trans
        (submitAll_dropped engine forest ht hsteps 0 [] use captures [.close])
    rw [hdropped first, hdropped second]

/-- What an element drops has no effect at all: the outcome is the same, and so is the state. -/
theorem submitAll_eq_of_discards {name : String} {first second : Forest} (hqueue : s.queue = [])
    (hcaptures : s.captures = []) (h : engine.Discards s name first second) (steps : Nat) :
    engine.submitAll steps (.start name :: (first.events ++ [.close])) s =
      engine.submitAll steps (.start name :: (second.events ++ [.close])) s := by
  cases hhalted : s.halted with
  | true => simp [submitAll, submit, hhalted]
  | false =>
    have hs : s = { s with queue := [] } := by rw [← hqueue]
    have hrouted : ∀ {t : State}, engine.route (.start name) { s with queue := [] } = (.ok (), t) →
        engine.Runs 1 { s with queue := [.event (.start name)] } t := fun hroute =>
      Runs.single rfl ((deliver_of_nil (s := { s with queue := [] }) hcaptures).trans hroute)
    rw [hs]
    cases h with
    | debug htag =>
      exact submitAll_start hhalted (hrouted (route_directive htag)) steps first second
    | through htag =>
      exact submitAll_start hhalted (hrouted (route_directive htag)) steps first second
    | @selected _ _ u overlay _ hrun hbody hmarkers =>
      have hdone : (Callback.bodyDone overlay true).run { u with queue := [] } = _ :=
        Callback.run_bodyDone_dropped hmarkers
      have hlast : engine.step (.callback (.bodyDone overlay true)) { u with queue := [] } =
          (.ok (), _) := congrArg (Prod.mk (Except.ok ())) hdone
      exact submitAll_start hhalted (hrun.trans (Runs.single hbody hlast)) steps first second
    | argument huse hdrops hlead =>
      have hstart := hrouted (route_argument huse { s with queue := [] })
      rcases Nat.eq_zero_or_pos steps with rfl | hsteps
      · rw [submitAll_eq_none hhalted rfl, submitAll_eq_none hhalted rfl]
      · rw [submitAll_of_runs hhalted hstart rfl hsteps,
          submitAll_of_runs hhalted hstart rfl hsteps]
        exact submitAll_children hhalted hsteps hlead hdrops name

/-- A selected element that is replaced by a text: a directive inside is not heard of. -/
theorem submitAll_eq_of_discards_selected :
    let engine : Engine := {}
    let s : State := { levels := Levels.root.register "p" (.deferred [.text "instead"] none) }
    let hidden : Forest := .element ":debug" (.text "x" .nil) (.text "y" .nil)
    engine.Discards s "p" .nil hidden ∧ ∀ steps,
      engine.submitAll steps [.start "p", .close] s =
        engine.submitAll steps (.start "p" :: (hidden.events ++ [.close])) s := by
  intro engine s hidden
  have htag : engine.options.classify "p" = .element := by decide +kernel
  have hfired : engine.step (.event (.start "p")) s = (.ok (),
      State.forward { s with levels := s.levels.push "p" } ["p", "*"] (.start "p")) :=
    (deliver_of_nil (s := s) rfl).trans (route_element htag)
  have hstart : engine.Runs 1 { s with queue := [.event (.start "p")] } _ := .single rfl hfired
  have hrun := hstart.trans (Runs.single rfl rfl)
  have hdiscards : engine.Discards s "p" .nil hidden := .selected hrun rfl rfl .nil hidden
  exact ⟨hdiscards, submitAll_eq_of_discards rfl rfl hdiscards⟩

end Engine
end TreeStream
