import TreeStream.Proofs.Captures

/-!
# Starts, arguments, bodies and closes

How the engine takes the parts that elements consist of: the start and the close of an element that
nobody selects, the argument at the beginning of a directive, and a body that is captured.

* `Engine.absorbs_start`, `Engine.absorbs_close`, `Engine.absorbs_close_vanish`,
  `Engine.absorbs_close_resume`
* `Engine.opens_argument` gathers an argument and goes on when it is complete.
* `Engine.feeds_subLevel` gathers a body, and `Engine.absorbs_subLevel_close` goes on when it is;
  `Engine.feeds_discardBody` is the case of a body that is dropped, and `Engine.feeds_defer` that of
  one that is kept for later.
-/

namespace TreeStream
set_option autoImplicit false

/-! ## Levels and their handlers -/

theorem Levels.lookup_push (levels : Levels) (tag : String) (keys : List String) :
    (levels.push tag).lookup keys = levels.lookup keys := by
  unfold Levels.lookup
  congr 1

theorem Levels.lookup_setOnEnd (levels : Levels) (hook : EndHook) (keys : List String) :
    (levels.setOnEnd hook).lookup keys = levels.lookup keys := rfl

theorem State.forward_of_none {s : State} {keys : List String} (h : s.levels.lookup keys = none)
    (event : Event) : s.forward keys event = s.emit event := by
  simp [State.forward, h]

theorem State.evaluate_queue (s : State) (evaluator : Evaluator) (source : String) :
    ∃ log, ∀ queue, ({ s with queue } : State).evaluate evaluator source =
      ((s.scope.evaluate evaluator source).1,
        { s with scope := (s.scope.evaluate evaluator source).2, log, queue }) := by
  rcases hresult : s.scope.evaluate evaluator source with ⟨error | value, scope⟩
  · exact ⟨s.log ++ [.evaluationFailed source error], fun queue => by
      simp [State.evaluate, hresult, State.tell]⟩
  · exact ⟨s.log, fun queue => by simp [State.evaluate, hresult]⟩

theorem State.evaluate_eq (s : State) (evaluator : Evaluator) (source : String) :
    ∃ log, s.evaluate evaluator source = ((s.scope.evaluate evaluator source).1,
      { s with scope := (s.scope.evaluate evaluator source).2, log }) := by
  obtain ⟨log, heval⟩ := s.evaluate_queue evaluator source
  exact ⟨log, heval s.queue⟩

namespace Engine

variable {engine : Engine} {s t : State}

/-! ## Events that the router emits -/

theorem absorbs_of_route {event : Event} (hcaptures : s.captures = [])
    (hroute : ∀ queue log, ∃ log', engine.route event { s with queue, log } =
      (.ok (), { t with queue, log := log' })) : engine.Absorbs [.event event] s t := by
  refine Absorbs.single ?_
  intro queue log
  obtain ⟨log', hroute⟩ := hroute queue log
  refine ⟨log', ?_⟩
  have hdeliver : engine.deliver event { s with queue, log } =
      engine.route event { s with queue, log } := deliver_of_nil hcaptures
  exact hdeliver.trans hroute

theorem absorbs_text {content : String} (hcaptures : s.captures = [])
    (hlookup : s.levels.lookup ["TEXT"] = none) :
    engine.Absorbs [.event (.text content)] s (s.emit (.text content)) :=
  absorbs_of_route hcaptures fun queue log =>
    ⟨log, congrArg _ (State.forward_of_none (s := { s with queue, log }) hlookup _)⟩

theorem absorbs_attr {name value : String} (hcaptures : s.captures = [])
    (hlookup : s.levels.lookup ["ATTR"] = none) :
    engine.Absorbs [.event (.attr name value)] s (s.emit (.attr name value)) :=
  absorbs_of_route hcaptures fun queue log =>
    ⟨log, congrArg _ (State.forward_of_none (s := { s with queue, log }) hlookup _)⟩

theorem absorbs_start {name : String} (hcaptures : s.captures = [])
    (htag : engine.options.classify name = .element ∨ engine.options.classify name = .unknown)
    (hlookup : s.levels.lookup [name, "*"] = none) :
    engine.Absorbs [.event (.start name)] s
      ({ s with levels := s.levels.push name }.emit (.start name)) := by
  have hpush : (s.levels.push name).lookup [name, "*"] = none :=
    (s.levels.lookup_push name _).trans hlookup
  refine absorbs_of_route hcaptures ?_
  intro queue log
  rcases htag with htag | htag
  · rw [route_element htag, State.forward_of_none (by exact hpush)]
    exact ⟨log, rfl⟩
  · rw [route_unknown htag, State.forward_of_none (by exact hpush)]
    exact ⟨_, rfl⟩

theorem absorbs_close (engine : Engine) {level : Level} {levels : Levels}
    (hcaptures : s.captures = [])
    (hpop : s.levels.pop? = some (level, levels)) (hhook : level.onEnd = none)
    (hlookup : levels.lookup ["END"] = none) :
    engine.Absorbs [.event .close] s ({ s with levels }.emit .close) := by
  refine absorbs_of_route hcaptures ?_
  intro queue log
  have hshift : ({ s with queue, log } : State).shiftLevel =
      .ok (.forward, { s with levels, queue, log }) := by
    simp [State.shiftLevel, hpop, hhook]
  exact ⟨log, (route_close_forward hshift).trans (congrArg _ (State.forward_of_none hlookup _))⟩

/-- The close of an element whose own events do not show. -/
theorem absorbs_close_vanish (engine : Engine) {level : Level} {levels : Levels}
    (hcaptures : s.captures = [])
    (hpop : s.levels.pop? = some (level, levels)) (hhook : level.onEnd = some .vanish) :
    engine.Absorbs [.event .close] s { s with levels } := by
  refine absorbs_of_route hcaptures ?_
  intro queue log
  have hshift : ({ s with queue, log } : State).shiftLevel =
      .ok (.suppress, { s with levels, queue, log }) := by
    simp [State.shiftLevel, hpop, hhook, EndHook.run]
  exact ⟨log, route_close_suppress hshift⟩

/-- The close of an element for which something waits. -/
theorem absorbs_close_resume {level : Level} {levels : Levels} {stash : List Queued}
    (hcaptures : s.captures = [])
    (hpop : s.levels.pop? = some (level, levels)) (hhook : level.onEnd = some (.resume stash))
    (hstash : engine.Absorbs stash { s with levels } t) :
    engine.Absorbs [.event .close] s t := by
  intro queue log
  have hshift : ({ s with queue, log } : State).shiftLevel =
      .ok (.suppress, { s with levels, queue := stash ++ queue, log }) := by
    simp [State.shiftLevel, hpop, hhook, EndHook.run, Queue.prepend]
  have hdeliver : engine.deliver .close { s with queue, log } =
      engine.route .close { s with queue, log } := deliver_of_nil hcaptures
  have hclose : engine.step (.event .close) { s with queue, log } = _ :=
    hdeliver.trans (route_close_suppress hshift)
  obtain ⟨n, log1, hrun⟩ := hstash queue log
  exact ⟨1 + n, log1, (Runs.single rfl hclose).trans hrun⟩

/-- The end of a body whose element has been let through. -/
theorem absorbs_bodyDone (engine : Engine) (overlay : Overlay) (selectedStart : Bool)
    {markers : Markers} (hmarkers : s.markers = .claimed :: markers) :
    engine.Absorbs [.callback (.bodyDone overlay selectedStart)] s
      { s with scope := s.scope.release overlay, markers } := by
  refine Absorbs.single fun queue log => ⟨log, ?_⟩
  rw [step, Callback.run_bodyDone_claimed (by exact hmarkers), State.release]

/-! ## Arguments -/

/-- Work on the first events leads from `s` to `t`, where the later ones are left.  The first of
those may have been looked at already, when it has ended something. -/
def Opens (engine : Engine) (events later : List Event) (s t : State) : Prop :=
  ∃ first between, events = first ++ later ∧ engine.Feeds first s between ∧
    (between = t ∨ ∃ event rest, later = event :: rest ∧ ∀ queue log, ∃ log',
      engine.step (.event event) { between with queue, log } =
        (.ok (), { t with queue := .event event :: queue, log := log' }))

theorem Opens.feeds {events later : List Event} {u : State} (h : engine.Opens events later s t)
    (hrest : engine.Feeds later t u) : engine.Feeds events s u := by
  obtain ⟨first, between, rfl, hfirst, rfl | ⟨event, rest, rfl, hstep⟩⟩ := h
  · exact hfirst.append hrest
  · obtain ⟨t', hevent, hrest⟩ := hrest
    exact hfirst.append ⟨t', Absorbs.step [.event event] hstep hevent, hrest⟩

/-- In the queue all at once, the events give way to the later ones. -/
theorem Opens.runs {events later : List Event} (h : engine.Opens events later s t) (queue : Queue)
    (log : List LogEntry) : ∃ n log', engine.Runs n
      { s with queue := events.map .event ++ queue, log }
      { t with queue := later.map .event ++ queue, log := log' } := by
  obtain ⟨first, between, rfl, hfirst, hlater⟩ := h
  obtain ⟨n, log1, hrun⟩ := hfirst.absorbs (later.map .event ++ queue) log
  rw [List.map_append, List.append_assoc]
  rcases hlater with rfl | ⟨event, rest, rfl, hstep⟩
  · exact ⟨n, log1, hrun⟩
  · obtain ⟨log2, hstep⟩ := hstep (rest.map .event ++ queue) log1
    exact ⟨n + 1, log2, hrun.trans (Runs.single rfl hstep)⟩

/-- The first start or close ends the argument: the directive goes on, and the event is looked at
again. -/
theorem opens_argument {name : String} {children : Forest} {use : TextUse}
    (hcaptures : s.captures = [])
    (hroute : ∀ s : State, engine.route (.start name) s =
      (.ok (), { s with levels := s.levels.push name }.captureText use))
    (huse : ∀ queue log, ∃ log', engine.useText use children.argument
      { s with levels := s.levels.push name, queue, log } = { t with queue, log := log' }) :
    engine.Opens (.start name :: (children.events ++ [.close])) (children.body.events ++ [.close])
      s t := by
  have hstart : engine.Absorbs [.event (.start name)] s
      ({ s with levels := s.levels.push name }.captureText use) :=
    absorbs_of_route hcaptures fun queue log => ⟨log, hroute { s with queue, log }⟩
  have hlead := feeds_feedAll engine (Capture.feedAll_lead children "" use)
    { s with levels := s.levels.push name } s.captures
  rw [String.empty_append] at hlead
  have hboundary : ∃ event events, children.body.events ++ [.close] = event :: events ∧
      (Capture.firstText children.argument use).feed event =
        (.firstText children.argument use, some event) := by
    rcases children.body_cases with hnil | ⟨name, inner, rest, helement⟩
    · exact ⟨.close, [], by rw [hnil]; rfl, rfl⟩
    · exact ⟨.start name, _, by rw [helement]; rfl, rfl⟩
  obtain ⟨event, events, hevents, hfeed⟩ := hboundary
  refine ⟨.start name :: children.lead, _, ?_, .cons hstart hlead,
    .inr ⟨event, events, hevents, ?_⟩⟩
  · rw [children.events_eq_lead_append, List.append_assoc, List.cons_append]
  · intro queue log
    obtain ⟨log', huse⟩ := huse (.event event :: queue) log
    have hdone : engine.deliver event { s with
        levels := s.levels.push name
        captures := .firstText children.argument use :: s.captures
        queue
        log } = engine.complete (.firstText children.argument use) event
          { s with levels := s.levels.push name, queue, log } := deliver_done rfl hfeed
    exact ⟨log', hdone.trans (congrArg _ huse)⟩

theorem feeds_argument {name : String} {children : Forest} {use : TextUse} {t u : State}
    (hcaptures : s.captures = [])
    (hroute : ∀ s : State, engine.route (.start name) s =
      (.ok (), { s with levels := s.levels.push name }.captureText use))
    (huse : ∀ queue log, ∃ log', engine.useText use children.argument
      { s with levels := s.levels.push name, queue, log } = { t with queue, log := log' })
    (hrest : engine.Feeds (children.body.events ++ [.close]) t u) :
    engine.Feeds (.start name :: (children.events ++ [.close])) s u :=
  (opens_argument hcaptures hroute huse).feeds hrest

/-! ## Bodies -/

theorem feeds_subLevel (engine : Engine) (forest : Forest) (s : State) (depth : Nat)
    (discard : Bool) (buffer : List Event) (use : BodyUse) (captures : List Capture) :
    engine.Feeds forest.events
      { s with captures := .subLevel depth discard buffer use :: captures }
      { s with captures :=
        (.subLevel depth discard (buffer ++ kept discard forest.events) use) :: captures } :=
  feeds_feedAll engine
    (Capture.feedAll_forest forest (Int.natCast_nonneg depth) discard buffer use) s captures

/-- The close of the element ends the capture of its body and closes its level. -/
theorem step_subLevel_close (engine : Engine) {discard : Bool} {buffer : List Event}
    {use : BodyUse} {captures : List Capture} {level : Level} {levels : Levels}
    (hcaptures : s.captures = .subLevel 0 discard buffer use :: captures)
    (hpop : s.levels.pop? = some (level, levels)) (hhook : level.onEnd = none) (queue : Queue)
    (log : List LogEntry) : engine.step (.event .close) { s with queue, log } =
      (.ok (), use.run buffer { s with captures, levels, queue, log }) := by
  have hshift : ({ s with captures, queue, log } : State).shiftLevel =
      .ok (.forward, { s with captures, levels, queue, log }) := by
    simp [State.shiftLevel, hpop, hhook]
  exact step_close_subLevel (s := { s with queue, log }) hcaptures hshift

theorem absorbs_subLevel_close (engine : Engine) {discard : Bool} {buffer : List Event}
    {use : BodyUse} {captures : List Capture} {level : Level} {levels : Levels}
    (hcaptures : s.captures = .subLevel 0 discard buffer use :: captures)
    (hpop : s.levels.pop? = some (level, levels)) (hhook : level.onEnd = none)
    (huse : ∀ queue log, ∃ n log',
      engine.Runs n (use.run buffer { s with captures, levels, queue, log })
        { t with queue, log := log' }) : engine.Absorbs [.event .close] s t := by
  intro queue log
  obtain ⟨n, log', hrun⟩ := huse queue log
  have hstep := step_subLevel_close engine hcaptures hpop hhook queue log
  exact ⟨1 + n, log', (Runs.single rfl hstep).trans hrun⟩

theorem feeds_discardBody (engine : Engine) (forest : Forest) (s : State) (name : String) :
    engine.Feeds (forest.events ++ [.close])
      ({ s with levels := s.levels.push name }.discardBody) s := by
  have hbody := feeds_subLevel engine forest { s with levels := s.levels.push name } 0
    true [] .drop s.captures
  have hclose : engine.Absorbs [.event .close] _ s := absorbs_subLevel_close engine (t := s)
    (s := { s with
      levels := s.levels.push name
      captures := .subLevel 0 true ([] ++ kept true forest.events) .drop :: s.captures })
    rfl (s.levels.pop?_push name) rfl fun queue log => ⟨0, log, rfl⟩
  exact hbody.append (.cons hclose (.nil engine s))

/-- An element that defers a body registers it on the level around itself. -/
theorem feeds_defer {name selector : String} {children : Forest} (hcaptures : s.captures = [])
    (htag : engine.options.classify name = .directive .defer)
    (hselector : (Selection.parse children.argument).selector = some selector) :
    engine.Feeds (.start name :: (children.events ++ [.close])) s
      { s with
        levels := s.levels.register selector
          (.deferred children.body.events (Selection.parse children.argument).binding) } := by
  let binding := (Selection.parse children.argument).binding
  have hgather := feeds_subLevel engine children.body { s with levels := s.levels.push name } 0
    false [] (.register selector binding) s.captures
  have hclose : engine.Absorbs [.event .close] _
      { s with levels := s.levels.register selector (.deferred children.body.events binding) } :=
    absorbs_subLevel_close engine (s := { s with
        levels := s.levels.push name
        captures := .subLevel 0 false ([] ++ kept false children.body.events)
          (.register selector binding) :: s.captures })
      rfl (s.levels.pop?_push name) rfl fun queue log => ⟨0, log, rfl⟩
  have hroute : ∀ s : State, engine.route (.start name) s = (.ok (),
      { s with levels := s.levels.push name }.captureText .defer) := fun s => route_directive htag
  refine feeds_argument hcaptures hroute ?_ (hgather.append (.cons hclose (.nil engine _)))
  intro queue log
  exact ⟨log, by simp [useText, hselector, State.captureBody, binding]⟩

end Engine
end TreeStream
