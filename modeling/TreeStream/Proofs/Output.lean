import TreeStream.Proofs.Runs

/-!
# Output that has been put out before

Nothing that the engine does depends on its output: with more of it at the beginning, it does the
same and keeps that in front.

* `State.after earlier s`: the state with these events in front of its output.
* `Engine.step_after`, `Engine.drain_after` and `Engine.submit_after`: the engine keeps them there.
-/

namespace TreeStream
set_option autoImplicit false

/-- The state after these events have been put out as well, before all others. -/
def State.after (earlier : List Event) (s : State) : State :=
  { s with output := earlier ++ s.output }

variable (earlier : List Event) (s : State)

namespace State

@[simp] theorem emit_after (event : Event) :
    (s.after earlier).emit event = (s.emit event).after earlier := by
  simp [emit, after]

@[simp] theorem tell_after (entry : LogEntry) :
    (s.after earlier).tell entry = (s.tell entry).after earlier := rfl

@[simp] theorem evaluate_after (evaluator : Evaluator) (source : String) :
    (s.after earlier).evaluate evaluator source =
      ((s.evaluate evaluator source).1, (s.evaluate evaluator source).2.after earlier) := by
  rcases hresult : s.scope.evaluate evaluator source with ⟨error | value, scope⟩ <;>
    simp [evaluate, after, hresult, tell]

theorem shiftLevel_after : (s.after earlier).shiftLevel =
    s.shiftLevel.map fun closed => (closed.1, closed.2.after earlier) := by
  have hlevels : (s.after earlier).levels = s.levels := rfl
  unfold shiftLevel
  rw [hlevels]
  rcases s.levels.pop? with _ | ⟨⟨tag, handlers, _ | (_ | stash | ⟨event, close⟩)⟩, levels⟩
  · rfl
  · rfl
  · rfl
  · rfl
  · simp [EndHook.run, after, Except.map]

@[simp] theorem captureText_after (use : TextUse) :
    (s.after earlier).captureText use = (s.captureText use).after earlier := rfl

@[simp] theorem captureBody_after (discard : Bool) (use : BodyUse) :
    (s.after earlier).captureBody discard use = (s.captureBody discard use).after earlier := rfl

@[simp] theorem discardBody_after :
    (s.after earlier).discardBody = s.discardBody.after earlier := rfl

@[simp] theorem setOnEnd_after (hook : EndHook) :
    (s.after earlier).setOnEnd hook = (s.setOnEnd hook).after earlier := rfl

theorem letThrough_after : (s.after earlier).letThrough = s.letThrough.after earlier := by
  have hmarkers : (s.after earlier).markers = s.markers := rfl
  unfold letThrough
  rw [hmarkers]
  cases s.markers.claim <;> rfl

end State

theorem Loop.play_after (loop : Loop) :
    loop.play (s.after earlier) = (loop.play s).after earlier := by
  unfold Loop.play
  cases loop.left <;> rfl

theorem Handler.run_after (handler : Handler) (event : Event) :
    handler.run event (s.after earlier) = (handler.run event s).after earlier := by
  cases handler with
  | deferred body binding => rfl
  | announce first => simp [Handler.run]

theorem Callback.run_after (callback : Callback) :
    callback.run (s.after earlier) = (callback.run s).after earlier := by
  cases callback with
  | roundDone overlay loop => exact loop.play_after earlier (s.release overlay)
  | bodyDone overlay selectedStart =>
    have hmarkers : ((s.after earlier).release overlay).markers = (s.release overlay).markers := rfl
    simp only [Callback.run, hmarkers]
    split <;> rfl
  | announce event => simp [Callback.run]

theorem BodyUse.run_after (use : BodyUse) (body : List Event) :
    use.run body (s.after earlier) = (use.run body s).after earlier := by
  cases use with
  | drop => rfl
  | loop item index items => exact Loop.play_after earlier s _
  | register selector binding => rfl
  | through => exact s.letThrough_after earlier
  | report tag => simp [BodyUse.run, State.after]

theorem Directive.enter_after (directive : Directive) (start : Event) :
    directive.enter start (s.after earlier) = (directive.enter start s).after earlier := by
  cases directive <;> rfl

theorem State.forward_after (keys : List String) (event : Event) :
    (s.after earlier).forward keys event = (s.forward keys event).after earlier := by
  have hlevels : (s.after earlier).levels = s.levels := rfl
  unfold State.forward
  rw [hlevels]
  cases s.levels.lookup keys with
  | none => exact s.emit_after earlier event
  | some handler => exact handler.run_after earlier s event

/-- The outcome with these events in front of the output. -/
def Engine.outcomeAfter (earlier : List Event) (outcome : Except Fault Unit × State) :
    Except Fault Unit × State :=
  (outcome.1, outcome.2.after earlier)

namespace Engine

variable (engine : Engine)

theorem useText_after (use : TextUse) (text : String) :
    engine.useText use text (s.after earlier) = (engine.useText use text s).after earlier := by
  cases use with
  | eval => simp [useText]
  | cond start =>
    rcases hvalue : s.evaluate engine.evaluator text with ⟨error | value, t⟩
    · simp [useText, hvalue]
    · cases htruthy : value.isTruthy <;> simp [useText, hvalue, htruthy]
  | each start =>
    unfold useText
    cases EachArgument.parse? text with
    | none => simp
    | some argument =>
      rcases hvalue : s.evaluate engine.evaluator argument.source with ⟨error | value, t⟩
      · simp [hvalue]
      · cases value <;> simp [hvalue]
  | defer =>
    cases hselector : (Selection.parse text).selector <;> simp [useText, hselector]
  | substitute name =>
    simp only [useText, State.evaluate_after]
    split <;> simp
  | report tag => simp [useText]
  | reportValue tag => simp [useText]

theorem route_after (event : Event) :
    engine.route event (s.after earlier) = outcomeAfter earlier (engine.route event s) := by
  cases event with
  | start name =>
    let t : State := { s with levels := s.levels.push name }
    simp only [route]
    split
    · exact congrArg _ (Directive.enter_after earlier t _ _)
    · rfl
    · exact congrArg _ (State.forward_after earlier (t.tell _) _ _)
    · exact congrArg _ (State.forward_after earlier t _ _)
  | close =>
    simp only [route, State.shiftLevel_after]
    rcases s.shiftLevel with fault | ⟨_ | _, t⟩
    · rfl
    · exact congrArg _ (t.forward_after earlier ["END"] .close)
    · rfl
  | text content => exact congrArg _ (s.forward_after earlier _ _)
  | attr name value => exact congrArg _ (s.forward_after earlier _ _)

theorem complete_after (capture : Capture) (boundary : Event) :
    engine.complete capture boundary (s.after earlier) =
      outcomeAfter earlier (engine.complete capture boundary s) := by
  cases capture with
  | firstText text use =>
    exact congrArg _ (useText_after earlier
      { s with queue := s.queue.pushFront boundary } engine use text)
  | subLevel depth discard buffer use =>
    simp only [complete, State.shiftLevel_after]
    rcases s.shiftLevel with fault | ⟨close, t⟩
    · rfl
    · exact congrArg _ (use.run_after earlier t buffer)

theorem deliver_after (event : Event) :
    engine.deliver event (s.after earlier) = outcomeAfter earlier (engine.deliver event s) := by
  rcases hcaptures : s.captures with _ | ⟨capture, captures⟩
  · rw [deliver_of_nil hcaptures, deliver_of_nil (s := s.after earlier) hcaptures]
    exact engine.route_after earlier s event
  · rcases hfeed : capture.feed event with ⟨capture', _ | boundary⟩
    · rw [deliver_pending hcaptures hfeed, deliver_pending (s := s.after earlier) hcaptures hfeed]
      rfl
    · rw [deliver_done hcaptures hfeed, deliver_done (s := s.after earlier) hcaptures hfeed]
      exact complete_after earlier { s with captures } engine capture' boundary

theorem step_after (item : Queued) :
    engine.step item (s.after earlier) = outcomeAfter earlier (engine.step item s) := by
  cases item with
  | event event => exact engine.deliver_after earlier s event
  | callback callback => exact congrArg _ (callback.run_after earlier s)

theorem drain_after (steps : Nat) :
    engine.drain steps (s.after earlier) = (engine.drain steps s).map (outcomeAfter earlier) := by
  fun_induction drain engine steps s with
  | case1 steps s hqueue => exact drain_of_nil engine steps (s.after earlier) hqueue
  | case2 s item queue hqueue =>
    exact drain_zero_of_cons engine (s.after earlier) item queue hqueue
  | case3 s item queue hqueue steps fault t hstep =>
    have hafter := step_after earlier { s with queue } engine item
    rw [hstep] at hafter
    exact drain_succ_of_error engine steps (s.after earlier) (t.after earlier) item queue fault
      hqueue hafter
  | case4 s item queue hqueue steps t hstep ih =>
    have hafter := step_after earlier { s with queue } engine item
    rw [hstep] at hafter
    rw [drain_succ_of_ok engine steps (s.after earlier) (t.after earlier) item queue hqueue hafter]
    exact ih

theorem submit_after (steps : Nat) (event : Event) :
    engine.submit steps event (s.after earlier) =
      (engine.submit steps event s).map (outcomeAfter earlier) := by
  have hdrain := drain_after earlier { s with queue := s.queue.pushBack event } engine steps
  obtain ⟨t, ht⟩ : ∃ t, t = s.after earlier := ⟨_, rfl⟩
  have hhalted : t.halted = s.halted := by rw [ht]; rfl
  have hpushed : engine.drain steps { t with queue := t.queue.pushBack event } =
      (engine.drain steps { s with queue := s.queue.pushBack event }).map
        (outcomeAfter earlier) := by
    rw [ht]
    exact hdrain
  rw [← ht]
  unfold submit
  by_cases h : s.halted = true
  · rw [if_pos h, if_pos (hhalted.trans h), ht]
    rfl
  · rw [if_neg h, if_neg (hhalted ▸ h), hpushed]
    rcases engine.drain steps { s with queue := s.queue.pushBack event } with
      _ | ⟨fault | ⟨⟩, u⟩ <;> rfl

end Engine
end TreeStream
