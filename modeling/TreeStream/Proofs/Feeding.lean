import TreeStream.Proofs.Runs

/-!
# Taking events one by one

A stream comes event by event, and a body is replayed with all its events in the queue at once.  A
sequence that is absorbed event by event can be taken either way.

* `Engine.Absorbs items s t`: the items, whatever is behind them in the queue and whatever has been
  logged, are worked off and lead from `s` to `t`.
* `Engine.Feeds events s t`: the events are absorbed one after the other.
* `Engine.Feeds.absorbs` puts them into the queue at once, and `Engine.Feeds.submitAll` submits
  them.
-/

namespace TreeStream
set_option autoImplicit false

namespace Engine

/-! ## No step halts the engine -/

theorem play_halted (loop : Loop) (s : State) : (loop.play s).halted = s.halted := by
  unfold Loop.play
  cases loop.left <;> rfl

theorem play_captures (loop : Loop) (s : State) : (loop.play s).captures = s.captures := by
  unfold Loop.play
  cases loop.left <;> rfl

theorem handle_halted (handler : Handler) (event : Event) (s : State) :
    (handler.run event s).halted = s.halted := by
  cases handler <;> rfl

theorem callback_halted (callback : Callback) (s : State) :
    (callback.run s).halted = s.halted := by
  cases callback with
  | roundDone overlay loop => exact play_halted loop (s.release overlay)
  | bodyDone overlay selectedStart =>
    simp only [Callback.run]
    split <;> rfl
  | announce event => rfl

theorem letThrough_halted (s : State) : s.letThrough.halted = s.halted := by
  unfold State.letThrough
  cases s.markers.claim <;> rfl

theorem useBody_halted (use : BodyUse) (body : List Event) (s : State) :
    (use.run body s).halted = s.halted := by
  cases use with
  | loop item index items => exact play_halted _ s
  | through => exact letThrough_halted s
  | drop => rfl
  | register selector binding => rfl
  | report tag => rfl

theorem useText_halted (engine : Engine) (use : TextUse) (text : String) (s : State) :
    (engine.useText use text s).halted = s.halted := by
  have hgoes := useText_goesOn engine use text s
  generalize engine.useText use text s = t at hgoes ⊢
  cases hgoes <;> rfl

theorem shiftLevel_halted {s t : State} {close : LevelClose} (h : s.shiftLevel = .ok (close, t)) :
    t.halted = s.halted := by
  unfold State.shiftLevel at h
  rcases hpop : s.levels.pop? with _ | ⟨level, levels⟩
  · simp [hpop] at h
  · rcases hhook : level.onEnd with _ | (_ | stash | ⟨event, close'⟩) <;>
      simp only [hpop, Level.takeOnEnd_fst, hhook, EndHook.run, Except.ok.injEq,
        Prod.mk.injEq] at h <;>
      obtain ⟨-, rfl⟩ := h <;> rfl

theorem forward_halted (s : State) (keys : List String) (event : Event) :
    (s.forward keys event).halted = s.halted := by
  unfold State.forward
  cases s.levels.lookup keys with
  | none => rfl
  | some handler => exact handle_halted handler event s

theorem route_halted (engine : Engine) (event : Event) (s : State) :
    (engine.route event s).2.halted = s.halted := by
  cases event with
  | start name =>
    cases htag : engine.options.classify name with
    | directive directive =>
      rw [route_directive htag]
      cases directive <;> rfl
    | unknown =>
      rw [route_unknown htag]
      exact forward_halted _ _ _
    | affect =>
      rw [route_affect htag]
      rfl
    | element =>
      rw [route_element htag]
      exact forward_halted _ _ _
  | close =>
    rcases hshift : s.shiftLevel with fault | ⟨_ | _, s'⟩
    · rw [route_close_error hshift]
    · rw [route_close_forward hshift]
      exact (forward_halted _ _ _).trans (shiftLevel_halted hshift)
    · rw [route_close_suppress hshift]
      exact shiftLevel_halted hshift
  | text content => exact forward_halted _ _ _
  | attr name value => exact forward_halted _ _ _

/-- A fault halts the engine when it is reported to whoever submitted the event, not before. -/
theorem step_halted (engine : Engine) (item : Queued) (s : State) :
    (engine.step item s).2.halted = s.halted := by
  cases item with
  | callback callback => exact callback_halted callback s
  | event event =>
    change (engine.deliver event s).2.halted = s.halted
    rcases hcaptures : s.captures with _ | ⟨capture, captures⟩
    · rw [deliver_of_nil hcaptures]
      exact route_halted engine event s
    · rcases hfeed : capture.feed event with ⟨capture', _ | boundary⟩
      · rw [deliver_pending hcaptures hfeed]
      · rw [deliver_done hcaptures hfeed]
        cases capture' with
        | firstText text use => exact useText_halted engine use text _
        | subLevel depth discard buffer use =>
          rcases hshift : ({ s with captures } : State).shiftLevel with fault | ⟨close, s'⟩
          · rw [complete_subLevel_error hshift]
          · rw [complete_subLevel hshift]
            have hclosed := shiftLevel_halted (s := { s with captures }) hshift
            exact (useBody_halted use buffer s').trans hclosed

theorem Runs.halted {engine : Engine} {n : Nat} {s t : State} (h : engine.Runs n s t) :
    t.halted = s.halted := by
  refine h.preserves (P := fun u => u.halted = s.halted) ?_ rfl
  intro u item queue v hu hq hstep
  have hv := step_halted engine item { u with queue }
  rw [hstep] at hv
  exact hv.trans hu

/-! ## Absorbed items -/

/-- The items are worked off and lead from `s` to `t`, whatever is behind them in the queue and
whatever has been logged. -/
def Absorbs (engine : Engine) (items : List Queued) (s t : State) : Prop :=
  ∀ (queue : Queue) (log : List LogEntry), ∃ n log',
    engine.Runs n { s with queue := items ++ queue, log } { t with queue, log := log' }

theorem Absorbs.nil (engine : Engine) (s : State) : engine.Absorbs [] s s :=
  fun _ log => ⟨0, log, rfl⟩

theorem Absorbs.append {engine : Engine} {first second : List Queued} {s t u : State}
    (h1 : engine.Absorbs first s t) (h2 : engine.Absorbs second t u) :
    engine.Absorbs (first ++ second) s u := by
  intro queue log
  obtain ⟨n, log1, hrun1⟩ := h1 (second ++ queue) log
  obtain ⟨m, log2, hrun2⟩ := h2 queue log1
  rw [List.append_assoc]
  exact ⟨n + m, log2, hrun1.trans hrun2⟩

theorem Absorbs.step {engine : Engine} {item : Queued} {rest : List Queued} {s t u : State}
    (more : List Queued)
    (hstep : ∀ queue log, ∃ log', engine.step item { s with queue, log } =
      (.ok (), { t with queue := more ++ queue, log := log' }))
    (hmore : engine.Absorbs (more ++ rest) t u) : engine.Absorbs (item :: rest) s u := by
  intro queue log
  obtain ⟨log1, hstep⟩ := hstep (rest ++ queue) log
  obtain ⟨n, log2, hrun⟩ := hmore queue log1
  rw [List.append_assoc] at hrun
  exact ⟨1 + n, log2, (Runs.single rfl hstep).trans hrun⟩

theorem Absorbs.single {engine : Engine} {item : Queued} {s t : State}
    (hstep : ∀ queue log, ∃ log', engine.step item { s with queue, log } =
      (.ok (), { t with queue, log := log' })) : engine.Absorbs [item] s t :=
  Absorbs.step [] hstep (Absorbs.nil engine t)

/-! ## Events, one by one -/

/-- The events are absorbed one after the other and lead from `s` to `t`. -/
def Feeds (engine : Engine) : List Event → State → State → Prop
  | [], s, t => s = t
  | event :: events, s, t => ∃ s', engine.Absorbs [.event event] s s' ∧ Feeds engine events s' t

theorem Feeds.nil (engine : Engine) (s : State) : engine.Feeds [] s s := rfl

theorem Feeds.cons {engine : Engine} {event : Event} {events : List Event} {s t u : State}
    (h1 : engine.Absorbs [.event event] s t) (h2 : engine.Feeds events t u) :
    engine.Feeds (event :: events) s u :=
  ⟨t, h1, h2⟩

theorem Feeds.append {engine : Engine} {first second : List Event} {s t u : State}
    (h1 : engine.Feeds first s t) (h2 : engine.Feeds second t u) :
    engine.Feeds (first ++ second) s u := by
  induction first generalizing s with
  | nil =>
    have hst : s = t := h1
    exact hst ▸ h2
  | cons event first ih =>
    obtain ⟨s', hevent, hrest⟩ := h1
    exact ⟨s', hevent, ih hrest⟩

/-- Events that are absorbed one by one may stand in the queue all at once. -/
theorem Feeds.absorbs {engine : Engine} {events : List Event} {s t : State}
    (h : engine.Feeds events s t) : engine.Absorbs (events.map .event) s t := by
  induction events generalizing s with
  | nil =>
    have hst : s = t := h
    exact hst ▸ Absorbs.nil engine s
  | cons event events ih =>
    obtain ⟨s', hevent, hrest⟩ := h
    exact Absorbs.append hevent (ih hrest)

theorem submitAll_cons_of_ok {engine : Engine} {steps : Nat} {event : Event} {events : List Event}
    {s t : State} (hs : s.halted = false)
    (h : engine.drain steps { s with queue := s.queue.pushBack event } = some (.ok (), t)) :
    engine.submitAll steps (event :: events) s = engine.submitAll steps events t := by
  have hsubmit : engine.submit steps event s = some (.ok (), t) := by
    unfold submit
    rw [if_neg (by simp [hs]), h]
  rw [submitAll, hsubmit]

theorem submitAll_append (engine : Engine) (steps : Nat) (front behind : List Event) (s : State) :
    engine.submitAll steps (front ++ behind) s =
      match engine.submitAll steps front s with
      | some (.ok (), t) => engine.submitAll steps behind t
      | answer => answer := by
  induction front generalizing s with
  | nil => rfl
  | cons event front ih =>
    simp only [List.cons_append, submitAll]
    rcases engine.submit steps event s with _ | ⟨fault | ⟨⟩, t⟩
    · rfl
    · rfl
    · exact ih t

theorem Feeds.submitAll {engine : Engine} {events : List Event} {s t : State}
    (h : engine.Feeds events s t) (hs : s.halted = false) (log : List LogEntry) :
    ∃ enough log', ∀ steps, enough ≤ steps →
      engine.submitAll steps events { s with queue := [], log } =
        some (.ok (), { t with queue := [], log := log' }) := by
  induction events generalizing s log with
  | nil =>
    have hst : s = t := h
    exact ⟨0, log, fun steps _ => hst ▸ rfl⟩
  | cons event events ih =>
    obtain ⟨s', hevent, hrest⟩ := h
    obtain ⟨n, log1, hrun⟩ := hevent [] log
    have hs' : s'.halted = false := hrun.halted.trans hs
    -- Every event gets the same number of steps, so it has to do for the longest run.
    obtain ⟨enough, log2, hall⟩ := ih hrest hs' log1
    refine ⟨max n enough, log2, ?_⟩
    intro steps hsteps
    have hdrain := hrun.drain_of_nil rfl (m := steps) (by omega)
    have hfirst : engine.submitAll steps (event :: events) { s with queue := [], log } =
        engine.submitAll steps events { s' with queue := [], log := log1 } :=
      submitAll_cons_of_ok hs hdrain
    rw [hfirst]
    exact hall steps (by omega)

end Engine
end TreeStream
