import TreeStream.Engine.Stream

/-!
# Runs of the dispatch loop

The loop is given a number of steps and may run out of them.  Here its runs are counted exactly, so
that they can be cut and joined, and what the loop answers follows from them.

* `Engine.route_element`, `Engine.complete_subLevel`, `Engine.deliver_done` and their like say what
  a step does in each of its cases.
* `Engine.useText_continues` lists the ways in which a directive goes on after its argument, with
  what it shows, and `Engine.useText_goesOn` without.
* `Engine.Runs n s t`: from `s` the loop works on exactly `n` items and arrives at `t`.
* `Engine.runs_of_drain` and `Engine.Runs.drain` go from the loop to its runs and back.
* `Engine.drain_mono`: an answer does not depend on the number of steps, as long as there is one.
* `Engine.Runs.preserves`: what every step keeps, a run keeps.
-/

namespace TreeStream
set_option autoImplicit false

/-- Letting an element through takes what is left of the body out of the queue. -/
theorem State.letThrough_opened {s : State} {queue behind : Queue} {markers : Markers}
    (hqueue : s.queue = queue ++ behind) (hmarkers : s.markers = .opened behind.length :: markers) :
    s.letThrough =
      { s with queue := behind, markers := .claimed :: markers }.setOnEnd (.resume queue) := by
  have hlength : s.queue.length - behind.length = queue.length := by
    rw [hqueue, List.length_append]
    omega
  simp only [State.letThrough, hmarkers, Markers.claim, hlength, Queue.takeFront]
  rw [hqueue, List.take_left, List.drop_left]

theorem State.emit_emit (s : State) (first second : Event) :
    (s.emit first).emit second = { s with output := s.output ++ [first, second] } := by
  simp [State.emit]

/-- What a directive shows that has nothing more to wait for. -/
def TextUse.Shows (use : TextUse) (events : List Event) : Prop :=
  match use with
  | .eval => False
  | .cond start => ∃ content, events = [start, .text content]
  | .each start => ∃ content, events = [start, .text content]
  | .defer => False
  | .substitute _ => ∃ name content, events = [.start name, .text content]
  | .report tag => ∃ value, events = [.attr tag value]
  | .reportValue tag => ∃ value, events = [.attr tag value]

/-! ## What a capture makes of an event -/

namespace Capture

variable {event : Event} {depth : Int} {discard : Bool} {buffer : List Event} {use : BodyUse}

theorem feed_subLevel_done (hdepth : depth + shift event < 0) :
    (subLevel depth discard buffer use).feed event =
      (.subLevel (depth + shift event) discard buffer use, some event) := by
  simp [feed, hdepth]

theorem feed_subLevel_pending (hdepth : 0 ≤ depth + shift event) :
    (subLevel depth discard buffer use).feed event = (.subLevel (depth + shift event) discard
      (if discard then buffer else buffer ++ [event]) use, none) := by
  have hnot : ¬ depth + shift event < 0 := by omega
  simp [feed, hnot]

end Capture

/-! ## The end of a deferred body -/

theorem Callback.run_bodyDone_dropped {s : State} {overlay : Overlay} {n : Nat} {outer : Markers}
    (hmarkers : s.markers = .opened n :: outer) :
    (Callback.bodyDone overlay true).run s =
      { s.release overlay with markers := outer }.discardBody := by
  simp [Callback.run, State.release, Markers.close, hmarkers]

theorem Callback.run_bodyDone_beside {s : State} {overlay : Overlay} {marker : Marker}
    {outer : Markers} (hmarkers : s.markers = marker :: outer) :
    (Callback.bodyDone overlay false).run s = { s.release overlay with markers := outer } := by
  simp [Callback.run, State.release, Markers.close, hmarkers]

theorem Callback.run_bodyDone_claimed {s : State} {overlay : Overlay} {selectedStart : Bool}
    {outer : Markers} (hmarkers : s.markers = .claimed :: outer) :
    (Callback.bodyDone overlay selectedStart).run s =
      { s.release overlay with markers := outer } := by
  simp [Callback.run, State.release, Markers.close, hmarkers]

namespace Engine

/-! ## What a step does, case by case -/

section Cases

variable {engine : Engine} {s t : State}

theorem route_start (engine : Engine) (name : String) (s : State) :
    engine.route (.start name) s =
      let s := { s with levels := s.levels.push name }
      match engine.options.classify name with
      | .directive directive => (.ok (), directive.enter (.start name) s)
      | .affect => (.ok (), s.captureText (.substitute name))
      | .unknown =>
        (.ok (), (s.tell (.misuse (.unknownDirective name))).forward [name, "*"] (.start name))
      | .element => (.ok (), s.forward [name, "*"] (.start name)) := rfl

theorem route_close (engine : Engine) (s : State) :
    engine.route .close s =
      match s.shiftLevel with
      | .error fault => (.error fault, s)
      | .ok (.suppress, s) => (.ok (), s)
      | .ok (.forward, s) => (.ok (), s.forward ["END"] .close) := rfl

theorem route_directive {name : String} {directive : Directive}
    (h : engine.options.classify name = .directive directive) :
    engine.route (.start name) s =
      (.ok (), directive.enter (.start name) { s with levels := s.levels.push name }) := by
  rw [route_start, h]

theorem route_affect {name : String} (h : engine.options.classify name = .affect) :
    engine.route (.start name) s =
      (.ok (), { s with levels := s.levels.push name }.captureText (.substitute name)) := by
  rw [route_start, h]

theorem route_unknown {name : String} (h : engine.options.classify name = .unknown) :
    engine.route (.start name) s =
      (.ok (), ({ s with levels := s.levels.push name }.tell
        (.misuse (.unknownDirective name))).forward [name, "*"] (.start name)) := by
  rw [route_start, h]

theorem route_element {name : String} (h : engine.options.classify name = .element) :
    engine.route (.start name) s =
      (.ok (), { s with levels := s.levels.push name }.forward [name, "*"] (.start name)) := by
  rw [route_start, h]

theorem route_close_error {fault : Fault} (h : s.shiftLevel = .error fault) :
    engine.route .close s = (.error fault, s) := by
  rw [route_close, h]

theorem route_close_suppress (h : s.shiftLevel = .ok (.suppress, t)) :
    engine.route .close s = (.ok (), t) := by
  rw [route_close, h]

theorem route_close_forward (h : s.shiftLevel = .ok (.forward, t)) :
    engine.route .close s = (.ok (), t.forward ["END"] .close) := by
  rw [route_close, h]

theorem complete_subLevel_error {depth : Int} {discard : Bool} {buffer : List Event} {use : BodyUse}
    {boundary : Event} {fault : Fault} (h : s.shiftLevel = .error fault) :
    engine.complete (.subLevel depth discard buffer use) boundary s = (.error fault, s) := by
  simp [complete, h]

theorem complete_subLevel {depth : Int} {discard : Bool} {buffer : List Event} {use : BodyUse}
    {boundary : Event} {close : LevelClose} (h : s.shiftLevel = .ok (close, t)) :
    engine.complete (.subLevel depth discard buffer use) boundary s =
      (.ok (), use.run buffer t) := by
  simp [complete, h]

theorem deliver_of_nil {event : Event} (h : s.captures = []) :
    engine.deliver event s = engine.route event s := by
  simp [deliver, h]

theorem deliver_pending {event : Event} {capture capture' : Capture} {captures : List Capture}
    (h : s.captures = capture :: captures) (hfeed : capture.feed event = (capture', none)) :
    engine.deliver event s = (.ok (), { s with captures := capture' :: captures }) := by
  simp [deliver, h, hfeed]

theorem deliver_done {event boundary : Event} {capture capture' : Capture}
    {captures : List Capture} (h : s.captures = capture :: captures)
    (hfeed : capture.feed event = (capture', some boundary)) :
    engine.deliver event s = engine.complete capture' boundary { s with captures } := by
  simp [deliver, h, hfeed]

end Cases

/-! ## How a directive goes on after its argument -/

def Evaluated (engine : Engine) (before after : Scope) : Prop :=
  after = before ∨ ∃ source, after = (before.evaluate engine.evaluator source).2

theorem evaluate_evaluated (engine : Engine) (s : State) (source : String) :
    ∃ scope log, engine.Evaluated s.scope scope ∧
      (s.evaluate engine.evaluator source).2 = { s with scope, log } := by
  unfold State.evaluate
  rcases hvalue : s.scope.evaluate engine.evaluator source with ⟨error | value, scope⟩
  · exact ⟨scope, _, .inr ⟨source, by rw [hvalue]⟩, rfl⟩
  · exact ⟨scope, _, .inr ⟨source, by rw [hvalue]⟩, rfl⟩

/-- A directive that has its argument is done, or lets its close vanish, or shows texts at most and
drops the rest of its element, or keeps that for a loop or for later. -/
inductive Continues (engine : Engine) (use : TextUse) (s : State) : State → Prop
  | done (scope : Scope) (log : List LogEntry) (shown : List Event)
      (hscope : engine.Evaluated s.scope scope) (hshown : use.Shows shown) :
      Continues engine use s { s with scope, log, output := s.output ++ shown }
  | vanish (scope : Scope) (log : List LogEntry) (hscope : engine.Evaluated s.scope scope) :
      Continues engine use s ({ s with scope, log }.setOnEnd .vanish)
  | dropped (scope : Scope) (log : List LogEntry) (contents : List String)
      (hscope : engine.Evaluated s.scope scope) : Continues engine use s
        ({ s with scope, log, output := s.output ++ contents.map Event.text }.discardBody)
  | loop (scope : Scope) (log : List LogEntry) (item : String) (index : Option String)
      (items : List Value) (hscope : engine.Evaluated s.scope scope) :
      Continues engine use s ({ s with scope, log }.captureBody false (.loop item index items))
  | register (selector : String) (binding : Option String) :
      Continues engine use s (s.captureBody false (.register selector binding))

theorem Continues.discard {engine : Engine} {use : TextUse} {s : State} (scope : Scope)
    (log : List LogEntry) (hscope : engine.Evaluated s.scope scope) :
    engine.Continues use s ({ s with scope, log }.discardBody) := by
  have hdropped : engine.Continues use s
      ({ s with scope, log, output := s.output ++ [].map Event.text }.discardBody) :=
    dropped scope log [] hscope
  rwa [List.map_nil, List.append_nil] at hdropped

theorem useText_continues (engine : Engine) (use : TextUse) (text : String) (s : State) :
    engine.Continues use s (engine.useText use text s) := by
  cases use with
  | eval =>
    obtain ⟨scope, log, hscope, hstate⟩ := evaluate_evaluated engine s text
    simp only [useText, hstate]
    exact .discard scope log hscope
  | cond start =>
    obtain ⟨scope, log, hscope, hstate⟩ := evaluate_evaluated engine s text
    unfold useText
    rcases hvalue : s.evaluate engine.evaluator text with ⟨error | value, t⟩ <;>
      rw [hvalue] at hstate <;> subst hstate <;> dsimp only
    · rw [State.emit_emit]
      exact .done scope log _ hscope ⟨_, rfl⟩
    · cases value.isTruthy with
      | true => exact .vanish scope log hscope
      | false => exact .discard scope log hscope
  | each start =>
    unfold useText
    rcases EachArgument.parse? text with _ | argument
    · dsimp only
      rw [State.emit_emit]
      exact .done s.scope _ _ (.inl rfl) ⟨_, rfl⟩
    · obtain ⟨scope, log, hscope, hstate⟩ := evaluate_evaluated engine s argument.source
      dsimp only
      rcases hvalue : s.evaluate engine.evaluator argument.source with ⟨error | value, t⟩ <;>
        rw [hvalue] at hstate <;> subst hstate
      · exact .dropped scope log [error.inline] hscope
      · cases value with
        | list items => exact .loop scope log argument.item argument.index items hscope
        | _ => exact .discard scope _ hscope
  | defer =>
    unfold useText
    dsimp only
    cases (Selection.parse text).selector with
    | none => exact .discard s.scope _ (.inl rfl)
    | some selector => exact .register selector (Selection.parse text).binding
  | substitute name =>
    obtain ⟨scope, log, hscope, hstate⟩ := evaluate_evaluated engine s text
    unfold useText
    dsimp only
    rw [hstate]
    split
    · exact .dropped scope log [_] hscope
    · rw [State.emit_emit]
      exact .done scope log _ hscope ⟨_, _, rfl⟩
  | report tag => exact .done s.scope s.log _ (.inl rfl) ⟨text, rfl⟩
  | reportValue tag =>
    obtain ⟨scope, log, hscope, hstate⟩ := evaluate_evaluated engine s text
    simp only [useText, hstate]
    exact .done scope log _ hscope ⟨_, rfl⟩

/-- Without what it shows: a directive that has its argument is done, or lets its close vanish, or
waits for the rest of its element: to drop it, or to keep it for a loop or for later. -/
inductive GoesOn (engine : Engine) (s : State) : State → Prop
  | done (scope : Scope) (output : List Event) (log : List LogEntry)
      (hscope : engine.Evaluated s.scope scope) : GoesOn engine s { s with scope, output, log }
  | vanish (scope : Scope) (log : List LogEntry) (hscope : engine.Evaluated s.scope scope) :
      GoesOn engine s ({ s with scope, log }.setOnEnd .vanish)
  | dropped (scope : Scope) (output : List Event) (log : List LogEntry)
      (hscope : engine.Evaluated s.scope scope) :
      GoesOn engine s ({ s with scope, output, log }.captureBody true .drop)
  | loop (scope : Scope) (log : List LogEntry) (item : String) (index : Option String)
      (items : List Value) (hscope : engine.Evaluated s.scope scope) :
      GoesOn engine s ({ s with scope, log }.captureBody false (.loop item index items))
  | register (selector : String) (binding : Option String) :
      GoesOn engine s (s.captureBody false (.register selector binding))

theorem useText_goesOn (engine : Engine) (use : TextUse) (text : String) (s : State) :
    engine.GoesOn s (engine.useText use text s) := by
  have hcontinues := useText_continues engine use text s
  generalize engine.useText use text s = t at hcontinues ⊢
  cases hcontinues with
  | done scope log shown hscope hshown => exact .done scope _ log hscope
  | vanish scope log hscope => exact .vanish scope log hscope
  | dropped scope log contents hscope => exact .dropped scope _ log hscope
  | loop scope log item index items hscope => exact .loop scope log item index items hscope
  | register selector binding => exact .register selector binding

theorem useText_queue (engine : Engine) (use : TextUse) (text : String) (s : State) :
    (engine.useText use text s).queue = s.queue := by
  have hgoes := useText_goesOn engine use text s
  generalize engine.useText use text s = t at hgoes ⊢
  cases hgoes <;> rfl

/-! ## The loop, one item at a time -/

theorem drain_of_nil (engine : Engine) (steps : Nat) (s : State) (h : s.queue = []) :
    engine.drain steps s = some (.ok (), s) := by
  unfold drain
  simp [h]

theorem drain_zero_of_cons (engine : Engine) (s : State) (item : Queued) (queue : Queue)
    (h : s.queue = item :: queue) : engine.drain 0 s = none := by
  unfold drain
  simp [h]

theorem drain_succ_of_ok (engine : Engine) (steps : Nat) (s t : State) (item : Queued)
    (queue : Queue) (h : s.queue = item :: queue)
    (hstep : engine.step item { s with queue } = (.ok (), t)) :
    engine.drain (steps + 1) s = engine.drain steps t := by
  rw [drain]
  simp [h, hstep]

theorem drain_succ_of_error (engine : Engine) (steps : Nat) (s t : State) (item : Queued)
    (queue : Queue) (fault : Fault) (h : s.queue = item :: queue)
    (hstep : engine.step item { s with queue } = (.error fault, t)) :
    engine.drain (steps + 1) s = some (.error fault, t) := by
  rw [drain]
  simp [h, hstep]

theorem drain_mono (engine : Engine) {n m : Nat} (hnm : n ≤ m) {s : State}
    {answer : Except Fault Unit × State} (h : engine.drain n s = some answer) :
    engine.drain m s = some answer := by
  fun_induction drain engine n s generalizing m with
  | case1 n s hqueue =>
    rw [drain_of_nil engine m s hqueue]
    exact h
  | case2 s item queue hqueue => simp at h
  | case3 s item queue hqueue n fault t hstep =>
    obtain ⟨m, rfl⟩ : ∃ k, m = k + 1 := ⟨m - 1, by omega⟩
    rw [drain_succ_of_error engine m s t item queue fault hqueue hstep]
    exact h
  | case4 s item queue hqueue n t hstep ih =>
    obtain ⟨m, rfl⟩ : ∃ k, m = k + 1 := ⟨m - 1, by omega⟩
    rw [drain_succ_of_ok engine m s t item queue hqueue hstep]
    exact ih (by omega) h

/-! ## Exact runs -/

/-- `engine.Runs n s t`: from `s` the loop works on exactly `n` items, none of them with a fault,
and arrives at `t`. -/
def Runs (engine : Engine) : Nat → State → State → Prop
  | 0, s, t => s = t
  | n + 1, s, t => ∃ item queue s', s.queue = item :: queue ∧
      engine.step item { s with queue } = (.ok (), s') ∧ Runs engine n s' t

theorem Runs.single {engine : Engine} {s t : State} {item : Queued} {queue : Queue}
    (hq : s.queue = item :: queue) (hstep : engine.step item { s with queue } = (.ok (), t)) :
    engine.Runs 1 s t :=
  ⟨item, queue, t, hq, hstep, rfl⟩

theorem Runs.trans {engine : Engine} {m n : Nat} {s t u : State} (h1 : engine.Runs m s t)
    (h2 : engine.Runs n t u) : engine.Runs (m + n) s u := by
  induction m generalizing s with
  | zero =>
    have hst : s = t := h1
    subst hst
    simpa using h2
  | succ m ih =>
    obtain ⟨item, queue, s', hq, hstep, hrest⟩ := h1
    have hmn : m + 1 + n = (m + n) + 1 := by omega
    rw [hmn]
    exact ⟨item, queue, s', hq, hstep, ih hrest⟩

theorem Runs.drain {engine : Engine} {n : Nat} {s t : State} (h : engine.Runs n s t) (m : Nat) :
    engine.drain (n + m) s = engine.drain m t := by
  induction n generalizing s with
  | zero =>
    have hst : s = t := h
    rw [hst, Nat.zero_add]
  | succ n ih =>
    obtain ⟨item, queue, s', hq, hstep, hrest⟩ := h
    have hnm : n + 1 + m = (n + m) + 1 := by omega
    rw [hnm, drain_succ_of_ok engine (n + m) s s' item queue hq hstep]
    exact ih hrest

theorem runs_of_drain {engine : Engine} {n : Nat} {s t : State}
    (h : engine.drain n s = some (.ok (), t)) : ∃ k, engine.Runs k s t ∧ t.queue = [] := by
  fun_induction Engine.drain engine n s with
  | case1 n s hqueue =>
    have hst : s = t := by simpa using h
    exact ⟨0, hst, hst ▸ hqueue⟩
  | case2 s item queue hqueue => simp at h
  | case3 s item queue hqueue n fault s' hstep => simp at h
  | case4 s item queue hqueue n s' hstep ih =>
    obtain ⟨k, hrun, ht⟩ := ih h
    exact ⟨k + 1, ⟨item, queue, s', hqueue, hstep, hrun⟩, ht⟩

theorem Runs.drain_of_nil {engine : Engine} {n : Nat} {s t : State} (h : engine.Runs n s t)
    (ht : t.queue = []) {m : Nat} (hm : n ≤ m) : engine.drain m s = some (.ok (), t) := by
  have hnm : m = n + (m - n) := by omega
  rw [hnm, h.drain, Engine.drain_of_nil engine _ t ht]

/-- With no more steps than the run has taken so far, the loop has no answer. -/
theorem Runs.drain_eq_none {engine : Engine} {n steps : Nat} {s t : State}
    (h : engine.Runs n s t) (ht : t.queue ≠ []) (hsteps : steps ≤ n) :
    engine.drain steps s = none := by
  obtain ⟨item, queue, hqueue⟩ := List.exists_cons_of_ne_nil ht
  have hstuck : engine.drain n s = none :=
    (h.drain 0).trans (drain_zero_of_cons engine t item queue hqueue)
  cases hanswer : engine.drain steps s with
  | none => rfl
  | some answer => simp [drain_mono engine hsteps hanswer] at hstuck

theorem Runs.preserves {engine : Engine} {P : State → Prop}
    (hP : ∀ s item queue t, P s → s.queue = item :: queue →
      engine.step item { s with queue } = (.ok (), t) → P t)
    {n : Nat} {s t : State} (h : engine.Runs n s t) (hs : P s) : P t := by
  induction n generalizing s with
  | zero =>
    have hst : s = t := h
    exact hst ▸ hs
  | succ n ih =>
    obtain ⟨item, queue, s', hq, hstep, hrest⟩ := h
    exact ih hrest (hP s item queue s' hs hq hstep)

theorem drain_of_submit {engine : Engine} {steps : Nat} {event : Event} {s t : State}
    (h : engine.submit steps event s = some (.ok (), t)) :
    engine.drain steps { s with queue := s.queue.pushBack event } = some (.ok (), t) := by
  unfold submit at h
  by_cases hs : s.halted = true
  · rw [if_pos hs] at h
    simp at h
  · rw [if_neg hs] at h
    rcases hdrain : engine.drain steps { s with queue := s.queue.pushBack event } with
      _ | ⟨fault | ⟨⟩, u⟩ <;> rw [hdrain] at h <;> simp at h
    rw [h]

end Engine
end TreeStream
