import TreeStream.Proofs.Runs

/-!
# Work behind other work

Events can be put into the queue behind others, or wait outside until the queue has been worked off.
Nothing that a step does depends on what is pending behind the work it is given: open markers record
longer queues, and nothing else differs.

* `Ahead tail s t`: `t` is `s` with the items `tail` behind all others.
* `Engine.step_ahead`: a step keeps that relation, and so does a run (`Engine.Runs.ahead`).
* `Engine.ends_append_iff`: the loop on one queue behind another does what it does on the second
  after it is done with the first.
-/

namespace TreeStream
set_option autoImplicit false

/-- The marker of a body behind whose element more items are pending. -/
def Marker.shift (more : Nat) : Marker → Marker
  | .opened queueLength => .opened (queueLength + more)
  | .claimed => .claimed

def Markers.NoneOpen (markers : Markers) : Prop :=
  ∀ marker ∈ markers, marker = .claimed

theorem Markers.NoneOpen.map_shift {markers : Markers} (h : markers.NoneOpen) (more : Nat) :
    markers.map (Marker.shift more) = markers := by
  induction markers with
  | nil => rfl
  | cons marker outer ih =>
    obtain ⟨rfl, houter⟩ := List.forall_mem_cons.1 h
    rw [List.map_cons, ih houter]
    rfl

/-- A log entry without the one detail that depends on everything pending, the length of the
queue. -/
def LogEntry.unsized : LogEntry → LogEntry
  | .snapshot sizes => .snapshot { sizes with queueLength := 0 }
  | entry => entry

def State.unsized (s : State) : State :=
  { s with log := s.log.map LogEntry.unsized }

/-- `t` is `s` with the items `tail` behind all others. -/
structure Ahead (tail : Queue) (s t : State) : Prop where
  scope : t.scope = s.scope
  queue : t.queue = s.queue ++ tail
  levels : t.levels = s.levels
  captures : t.captures = s.captures
  markers : t.markers = s.markers.map (Marker.shift tail.length)
  output : t.output = s.output
  log : t.log.map LogEntry.unsized = s.log.map LogEntry.unsized
  halted : t.halted = s.halted

namespace Ahead

variable {tail : Queue} {s t : State}

/-! ## The primitives -/

theorem emit (h : Ahead tail s t) (event : Event) : Ahead tail (s.emit event) (t.emit event) :=
  { h with output := by simp [State.emit, h.output] }

theorem tell (h : Ahead tail s t) {entry entry' : LogEntry}
    (hentry : entry'.unsized = entry.unsized) : Ahead tail (s.tell entry) (t.tell entry') :=
  { h with log := by simp [State.tell, h.log, hentry] }

theorem withScope (h : Ahead tail s t) (scope : Scope) :
    Ahead tail { s with scope } { t with scope } :=
  { h with scope := rfl }

theorem withLevels (h : Ahead tail s t) (levels : Levels) :
    Ahead tail { s with levels } { t with levels } :=
  { h with levels := rfl }

theorem withCaptures (h : Ahead tail s t) (captures : List Capture) :
    Ahead tail { s with captures } { t with captures } :=
  { h with captures := rfl }

theorem prepend (h : Ahead tail s t) (items : List Queued) :
    Ahead tail { s with queue := s.queue.prepend items }
      { t with queue := t.queue.prepend items } :=
  { h with queue := by simp [Queue.prepend, h.queue] }

theorem pushFront (h : Ahead tail s t) (event : Event) :
    Ahead tail { s with queue := s.queue.pushFront event }
      { t with queue := t.queue.pushFront event } :=
  { h with queue := by simp [Queue.pushFront, h.queue] }

theorem setOnEnd (h : Ahead tail s t) (hook : EndHook) :
    Ahead tail (s.setOnEnd hook) (t.setOnEnd hook) :=
  { h with levels := by simp [State.setOnEnd, h.levels] }

theorem captureText (h : Ahead tail s t) (use : TextUse) :
    Ahead tail (s.captureText use) (t.captureText use) :=
  { h with captures := by simp [State.captureText, h.captures] }

theorem captureBody (h : Ahead tail s t) (discard : Bool) (use : BodyUse) :
    Ahead tail (s.captureBody discard use) (t.captureBody discard use) :=
  { h with captures := by simp [State.captureBody, h.captures] }

theorem discardBody (h : Ahead tail s t) : Ahead tail s.discardBody t.discardBody :=
  h.captureBody true .drop

theorem playBuffer (h : Ahead tail s t) (events : List Event) (callback : Callback) :
    Ahead tail (s.playBuffer events callback) (t.playBuffer events callback) :=
  { h with queue := by simp [State.playBuffer, Queue.replay, h.queue] }

theorem install (h : Ahead tail s t) (bindings : List (String × Value)) :
    (t.install bindings).1 = (s.install bindings).1 ∧
      Ahead tail (s.install bindings).2 (t.install bindings).2 := by
  constructor
  · simp [State.install, h.scope]
  · exact { h with scope := by simp [State.install, h.scope] }

theorem release (h : Ahead tail s t) (overlay : Overlay) :
    Ahead tail (s.release overlay) (t.release overlay) :=
  { h with scope := by simp [State.release, h.scope] }

theorem evaluate (h : Ahead tail s t) (evaluator : Evaluator) (source : String) :
    (t.evaluate evaluator source).1 = (s.evaluate evaluator source).1 ∧
      Ahead tail (s.evaluate evaluator source).2 (t.evaluate evaluator source).2 := by
  unfold State.evaluate
  rw [h.scope]
  rcases s.scope.evaluate evaluator source with ⟨error | value, scope⟩
  · exact ⟨rfl, (h.withScope scope).tell rfl⟩
  · exact ⟨rfl, h.withScope scope⟩

/-- A body begins: the marker records everything behind it, the items `tail` included. -/
theorem openMarker (h : Ahead tail s t) :
    Ahead tail { s with markers := s.markers.push s.queue.length }
      { t with markers := t.markers.push t.queue.length } :=
  { h with markers := by simp [Markers.push, h.markers, h.queue, Marker.shift] }

theorem closeMarker (h : Ahead tail s t) :
    t.markers.close.1 = s.markers.close.1.map (Marker.shift tail.length) ∧
      Ahead tail { s with markers := s.markers.close.2 }
        { t with markers := t.markers.close.2 } := by
  constructor
  · simp [Markers.close, h.markers, List.head?_map]
  · exact { h with markers := by simp [Markers.close, h.markers] }

theorem shiftLevel_error (h : Ahead tail s t) {fault : Fault} (hs : s.shiftLevel = .error fault) :
    t.shiftLevel = .error fault := by
  unfold State.shiftLevel at hs ⊢
  rw [h.levels]
  rcases hpop : s.levels.pop? with _ | ⟨level, levels⟩
  · simpa [hpop] using hs
  · rcases hhook : level.onEnd with _ | hook <;> simp [hpop, hhook] at hs

/-- Closing a level has the same outcome, and the hook puts its items in front of everything. -/
theorem shiftLevel_ok (h : Ahead tail s t) {close : LevelClose} {s' : State}
    (hs : s.shiftLevel = .ok (close, s')) :
    ∃ t', t.shiftLevel = .ok (close, t') ∧ Ahead tail s' t' := by
  unfold State.shiftLevel at hs ⊢
  rw [h.levels]
  rcases hpop : s.levels.pop? with _ | ⟨level, levels⟩
  · simp [hpop] at hs
  · rcases hhook : level.onEnd with _ | (_ | stash | ⟨event, close'⟩) <;>
      simp only [hpop, Level.takeOnEnd_fst, hhook, EndHook.run, Except.ok.injEq,
        Prod.mk.injEq] at hs ⊢ <;>
      obtain ⟨rfl, rfl⟩ := hs
    · exact ⟨_, ⟨rfl, rfl⟩, h.withLevels levels⟩
    · exact ⟨_, ⟨rfl, rfl⟩, h.withLevels levels⟩
    · exact ⟨_, ⟨rfl, rfl⟩, (h.withLevels levels).prepend stash⟩
    · exact ⟨_, ⟨rfl, rfl⟩, (h.withLevels levels).emit event⟩

/-! ## What was suspended -/

theorem play (h : Ahead tail s t) (loop : Loop) : Ahead tail (loop.play s) (loop.play t) := by
  unfold Loop.play
  cases loop.left with
  | nil => exact h
  | cons item left =>
    have hinstall := h.install ((loop.item, item) ::
      loop.index.toList.map fun name => (name, Value.num (Float.ofNat loop.round)))
    simp only [hinstall.1]
    exact hinstall.2.playBuffer _ _

theorem handle (h : Ahead tail s t) (handler : Handler) (event : Event) :
    Ahead tail (handler.run event s) (handler.run event t) := by
  cases handler with
  | deferred body binding =>
    have hinstall := h.openMarker.install (("_", event.selected) ::
      binding.toList.map fun name => (name, event.selected))
    simp only [Handler.run, hinstall.1]
    exact hinstall.2.playBuffer _ _
  | announce first => exact (h.emit first).emit event

theorem callback (h : Ahead tail s t) (callback : Callback) :
    Ahead tail (callback.run s) (callback.run t) := by
  cases callback with
  | roundDone overlay loop => exact (h.release overlay).play loop
  | bodyDone overlay selectedStart =>
    have hclose := (h.release overlay).closeMarker
    simp only [Callback.run, hclose.1]
    rcases (s.release overlay).markers.close.1 with _ | (queueLength | _)
    · exact hclose.2
    · cases selectedStart with
      | false => exact hclose.2
      | true => exact hclose.2.discardBody
    · exact hclose.2
  | announce event => exact h.emit event

/-- Letting through cuts off the same items: the queue and the recorded length are longer by the
same number. -/
theorem letThrough (h : Ahead tail s t) : Ahead tail s.letThrough t.letThrough := by
  unfold State.letThrough
  rw [h.markers, h.queue]
  rcases s.markers with _ | ⟨queueLength | _, outer⟩
  · exact h.tell rfl
  · have hcount : (s.queue ++ tail).length - (queueLength + tail.length) =
        s.queue.length - queueLength := by
      rw [List.length_append]
      omega
    have hle : s.queue.length - queueLength ≤ s.queue.length := Nat.sub_le _ _
    simp only [List.map_cons, Marker.shift, Markers.claim, Queue.takeFront, hcount,
      List.take_append_of_le_length hle, List.drop_append_of_le_length hle]
    refine Ahead.setOnEnd ?_ _
    exact { h with queue := rfl, markers := rfl }
  · exact h.tell rfl

theorem useBody (h : Ahead tail s t) (use : BodyUse) (body : List Event) :
    Ahead tail (use.run body s) (use.run body t) := by
  cases use with
  | drop => exact h
  | loop item index items => exact h.play _
  | register selector binding =>
    exact { h with levels := by simp [BodyUse.run, h.levels] }
  | through => exact h.letThrough
  | report tag => exact { h with output := by simp [BodyUse.run, h.output] }

theorem useText (h : Ahead tail s t) (engine : Engine) (use : TextUse) (text : String) :
    Ahead tail (engine.useText use text s) (engine.useText use text t) := by
  cases use with
  | eval => exact (h.evaluate engine.evaluator text).2.discardBody
  | cond start =>
    have hvalue := h.evaluate engine.evaluator text
    unfold Engine.useText
    rcases hs : s.evaluate engine.evaluator text with ⟨error | value, s'⟩ <;>
      rcases ht : t.evaluate engine.evaluator text with ⟨outcome, t'⟩ <;>
      rw [hs, ht] at hvalue <;> obtain ⟨rfl, hahead⟩ := hvalue
    · exact (hahead.emit start).emit _
    · dsimp only
      cases value.isTruthy with
      | true => exact hahead.setOnEnd .vanish
      | false => exact hahead.discardBody
  | each start =>
    unfold Engine.useText
    rcases EachArgument.parse? text with _ | argument
    · exact ((h.tell rfl).emit start).emit _
    · have hvalue := h.evaluate engine.evaluator argument.source
      dsimp only
      rcases hs : s.evaluate engine.evaluator argument.source with ⟨error | value, s'⟩ <;>
        rcases ht : t.evaluate engine.evaluator argument.source with ⟨outcome, t'⟩ <;>
        rw [hs, ht] at hvalue <;> obtain ⟨rfl, hahead⟩ := hvalue
      · exact (hahead.emit _).discardBody
      · cases value with
        | list items => exact hahead.captureBody false _
        | null => exact (hahead.tell rfl).discardBody
        | bool b => exact (hahead.tell rfl).discardBody
        | num x => exact (hahead.tell rfl).discardBody
        | str text => exact (hahead.tell rfl).discardBody
        | obj entries => exact (hahead.tell rfl).discardBody
  | defer =>
    unfold Engine.useText
    dsimp only
    rcases (Selection.parse text).selector with _ | selector
    · exact (h.tell rfl).discardBody
    · exact h.captureBody false _
  | substitute name =>
    have hvalue := h.evaluate engine.evaluator text
    simp only [Engine.useText, hvalue.1]
    split
    · exact (hvalue.2.emit _).discardBody
    · exact (hvalue.2.emit _).emit _
  | report tag => exact h.emit _
  | reportValue tag =>
    have hvalue := h.evaluate engine.evaluator text
    simp only [Engine.useText, hvalue.1]
    exact hvalue.2.emit _

end Ahead

/-! ## Steps and runs -/

namespace Engine

theorem enter_ahead {tail : Queue} {s t : State} (h : Ahead tail s t) (directive : Directive)
    (start : Event) : Ahead tail (directive.enter start s) (directive.enter start t) := by
  cases directive with
  | eval => exact h.captureText _
  | cond => exact h.captureText _
  | each => exact h.captureText _
  | defer => exact h.captureText _
  | through => exact h.captureBody true _
  | debug =>
    have hsizes : (LogEntry.snapshot t.snapshot).unsized =
        (LogEntry.snapshot s.snapshot).unsized := by
      simp [LogEntry.unsized, State.snapshot, h.levels, h.captures, h.markers, h.scope]
    exact (h.tell hsizes).discardBody

theorem forward_ahead {tail : Queue} {s t : State} (h : Ahead tail s t) (keys : List String)
    (event : Event) : Ahead tail (s.forward keys event) (t.forward keys event) := by
  unfold State.forward
  rw [h.levels]
  rcases s.levels.lookup keys with _ | handler
  · exact h.emit event
  · exact h.handle handler event

theorem route_ahead (engine : Engine) {tail : Queue} {s t : State} (h : Ahead tail s t)
    (event : Event) : ∃ t', engine.route event t = ((engine.route event s).1, t') ∧
      Ahead tail (engine.route event s).2 t' := by
  cases event with
  | start name =>
    have hpush : Ahead tail { s with levels := s.levels.push name }
        { t with levels := t.levels.push name } := by
      rw [h.levels]
      exact h.withLevels _
    cases htag : engine.options.classify name with
    | directive directive =>
      rw [route_directive htag, route_directive htag]
      exact ⟨_, rfl, enter_ahead hpush directive _⟩
    | unknown =>
      rw [route_unknown htag, route_unknown htag]
      exact ⟨_, rfl, forward_ahead (hpush.tell rfl) _ _⟩
    | affect =>
      rw [route_affect htag, route_affect htag]
      exact ⟨_, rfl, hpush.captureText _⟩
    | element =>
      rw [route_element htag, route_element htag]
      exact ⟨_, rfl, forward_ahead hpush _ _⟩
  | close =>
    rcases hshift : s.shiftLevel with fault | ⟨_ | _, s1⟩
    · rw [route_close_error hshift, route_close_error (h.shiftLevel_error hshift)]
      exact ⟨t, rfl, h⟩
    · obtain ⟨t1, ht1, h1⟩ := h.shiftLevel_ok hshift
      rw [route_close_forward hshift, route_close_forward ht1]
      exact ⟨_, rfl, forward_ahead h1 _ _⟩
    · obtain ⟨t1, ht1, h1⟩ := h.shiftLevel_ok hshift
      rw [route_close_suppress hshift, route_close_suppress ht1]
      exact ⟨t1, rfl, h1⟩
  | text content => exact ⟨_, rfl, forward_ahead h _ _⟩
  | attr name value => exact ⟨_, rfl, forward_ahead h _ _⟩

theorem complete_ahead (engine : Engine) {tail : Queue} {s t : State} (h : Ahead tail s t)
    (capture : Capture) (boundary : Event) :
    ∃ t', engine.complete capture boundary t = ((engine.complete capture boundary s).1, t') ∧
      Ahead tail (engine.complete capture boundary s).2 t' := by
  cases capture with
  | firstText text use => exact ⟨_, rfl, (h.pushFront boundary).useText engine use text⟩
  | subLevel depth discard buffer use =>
    rcases hshift : s.shiftLevel with fault | ⟨close, s1⟩
    · rw [complete_subLevel_error hshift, complete_subLevel_error (h.shiftLevel_error hshift)]
      exact ⟨t, rfl, h⟩
    · obtain ⟨t1, ht1, h1⟩ := h.shiftLevel_ok hshift
      rw [complete_subLevel hshift, complete_subLevel ht1]
      exact ⟨_, rfl, h1.useBody use buffer⟩

theorem deliver_ahead (engine : Engine) {tail : Queue} {s t : State} (h : Ahead tail s t)
    (event : Event) : ∃ t', engine.deliver event t = ((engine.deliver event s).1, t') ∧
      Ahead tail (engine.deliver event s).2 t' := by
  rcases hs : s.captures with _ | ⟨capture, captures⟩
  · have ht : t.captures = [] := h.captures.trans hs
    rw [deliver_of_nil hs, deliver_of_nil ht]
    exact route_ahead engine h event
  · have ht : t.captures = capture :: captures := h.captures.trans hs
    rcases hfeed : capture.feed event with ⟨capture', _ | boundary⟩
    · rw [deliver_pending hs hfeed, deliver_pending ht hfeed]
      exact ⟨_, rfl, h.withCaptures _⟩
    · rw [deliver_done hs hfeed, deliver_done ht hfeed]
      exact complete_ahead engine (h.withCaptures captures) capture' boundary

/-- What is pending behind does not change what a step does. -/
theorem step_ahead (engine : Engine) {tail : Queue} {s t s' : State} (h : Ahead tail s t)
    (item : Queued) {result : Except Fault Unit} (hs : engine.step item s = (result, s')) :
    ∃ t', engine.step item t = (result, t') ∧ Ahead tail s' t' := by
  cases item with
  | event event =>
    have hdeliver := deliver_ahead engine h event
    rw [show engine.deliver event s = (result, s') from hs] at hdeliver
    exact hdeliver
  | callback callback =>
    obtain ⟨rfl, rfl⟩ := Prod.mk.inj hs
    exact ⟨_, rfl, h.callback callback⟩

theorem Runs.ahead {engine : Engine} {tail : Queue} {n : Nat} {s t s' : State}
    (hrun : engine.Runs n s s') (h : Ahead tail s t) :
    ∃ t', engine.Runs n t t' ∧ Ahead tail s' t' := by
  induction n generalizing s t with
  | zero =>
    have hss : s = s' := hrun
    exact ⟨t, rfl, hss ▸ h⟩
  | succ n ih =>
    obtain ⟨item, queue, s1, hq, hstep, hrest⟩ := hrun
    have htq : t.queue = item :: (queue ++ tail) := by
      rw [h.queue, hq, List.cons_append]
    have hpopped : Ahead tail { s with queue } { t with queue := queue ++ tail } :=
      { h with queue := rfl }
    obtain ⟨t1, hstep', h1⟩ := step_ahead engine hpopped item hstep
    obtain ⟨t', hrest', h'⟩ := ih hrest h1
    exact ⟨t', ⟨item, queue ++ tail, t1, htq, hstep', hrest'⟩, h'⟩

/-! ## The same queue, and queues in turn -/

theorem ahead_nil_iff {s t : State} : Ahead [] s t ↔ t.unsized = s.unsized := by
  have hshift : ∀ markers : Markers, markers.map (Marker.shift 0) = markers := by
    intro markers
    induction markers with
    | nil => rfl
    | cons marker outer ih => cases marker <;> simp [Marker.shift, ih]
  constructor
  · intro h
    simp [State.unsized, h.scope, h.queue, h.levels, h.captures, h.markers, h.output, h.log,
      h.halted, hshift]
  · intro h
    simp only [State.unsized, State.mk.injEq] at h
    obtain ⟨hscope, hqueue, hlevels, hcaptures, hmarkers, houtput, hlog, hhalted⟩ := h
    exact ⟨hscope, by simpa using hqueue, hlevels, hcaptures, by simpa [hshift] using hmarkers,
      houtput, hlog, hhalted⟩

theorem drain_ahead_nil (engine : Engine) {n : Nat} {s t s' : State} (h : Ahead [] s t)
    {result : Except Fault Unit} (hs : engine.drain n s = some (result, s')) :
    ∃ t', engine.drain n t = some (result, t') ∧ Ahead [] s' t' := by
  have hsame : ∀ {s t : State}, Ahead [] s t → t.queue = s.queue := fun h => by simp [h.queue]
  have hpop : ∀ {s t : State} (queue : Queue), Ahead [] s t →
      Ahead [] { s with queue } { t with queue } := fun queue h => { h with queue := by simp }
  fun_induction drain engine n s generalizing t with
  | case1 n s hqueue =>
    obtain ⟨rfl, rfl⟩ := Prod.mk.inj (Option.some.inj hs)
    exact ⟨t, drain_of_nil engine n t ((hsame h).trans hqueue), h⟩
  | case2 s item queue hqueue => simp at hs
  | case3 s item queue hqueue n fault s1 hstep =>
    obtain ⟨t1, hstep', h1⟩ := step_ahead engine (hpop queue h) item hstep
    obtain ⟨rfl, rfl⟩ := Prod.mk.inj (Option.some.inj hs)
    have htq := (hsame h).trans hqueue
    exact ⟨t1, drain_succ_of_error engine n t t1 item queue fault htq hstep', h1⟩
  | case4 s item queue hqueue n s1 hstep ih =>
    obtain ⟨t1, hstep', h1⟩ := step_ahead engine (hpop queue h) item hstep
    rw [drain_succ_of_ok engine n t t1 item queue ((hsame h).trans hqueue) hstep']
    exact ih h1 hs

/-- `engine.Ends s result t`: the loop, started from `s`, comes to an end with this result in the
state `t`, the queue lengths told in the log aside. -/
def Ends (engine : Engine) (s : State) (result : Except Fault Unit) (t : State) : Prop :=
  ∃ steps t', engine.drain steps s = some (result, t') ∧ t'.unsized = t.unsized

/-- Working off a queue with more behind it ends as working off the rest does in the state that the
queue alone leads to, however many steps either takes.  A marker that is open before or after would
have recorded a length that leaves out what is behind. -/
theorem ends_append_iff (engine : Engine) {s s' : State} {front behind : Queue} {steps : Nat}
    (hs : s.markers.NoneOpen) (hs' : s'.markers.NoneOpen)
    (hfront : engine.drain steps { s with queue := front } = some (.ok (), s'))
    (result : Except Fault Unit) (t : State) :
    engine.Ends { s with queue := front ++ behind } result t ↔
      engine.Ends { s' with queue := behind } result t := by
  obtain ⟨k, hrun, hempty⟩ := runs_of_drain hfront
  have hstart : Ahead behind { s with queue := front } { s with queue := front ++ behind } :=
    ⟨rfl, rfl, rfl, rfl, (hs.map_shift _).symm, rfl, rfl, rfl⟩
  obtain ⟨u, hrun', hu⟩ := hrun.ahead hstart
  have hrest : u.unsized = { s' with queue := behind }.unsized := by
    simp [State.unsized, hu.scope, hu.queue, hu.levels, hu.captures, hu.markers, hu.output, hu.log,
      hu.halted, hempty, hs'.map_shift]
  -- Both loops begin with the run on `front`; one has `behind` in the queue all the time.
  constructor
  · rintro ⟨m, x, hx, hxt⟩
    have hlong := drain_mono engine (Nat.le_add_left m k) hx
    rw [hrun'.drain m] at hlong
    obtain ⟨y, hy, hxy⟩ := drain_ahead_nil engine (ahead_nil_iff.2 hrest.symm) hlong
    exact ⟨m, y, hy, (ahead_nil_iff.1 hxy).trans hxt⟩
  · rintro ⟨m, y, hy, hyt⟩
    obtain ⟨x, hx, hyx⟩ := drain_ahead_nil engine (ahead_nil_iff.2 hrest) hy
    exact ⟨k + m, x, by rw [hrun'.drain m, hx], (ahead_nil_iff.1 hyx).trans hyt⟩

/-- A level closes that a claimed body waits for, with a text behind the closing event. -/
theorem ends_append_iff_resumed :
    let s : State := {
      levels := ⟨⟨some "a", {}, some (.resume [.event (.text "late")])⟩, [⟨none, {}, none⟩]⟩
      markers := [.claimed] }
    let s' : State := { output := [.text "late"], markers := [.claimed] }
    s.markers.NoneOpen ∧ s'.markers.NoneOpen ∧
      ({} : Engine).drain 2 { s with queue := [.event .close] } = some (.ok (), s') ∧
      ∀ result t,
        ({} : Engine).Ends { s with queue := [.event .close] ++ [.event (.text "after")] }
            result t ↔
          ({} : Engine).Ends { s' with queue := [.event (.text "after")] } result t := by
  intro s s'
  have hs : s.markers.NoneOpen := by simp [s, Markers.NoneOpen]
  have hs' : s'.markers.NoneOpen := by simp [s', Markers.NoneOpen]
  have hfront : ({} : Engine).drain 2 { s with queue := [.event .close] } = some (.ok (), s') := rfl
  exact ⟨hs, hs', hfront, ends_append_iff {} hs hs' hfront⟩

end Engine
end TreeStream
