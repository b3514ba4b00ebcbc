import TreeStream.Proofs.Runs
import Mathlib.Algebra.Order.Group.Multiset
import Mathlib.Tactic.Abel

/-!
# What becomes of callbacks

A callback that is put into the queue is run, or waits in the queue or in a stash, or is forsaken
with a stash that nobody resumes.  Nothing else happens to it, and it never runs twice.

* `State.held`: the callbacks in the queue and in the stashes of the open levels.
* `Engine.plays item s`: the callbacks that working on an item puts into the queue.
* `Engine.Session events s trace t`: a stream is submitted event by event, and every event is worked
  off before the next one; `Engine.session_of_submitAll` obtains it from the engine.
* `Engine.Session.accounts`: what was put in has been run or is left, and as many overlays are still
  installed as callbacks are left.
-/

namespace TreeStream
set_option autoImplicit false

/-! ## Callbacks that wait -/

def Queued.callback? : Queued → Option Callback
  | .event _ => none
  | .callback c => some c

def callbacks (items : List Queued) : Multiset Callback :=
  items.filterMap Queued.callback?

@[simp] theorem callbacks_nil : callbacks [] = 0 := rfl

@[simp] theorem callbacks_cons_event (event : Event) (items : List Queued) :
    callbacks (.event event :: items) = callbacks items := rfl

@[simp] theorem callbacks_cons_callback (callback : Callback) (items : List Queued) :
    callbacks (.callback callback :: items) = {callback} + callbacks items := rfl

@[simp] theorem callbacks_append (front behind : List Queued) :
    callbacks (front ++ behind) = callbacks front + callbacks behind := by
  simp [callbacks]

@[simp] theorem callbacks_map_event (events : List Event) : callbacks (events.map .event) = 0 := by
  induction events with
  | nil => rfl
  | cons event events ih => exact ih

def Level.stashed (level : Level) : Multiset Callback :=
  match level.onEnd with
  | some (.resume stash) => callbacks stash
  | _ => 0

def Levels.stashed (levels : Levels) : Multiset Callback :=
  levels.current.stashed + (levels.around.map Level.stashed).sum

/-- The callbacks that wait in the queue and in the stashes. -/
def State.held (s : State) : Multiset Callback :=
  callbacks s.queue + s.levels.stashed

/-- Running the callback releases an overlay. -/
def Callback.Releases : Callback → Prop
  | .roundDone _ _ => True
  | .bodyDone _ _ => True
  | .announce _ => False

theorem Levels.stashed_push (levels : Levels) (tag : String) :
    (levels.push tag).stashed = levels.stashed := by
  simp [Levels.stashed, Levels.push, Levels.toList, Level.stashed]

theorem Levels.stashed_pop {levels outer : Levels} {level : Level}
    (h : levels.pop? = some (level, outer)) : levels.stashed = level.stashed + outer.stashed := by
  rcases levels with ⟨current, _ | ⟨next, around⟩⟩
  · simp [Levels.pop?] at h
  · obtain ⟨rfl, rfl⟩ := Prod.mk.inj (Option.some.inj h)
    simp [Levels.stashed]

/-! ## What a step puts into the queue -/

def EndHook.blank : EndHook → EndHook
  | .resume _ => .resume []
  | hook => hook

def Level.blank (level : Level) : Level :=
  { level with onEnd := level.onEnd.map EndHook.blank }

def Levels.blank (levels : Levels) : Levels :=
  ⟨levels.current.blank, levels.around.map Level.blank⟩

/-- The state with nothing in the queue and nothing stashed. -/
def State.blank (s : State) : State :=
  { s with queue := [], levels := s.levels.blank }

/-- The callbacks that working on an item puts into the queue: those that are there afterwards when
nothing was in the queue and nothing was stashed. -/
def Engine.plays (engine : Engine) (item : Queued) (s : State) : Multiset Callback :=
  callbacks (engine.step item s.blank).2.queue

theorem Levels.lookup_blank (levels : Levels) (keys : List String) :
    levels.blank.lookup keys = levels.lookup keys := by
  unfold Levels.lookup Levels.toList Levels.blank
  congr 1
  funext key
  rw [List.findSome?_cons, List.findSome?_cons, List.findSome?_map]
  rfl

theorem State.shiftLevel_blank {s t : State} {close : LevelClose}
    (h : s.shiftLevel = .ok (close, t)) : s.blank.shiftLevel = .ok (close, t.blank) := by
  rcases s with
    ⟨scope, queue, ⟨current, _ | ⟨outer, around⟩⟩, captures, markers, output, log, halted⟩
  · simp [State.shiftLevel, Levels.pop?] at h
  · rcases current with ⟨tag, handlers, _ | (_ | stash | ⟨event, close'⟩)⟩ <;>
      simp only [State.shiftLevel, Levels.pop?, Level.takeOnEnd_fst, EndHook.run, Except.ok.injEq,
        Prod.mk.injEq] at h <;>
      obtain ⟨rfl, rfl⟩ := h <;> rfl

/-- Closing a level keeps all callbacks: what was stashed in it comes into the queue. -/
theorem State.held_shiftLevel {s t : State} {close : LevelClose}
    (h : s.shiftLevel = .ok (close, t)) : t.held = s.held ∧ t.scope = s.scope := by
  unfold State.shiftLevel at h
  rcases hpop : s.levels.pop? with _ | ⟨level, outer⟩
  · simp [hpop] at h
  · have hstashed := Levels.stashed_pop hpop
    rcases hhook : level.onEnd with _ | (_ | stash | ⟨event, close'⟩) <;>
      simp only [hpop, Level.takeOnEnd_fst, hhook, EndHook.run, Except.ok.injEq,
        Prod.mk.injEq] at h <;>
      obtain ⟨-, rfl⟩ := h
    · simp [State.held, hstashed, Level.stashed, hhook]
    · simp [State.held, hstashed, Level.stashed, hhook]
    · simp [State.held, hstashed, Level.stashed, hhook, Queue.prepend]
      abel
    · simp [State.held, hstashed, Level.stashed, hhook]

/-! ## The tally of a primitive -/

/-- From `s` to `t` some callbacks are put in and perhaps others are lost; each that is put in has
its overlay. -/
structure Tally (s t : State) (played : Multiset Callback) : Prop where
  held : ∃ lost, s.held + played = t.held + lost
  overlays : t.scope.overlays = s.scope.overlays + played.card
  releases : ∀ callback ∈ played, callback.Releases

theorem Tally.of_held {s t : State} (hheld : t.held = s.held)
    (hoverlays : t.scope.overlays = s.scope.overlays) : Tally s t 0 :=
  ⟨⟨0, by simp [hheld]⟩, by simp [hoverlays], by simp⟩

theorem Tally.after {s t u : State} {played : Multiset Callback} (h : Tally t u played)
    (hheld : t.held = s.held) (hoverlays : t.scope.overlays = s.scope.overlays) :
    Tally s u played where
  held := hheld ▸ h.held
  overlays := hoverlays ▸ h.overlays
  releases := h.releases

theorem Tally.playBuffer (s : State) (bindings : List (String × Value)) (body : List Event)
    (markers : Markers) (callback : Overlay → Callback)
    (hreleases : ∀ overlay, (callback overlay).Releases) :
    let (overlay, t) := s.install bindings
    Tally s { t.playBuffer body (callback overlay) with markers } {callback overlay} := by
  refine ⟨⟨0, ?_⟩, ?_, ?_⟩
  · simp only [State.held, State.playBuffer, Queue.replay, callbacks_append, callbacks_map_event,
      callbacks_cons_callback]
    abel
  · simp [State.playBuffer]
  · simpa using hreleases _

theorem Tally.setOnEnd (s : State) : Tally s (s.setOnEnd .vanish) 0 where
  held := by
    refine ⟨s.levels.current.stashed, ?_⟩
    simp [State.held, State.setOnEnd, Levels.setOnEnd, Levels.stashed, Level.stashed]
    abel
  overlays := by simp [State.setOnEnd]
  releases := by simp

theorem Tally.letThrough (s : State) : Tally s s.letThrough 0 := by
  unfold State.letThrough
  rcases s.markers.claim with misuse | ⟨queueLength, markers⟩
  · exact .of_held rfl rfl
  -- The cut moves callbacks from the queue to the hook; those of an earlier hook are lost.
  · have hqueue : callbacks s.queue =
        callbacks (s.queue.take (s.queue.length - queueLength)) +
          callbacks (s.queue.drop (s.queue.length - queueLength)) := by
      rw [← callbacks_append, List.take_append_drop]
    refine ⟨⟨s.levels.current.stashed, ?_⟩, by simp [State.setOnEnd], by simp⟩
    simp only [State.held, State.setOnEnd, Levels.setOnEnd, Levels.stashed, Level.stashed,
      Queue.takeFront, hqueue]
    abel

/-! ## The tally of a step -/

namespace Engine

theorem tally_play (loop : Loop) (s : State) :
    Tally s (loop.play s) (callbacks (loop.play s.blank).queue) := by
  unfold Loop.play
  cases loop.left with
  | nil => exact .of_held rfl rfl
  | cons item left =>
    have hplay := Tally.playBuffer s ((loop.item, item) :: loop.index.toList.map fun name =>
      (name, Value.num (Float.ofNat loop.round))) loop.body s.markers
      (fun overlay => .roundDone overlay { loop with round := loop.round + 1, left })
      (fun _ => trivial)
    simpa [State.playBuffer, State.install, State.blank, Queue.replay] using hplay

theorem tally_handler (handler : Handler) (event : Event) (s : State) :
    Tally s (handler.run event s) (callbacks (handler.run event s.blank).queue) := by
  cases handler with
  | announce first => exact .of_held rfl rfl
  | deferred body binding =>
    have hplay := Tally.playBuffer s (("_", event.selected) ::
      binding.toList.map fun name => (name, event.selected)) body
      (s.markers.push s.queue.length) (fun overlay => .bodyDone overlay event.isStart)
      (fun _ => trivial)
    simpa [Handler.run, State.playBuffer, State.install, State.blank, Queue.replay] using hplay

theorem tally_forward (s : State) (keys : List String) (event : Event) :
    Tally s (s.forward keys event) (callbacks (s.blank.forward keys event).queue) := by
  unfold State.forward
  have hlookup : s.blank.levels.lookup keys = s.levels.lookup keys :=
    s.levels.lookup_blank keys
  rw [hlookup]
  cases s.levels.lookup keys with
  | none => exact .of_held rfl rfl
  | some handler => exact tally_handler handler event s

theorem tally_useBody (use : BodyUse) (body : List Event) (s : State) :
    Tally s (use.run body s) (callbacks (use.run body s.blank).queue) := by
  cases use with
  | drop => exact .of_held rfl rfl
  | loop item index items => exact tally_play ⟨item, index, body, 0, items⟩ s
  | register selector binding => exact .of_held rfl rfl
  | through =>
    have hqueue : s.blank.letThrough.queue = [] := by
      unfold State.letThrough
      cases s.blank.markers.claim <;>
        simp [State.tell, State.setOnEnd, State.blank, Queue.takeFront]
    rw [BodyUse.run, BodyUse.run, hqueue]
    exact .letThrough s
  | report tag => exact .of_held rfl rfl

theorem Evaluated.overlays {engine : Engine} {before after : Scope}
    (h : engine.Evaluated before after) : after.overlays = before.overlays := by
  rcases h with rfl | ⟨source, rfl⟩
  · rfl
  · rfl

theorem tally_useText (engine : Engine) (use : TextUse) (text : String) (s : State) :
    Tally s (engine.useText use text s) 0 := by
  have hgoes := useText_goesOn engine use text s
  generalize engine.useText use text s = t at hgoes
  cases hgoes with
  | done scope output log hscope => exact .of_held rfl hscope.overlays
  | vanish scope log hscope =>
    exact (Tally.setOnEnd { s with scope, log }).after rfl hscope.overlays
  | dropped scope output log hscope => exact .of_held rfl hscope.overlays
  | loop scope log item index items hscope => exact .of_held rfl hscope.overlays
  | register selector binding => exact .of_held rfl rfl

theorem tally_complete (engine : Engine) (capture : Capture) (boundary : Event) {s t : State}
    (h : engine.complete capture boundary s = (.ok (), t)) :
    Tally s t (callbacks (engine.complete capture boundary s.blank).2.queue) := by
  cases capture with
  | firstText text use =>
    obtain ⟨-, rfl⟩ := Prod.mk.inj h
    have hplayed : callbacks
        (engine.useText use text { s.blank with queue := [.event boundary] }).queue = 0 := by
      rw [useText_queue]
      rfl
    have huse := tally_useText engine use text { s with queue := s.queue.pushFront boundary }
    rw [← hplayed] at huse
    exact huse.after (by simp [State.held, Queue.pushFront]) rfl
  | subLevel depth discard buffer use =>
    rcases hshift : s.shiftLevel with fault | ⟨close, closed⟩
    · simp [complete_subLevel_error hshift] at h
    · rw [complete_subLevel hshift] at h
      obtain ⟨-, rfl⟩ := Prod.mk.inj h
      obtain ⟨hheld, hscope⟩ := State.held_shiftLevel hshift
      rw [complete_subLevel (State.shiftLevel_blank hshift)]
      exact (tally_useBody use buffer closed).after hheld (by rw [hscope])

theorem tally_route (engine : Engine) (event : Event) {s t : State}
    (h : engine.route event s = (.ok (), t)) :
    Tally s t (callbacks (engine.route event s.blank).2.queue) := by
  cases event with
  | start name =>
    have hheld : ({ s with levels := s.levels.push name } : State).held = s.held := by
      simp [State.held, Levels.stashed_push]
    cases htag : engine.options.classify name with
    | directive directive =>
      rw [route_directive htag] at h ⊢
      obtain ⟨-, rfl⟩ := Prod.mk.inj h
      cases directive <;> exact .of_held hheld rfl
    | affect =>
      rw [route_affect htag] at h ⊢
      obtain ⟨-, rfl⟩ := Prod.mk.inj h
      exact .of_held hheld rfl
    | unknown =>
      rw [route_unknown htag] at h ⊢
      obtain ⟨-, rfl⟩ := Prod.mk.inj h
      exact (tally_forward (({ s with levels := s.levels.push name } : State).tell _) _ _).after
        hheld rfl
    | element =>
      rw [route_element htag] at h ⊢
      obtain ⟨-, rfl⟩ := Prod.mk.inj h
      exact (tally_forward { s with levels := s.levels.push name } _ _).after hheld rfl
  | close =>
    rcases hshift : s.shiftLevel with fault | ⟨_ | _, closed⟩
    · simp [route_close_error hshift] at h
    · rw [route_close_forward hshift] at h
      obtain ⟨-, rfl⟩ := Prod.mk.inj h
      obtain ⟨hheld, hscope⟩ := State.held_shiftLevel hshift
      rw [route_close_forward (State.shiftLevel_blank hshift)]
      exact (tally_forward closed ["END"] .close).after hheld (by rw [hscope])
    · rw [route_close_suppress hshift] at h
      obtain ⟨-, rfl⟩ := Prod.mk.inj h
      obtain ⟨hheld, hscope⟩ := State.held_shiftLevel hshift
      rw [route_close_suppress (State.shiftLevel_blank hshift)]
      exact .of_held hheld (by rw [hscope])
  | text content =>
    obtain ⟨-, rfl⟩ := Prod.mk.inj h
    exact tally_forward s ["TEXT"] (.text content)
  | attr name value =>
    obtain ⟨-, rfl⟩ := Prod.mk.inj h
    exact tally_forward s ["ATTR"] (.attr name value)

theorem tally_deliver (engine : Engine) (event : Event) {s t : State}
    (h : engine.deliver event s = (.ok (), t)) :
    Tally s t (callbacks (engine.deliver event s.blank).2.queue) := by
  rcases hcaptures : s.captures with _ | ⟨capture, captures⟩
  · have hblank : s.blank.captures = [] := hcaptures
    rw [deliver_of_nil hcaptures] at h
    rw [deliver_of_nil hblank]
    exact tally_route engine event h
  · have hblank : s.blank.captures = capture :: captures := hcaptures
    rcases hfeed : capture.feed event with ⟨capture', _ | boundary⟩
    · rw [deliver_pending hcaptures hfeed] at h
      rw [deliver_pending hblank hfeed]
      obtain ⟨-, rfl⟩ := Prod.mk.inj h
      exact .of_held rfl rfl
    · rw [deliver_done hcaptures hfeed] at h
      rw [deliver_done hblank hfeed]
      exact (tally_complete engine capture' boundary h).after (s := s) rfl rfl

theorem tally_step_event (engine : Engine) (event : Event) {s t : State}
    (h : engine.step (.event event) s = (.ok (), t)) :
    Tally s t (engine.plays (.event event) s) :=
  tally_deliver engine event h

/-- A callback gives its overlay back, and may put another one in. -/
theorem tally_step_callback (engine : Engine) (callback : Callback) (s : State)
    (hreleases : callback.Releases) :
    ∃ released : State, released.held = s.held ∧
      released.scope.overlays = s.scope.overlays - 1 ∧
      Tally released (engine.step (.callback callback) s).2
        (engine.plays (.callback callback) s) := by
  cases callback with
  | roundDone overlay loop =>
    exact ⟨s.release overlay, rfl, rfl, tally_play loop (s.release overlay)⟩
  | bodyDone overlay selectedStart =>
    have hplayed : engine.plays (.callback (.bodyDone overlay selectedStart)) s = 0 := by
      simp only [plays, step, Callback.run]
      split <;> rfl
    refine ⟨s.release overlay, rfl, rfl, ?_⟩
    rw [hplayed]
    simp only [step, Callback.run]
    split <;> exact .of_held rfl rfl
  | announce event => exact hreleases.elim

/-! ## Sessions -/

/-- An item, and the state in which it is worked on. -/
structure Worked where
  before : State
  item : Queued

/-- `engine.Session events s trace t`: the events are submitted one by one, and each is worked off
without a fault before the next one. -/
inductive Session (engine : Engine) : List Event → State → List Worked → State → Prop
  | finished (s : State) (hqueue : s.queue = []) : Session engine [] s [] s
  | take {event : Event} {events : List Event} {s t : State} {trace : List Worked}
      (hqueue : s.queue = [])
      (rest : Session engine events { s with queue := [.event event] } trace t) :
      Session engine (event :: events) s trace t
  | work {events : List Event} {s s' t : State} {item : Queued} {queue : Queue}
      {trace : List Worked} (hqueue : s.queue = item :: queue)
      (hstep : engine.step item { s with queue } = (.ok (), s'))
      (rest : Session engine events s' trace t) :
      Session engine events s (⟨{ s with queue }, item⟩ :: trace) t

/-- The work on the queue, item by item, up to the first fault. -/
def drainTrace (engine : Engine) : Nat → State → List Worked
  | 0, _ => []
  | steps + 1, s =>
    match s.queue with
    | [] => []
    | item :: queue =>
      match engine.step item { s with queue } with
      | (.error _, _) => []
      | (.ok (), t) => ⟨{ s with queue }, item⟩ :: drainTrace engine steps t

theorem drainTrace_of_nil (engine : Engine) (steps : Nat) {s : State} (hqueue : s.queue = []) :
    engine.drainTrace steps s = [] := by
  cases steps <;> simp [drainTrace, hqueue]

theorem drainTrace_succ_of_ok {engine : Engine} {steps : Nat} {s t : State} {item : Queued}
    {queue : Queue} (hqueue : s.queue = item :: queue)
    (hstep : engine.step item { s with queue } = (.ok (), t)) :
    engine.drainTrace (steps + 1) s = ⟨{ s with queue }, item⟩ :: engine.drainTrace steps t := by
  simp [drainTrace, hqueue, hstep]

/-- The work on a stream that is submitted event by event. -/
def trace (engine : Engine) (steps : Nat) : List Event → State → List Worked
  | [], _ => []
  | event :: events, s =>
    let s := { s with queue := s.queue.pushBack event }
    engine.drainTrace steps s ++
      match engine.drain steps s with
      | some (.ok (), t) => trace engine steps events t
      | _ => []

theorem session_of_drain {engine : Engine} {steps : Nat} {events : List Event} {s t u : State}
    {later : List Worked} (h : engine.drain steps s = some (.ok (), t))
    (hrest : t.queue = [] → engine.Session events t later u) :
    engine.Session events s (engine.drainTrace steps s ++ later) u := by
  fun_induction drain engine steps s with
  | case1 steps s hqueue =>
    obtain rfl : s = t := by simpa using h
    rw [drainTrace_of_nil engine steps hqueue]
    exact hrest hqueue
  | case2 s item queue hqueue => simp at h
  | case3 s item queue hqueue steps fault s' hstep => simp at h
  | case4 s item queue hqueue steps s' hstep ih =>
    rw [drainTrace_succ_of_ok hqueue hstep]
    exact .work hqueue hstep (ih h)

theorem session_of_submitAll {engine : Engine} {steps : Nat} {events : List Event} {s t : State}
    (hqueue : s.queue = []) (h : engine.submitAll steps events s = some (.ok (), t)) :
    engine.Session events s (engine.trace steps events s) t := by
  induction events generalizing s with
  | nil =>
    obtain rfl : s = t := by simpa [submitAll] using h
    exact .finished s hqueue
  | cons event events ih =>
    rw [submitAll] at h
    rcases hsubmit : engine.submit steps event s with _ | ⟨fault | ⟨⟩, s'⟩
    · simp [hsubmit] at h
    · simp [hsubmit] at h
    · rw [hsubmit] at h
      have hdrain := drain_of_submit hsubmit
      have hlater := session_of_drain hdrain fun hempty => ih hempty h
      rw [trace]
      simp only [hdrain]
      rw [hqueue] at hlater ⊢
      exact .take hqueue hlater

def played (engine : Engine) (trace : List Worked) : Multiset Callback :=
  (trace.map fun worked => engine.plays worked.item worked.before).sum

def ran (trace : List Worked) : Multiset Callback :=
  callbacks (trace.map Worked.item)

theorem step_accounts (engine : Engine) (item : Queued) {s t : State}
    (h : engine.step item s = (.ok (), t))
    (hreleases : ∀ callback ∈ callbacks [item], callback.Releases)
    (hcovered : (callbacks [item]).card ≤ s.scope.overlays) :
    (∃ lost, s.held + engine.plays item s = t.held + lost) ∧
      t.scope.overlays + (callbacks [item]).card =
        s.scope.overlays + (engine.plays item s).card ∧
      ∀ callback ∈ engine.plays item s, callback.Releases := by
  cases item with
  | event event =>
    have htally := tally_step_event engine event h
    exact ⟨htally.held, by simpa using htally.overlays, htally.releases⟩
  | callback callback =>
    have hrun : (engine.step (.callback callback) s).2 = t := congrArg Prod.snd h
    obtain ⟨released, hheld, hoverlays, htally⟩ :=
      tally_step_callback engine callback s (hreleases callback (by simp))
    rw [hrun] at htally
    have hone : 1 ≤ s.scope.overlays := by simpa using hcovered
    have hmore := htally.overlays
    refine ⟨hheld ▸ htally.held, ?_, htally.releases⟩
    simp only [callbacks_cons_callback, callbacks_nil, add_zero, Multiset.card_singleton]
    omega

/-- What was waiting or was put in has been run, or waits still, or is lost; the overlays that are
installed are those of the callbacks that are left. -/
theorem Session.accounts {engine : Engine} {events : List Event} {s t : State}
    {trace : List Worked} (h : engine.Session events s trace t)
    (hreleases : ∀ callback ∈ s.held, callback.Releases)
    (hcovered : s.held.card ≤ s.scope.overlays) :
    (∃ lost, s.held + engine.played trace = ran trace + (t.held + lost)) ∧
      t.scope.overlays + (ran trace).card = s.scope.overlays + (engine.played trace).card := by
  induction h with
  | finished s hqueue => exact ⟨⟨0, by simp [played, ran]⟩, by simp [played, ran]⟩
  | @take event events s t trace hqueue rest ih =>
    have hheld : ({ s with queue := [.event event] } : State).held = s.held := by
      simp [State.held, hqueue]
    rw [← hheld] at hreleases hcovered ⊢
    exact ih hreleases hcovered
  | @work events s s' t item queue trace hqueue hstep rest ih =>
    have hheld : s.held = callbacks [item] + ({ s with queue } : State).held := by
      rw [State.held, hqueue, ← List.singleton_append, callbacks_append, add_assoc]
      rfl
    rw [hheld] at hreleases hcovered
    rw [Multiset.card_add] at hcovered
    obtain ⟨⟨lost, hlost⟩, hoverlays, hplays⟩ := step_accounts engine item hstep
      (fun callback hmem => hreleases callback (Multiset.mem_add.2 (.inl hmem)))
      (Nat.le_trans (Nat.le_add_right _ _) hcovered)
    have hcard := congrArg Multiset.card hlost
    rw [Multiset.card_add, Multiset.card_add] at hcard
    have hreleases' : ∀ callback ∈ s'.held, callback.Releases := by
      intro callback hmem
      have hbefore : callback ∈ ({ s with queue } : State).held +
          engine.plays item { s with queue } := hlost ▸ Multiset.mem_add.2 (.inl hmem)
      rcases Multiset.mem_add.1 hbefore with hold | hnew
      · exact hreleases callback (Multiset.mem_add.2 (.inr hold))
      · exact hplays callback hnew
    have hcovered' : s'.held.card ≤ s'.scope.overlays := by
      have hsame : ({ s with queue } : State).scope.overlays = s.scope.overlays := rfl
      omega
    obtain ⟨⟨lost', hrest⟩, htotal⟩ := ih hreleases' hcovered'
    have hplayed : engine.played (⟨{ s with queue }, item⟩ :: trace) =
        engine.plays item { s with queue } + engine.played trace := by
      simp [played]
    have hran : ran (⟨{ s with queue }, item⟩ :: trace) = callbacks [item] + ran trace := by
      rw [ran, List.map_cons, ← List.singleton_append, callbacks_append]
      rfl
    refine ⟨⟨lost + lost', ?_⟩, ?_⟩
    · calc s.held + engine.played (⟨{ s with queue }, item⟩ :: trace)
          = callbacks [item] + (({ s with queue } : State).held +
              engine.plays item { s with queue }) + engine.played trace := by
            rw [hheld, hplayed]
            abel
        _ = callbacks [item] + (s'.held + engine.played trace) + lost := by
            rw [hlost]
            abel
        _ = ran (⟨{ s with queue }, item⟩ :: trace) + (t.held + (lost + lost')) := by
            rw [hrest, hran]
            abel
    · rw [hplayed, hran, Multiset.card_add, Multiset.card_add]
      have hsame : ({ s with queue } : State).scope.overlays = s.scope.overlays := rfl
      omega

theorem Session.accounts_fresh {engine : Engine} {events : List Event} {s t : State}
    {trace : List Worked} (h : engine.Session events s trace t) (hheld : s.held = 0)
    (hoverlays : s.scope.overlays = 0) :
    ∃ forsaken, engine.played trace = ran trace + forsaken ∧
      forsaken.card = t.scope.overlays := by
  obtain ⟨⟨lost, hlost⟩, htotal⟩ := h.accounts (by simp [hheld]) (by simp [hheld])
  rw [hheld, zero_add] at hlost
  refine ⟨t.held + lost, hlost, ?_⟩
  have hcard := congrArg Multiset.card hlost
  rw [Multiset.card_add] at hcard
  omega

end Engine
end TreeStream
