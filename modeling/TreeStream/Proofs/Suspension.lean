import TreeStream.Proofs.Accounting
import TreeStream.Proofs.Feeding
import TreeStream.Proofs.Order
import TreeStream.Proofs.Overlays
import TreeStream.Proofs.Pending

/-!
# Suspended bodies

A body that lets its element through is stashed at the innermost level.  For an element that is the
element itself or one that the body opened, and both close in time.  A text, an attribute or a close
has no close of its own, so that an element around it has to serve: that may hold another body
already, or outlive the body around the event, or be the root.

* `Worked.strands`: the step stashes a body where none of these elements brings it back in order.
* `State.InOrder start s`: all that is open in the state will close in order.
* `Engine.step_inOrder`, `Engine.Session.inOrder`: that is kept, as long as no body is stranded.
* `Engine.bodies_complete`: which callbacks of a stream of balanced events are run, and what is left
  open.
-/

namespace TreeStream
set_option autoImplicit false

def Evaluator.ReadsOnly (evaluator : Evaluator) : Prop :=
  ∀ source vars, (evaluator source vars).assignments = []

theorem Engine.Evaluated.eq_of_readsOnly {engine : Engine} {before after : Scope}
    (hreads : engine.evaluator.ReadsOnly) (h : engine.Evaluated before after) :
    after = before := by
  rcases h with rfl | ⟨source, rfl⟩
  · rfl
  · simp only [Scope.evaluate, hreads source before.vars]
    rfl

/-! ## Handlers -/

def Handler.Sound : Handler → Prop
  | .deferred body _ => Balanced body
  | .announce _ => True

def Levels.Sound (levels : Levels) : Prop :=
  ∀ level ∈ levels.toList, ∀ key handler, level.handlers.get? key = some handler → handler.Sound

namespace Levels.Sound

variable {levels : Levels}

theorem root : Levels.root.Sound := by
  intro level hlevel key handler hhandler
  rw [List.mem_singleton.1 hlevel] at hhandler
  have hnone : (Table.empty : Table Handler).get? key = some handler := hhandler
  simp at hnone

theorem push (h : levels.Sound) (tag : String) : (levels.push tag).Sound := by
  intro level hlevel key handler hhandler
  rcases List.mem_cons.1 hlevel with rfl | houter
  · have hnone : (Table.empty : Table Handler).get? key = some handler := hhandler
    simp at hnone
  · exact h level houter key handler hhandler

theorem of_pop? (h : levels.Sound) {level : Level} {outer : Levels}
    (hpop : levels.pop? = some (level, outer)) : outer.Sound := by
  rcases levels with ⟨current, _ | ⟨next, around⟩⟩
  · simp [Levels.pop?] at hpop
  · obtain ⟨rfl, rfl⟩ := Prod.mk.inj (Option.some.inj hpop)
    exact fun level hlevel => h level (List.mem_cons_of_mem _ hlevel)

theorem setOnEnd (h : levels.Sound) (hook : EndHook) : (levels.setOnEnd hook).Sound := by
  intro level hlevel
  rcases List.mem_cons.1 hlevel with rfl | houter
  · exact h levels.current List.mem_cons_self
  · exact h level (List.mem_cons_of_mem _ houter)

theorem register (h : levels.Sound) (key : String) {handler : Handler} (hhandler : handler.Sound) :
    (levels.register key handler).Sound := by
  intro level hlevel other found hfound
  rcases List.mem_cons.1 hlevel with rfl | houter
  · have hput : (levels.current.handlers.put key handler).get? other = some found := hfound
    rw [Table.get?_put] at hput
    split at hput
    · exact Option.some.inj hput ▸ hhandler
    · exact h levels.current List.mem_cons_self other found hput
  · exact h level (List.mem_cons_of_mem _ houter) other found hfound

theorem lookup (h : levels.Sound) {keys : List String} {handler : Handler}
    (hlookup : levels.lookup keys = some handler) : handler.Sound := by
  obtain ⟨key, -, hkey⟩ := List.exists_of_findSome?_eq_some hlookup
  obtain ⟨level, hlevel, hget⟩ := List.exists_of_findSome?_eq_some hkey
  exact h level hlevel key handler hget

end Levels.Sound

/-! ## States in order -/

/-- Letting an element through now strands the innermost body. -/
def State.strands (s : State) : Bool :=
  match s.markers with
  | .opened queueLength :: _ =>
    let (stash, behind) := s.queue.takeFront (s.queue.length - queueLength)
    Hooks.strands s.levels.hooks stash behind
  | _ => false

/-- The work lets an element through and strands its body. -/
def Engine.Worked.strands (worked : Engine.Worked) : Bool :=
  match worked.item, worked.before.captures with
  | .event event, capture :: captures =>
    match capture.feed event, { worked.before with captures }.shiftLevel with
    | (.subLevel _ _ _ .through, some _), .ok (_, closed) => closed.strands
    | _, _ => false
  | _, _ => false

theorem State.strands_of_opened {s : State} {stash behind : Queue} {markers : Markers}
    (hqueue : s.queue = stash ++ behind) (hmarkers : s.markers = .opened behind.length :: markers) :
    s.strands = Hooks.strands s.levels.hooks stash behind := by
  have hlength : s.queue.length - behind.length = stash.length := by
    rw [hqueue, List.length_append]
    omega
  simp only [State.strands, hmarkers, hlength, Queue.takeFront]
  rw [hqueue, List.take_left, List.drop_left]

/-- The innermost element gives nothing back, and these events are left of it. -/
def State.Within (start : Scope) (depth : Nat) (inside : List Event) (s : State) : Prop :=
  ∃ outer rest, s.levels.hooks = none :: outer ∧
    s.queue = inside.map .event ++ .event .close :: rest ∧ Closes depth inside ∧
    Orderly start outer rest s.markers s.scope

/-- What is to be repeated or kept for later is gathered and balanced. -/
def BodyUse.Gathers (use : BodyUse) (discard : Bool) (body : List Event) : Prop :=
  match use with
  | .loop _ _ _ => discard = false ∧ Balanced body
  | .register _ _ => discard = false ∧ Balanced body
  | _ => True

/-- An event goes from what is left of the body to what is gathered of it. -/
theorem BodyUse.Gathers.moved {use : BodyUse} {discard : Bool} {event : Event}
    {buffer inside : List Event} (h : use.Gathers discard (buffer ++ event :: inside)) :
    use.Gathers discard ((if discard then buffer else buffer ++ [event]) ++ inside) := by
  cases use with
  | loop item index items =>
    obtain ⟨rfl, hbalanced⟩ := h
    exact ⟨rfl, by simpa using hbalanced⟩
  | register selector binding =>
    obtain ⟨rfl, hbalanced⟩ := h
    exact ⟨rfl, by simpa using hbalanced⟩
  | drop => trivial
  | through => trivial
  | report tag => trivial

/-- All that is open and pending will close in order. -/
inductive State.Waits (start : Scope) (s : State) : List Capture → Prop
  | nobody (h : Orderly start s.levels.hooks s.queue s.markers s.scope) : Waits start s []
  | argument {text : String} {use : TextUse} {inside : List Event}
      (h : s.Within start 0 inside) : Waits start s [.firstText text use]
  | body {depth : Nat} {discard : Bool} {buffer inside : List Event} {use : BodyUse}
      (h : s.Within start depth inside) (hbody : use.Gathers discard (buffer ++ inside)) :
      Waits start s [.subLevel depth discard buffer use]

structure State.InOrder (start : Scope) (s : State) : Prop where
  sound : s.levels.Sound
  waits : s.Waits start s.captures

namespace State

variable {start : Scope} {s : State}

theorem InOrder.of_orderly (hcaptures : s.captures = []) (hsound : s.levels.Sound)
    (h : Orderly start s.levels.hooks s.queue s.markers s.scope) : s.InOrder start :=
  ⟨hsound, by rw [hcaptures]; exact .nobody h⟩

/-- Nobody waits unless an event is next: what is waited for ends with a close. -/
theorem InOrder.orderly_of_ne_event (h : s.InOrder start)
    (hnone : ∀ event queue, s.queue ≠ .event event :: queue) :
    s.captures = [] ∧ Orderly start s.levels.hooks s.queue s.markers s.scope := by
  have hinside : ∀ {depth inside}, ¬ s.Within start depth inside := by
    rintro depth inside ⟨outer, rest, -, hitems, -⟩
    cases inside with
    | nil => exact hnone _ _ hitems
    | cons event inside => exact hnone _ _ hitems
  have hwaits := h.waits
  generalize s.captures = captures at hwaits ⊢
  cases hwaits with
  | nobody horderly => exact ⟨rfl, horderly⟩
  | argument hwithin => exact absurd hwithin hinside
  | body hwithin hbody => exact absurd hwithin hinside

theorem Within.orderly {inside : List Event} (h : s.Within start 0 inside) :
    Orderly start s.levels.hooks s.queue s.markers s.scope := by
  obtain ⟨outer, rest, hhooks, hqueue, hinside, hrest⟩ := h
  rw [hhooks, hqueue]
  exact hrest.behind_close.behind hinside

theorem Within.closes {depth : Nat} {inside : List Event} (h : s.Within start depth inside) :
    Closes depth inside := by
  obtain ⟨outer, rest, -, -, hinside, -⟩ := h
  exact hinside

theorem InOrder.captureText {inside : List Event} (hcaptures : s.captures = [])
    (hsound : s.levels.Sound) (h : s.Within start 0 inside) (use : TextUse) :
    (s.captureText use).InOrder start := by
  refine ⟨hsound, ?_⟩
  simp only [State.captureText, hcaptures]
  exact .argument h

theorem InOrder.captureBody {discard : Bool} {use : BodyUse} {inside : List Event}
    (hcaptures : s.captures = []) (hsound : s.levels.Sound) (h : s.Within start 0 inside)
    (hbody : use.Gathers discard inside) : (s.captureBody discard use).InOrder start := by
  refine ⟨hsound, ?_⟩
  simp only [State.captureBody, hcaptures]
  exact .body h hbody

theorem InOrder.play (loop : Loop) (hcaptures : s.captures = []) (hsound : s.levels.Sound)
    (hbody : Balanced loop.body)
    (h : Orderly start s.levels.hooks s.queue s.markers s.scope) : (loop.play s).InOrder start := by
  unfold Loop.play
  cases loop.left with
  | nil => exact .of_orderly hcaptures hsound h
  | cons item left =>
    refine .of_orderly hcaptures hsound (.behind hbody (.round hbody ?_))
    have hscope := s.scope.release_install ((loop.item, item) ::
      loop.index.toList.map fun name => (name, Value.num (Float.ofNat loop.round)))
    exact hscope.symm ▸ h

theorem InOrder.forward_beside {event : Event} (hevent : event.isStart = false)
    (hcaptures : s.captures = []) (hsound : s.levels.Sound) (keys : List String)
    (h : Orderly start s.levels.hooks s.queue s.markers s.scope) :
    (s.forward keys event).InOrder start := by
  unfold State.forward
  rcases hlookup : s.levels.lookup keys with _ | (⟨body, binding⟩ | first)
  · exact .of_orderly hcaptures hsound h
  · refine .of_orderly hcaptures hsound ?_
    have hscope := s.scope.release_install
      (("_", event.selected) :: binding.toList.map fun name => (name, event.selected))
    simp only [Handler.run, hevent]
    exact .behind (hsound.lookup hlookup) (.beside (hscope.symm ▸ h))
  · exact .of_orderly hcaptures hsound h

theorem InOrder.forward_around {name : String} {inside : List Event} (hcaptures : s.captures = [])
    (hsound : s.levels.Sound) (keys : List String) (h : s.Within start 0 inside) :
    (s.forward keys (.start name)).InOrder start := by
  unfold State.forward
  rcases hlookup : s.levels.lookup keys with _ | (⟨body, binding⟩ | first)
  · exact .of_orderly hcaptures hsound h.orderly
  · obtain ⟨outer, rest, hhooks, hqueue, hinside, hrest⟩ := h
    refine .of_orderly hcaptures hsound ?_
    have hscope := s.scope.release_install (("_", (Event.start name).selected) ::
      binding.toList.map fun name' => (name', (Event.start name).selected))
    have hall := Orderly.behind (hsound.lookup hlookup)
      (.around hinside (hscope.symm ▸ hrest))
    rw [← hqueue, ← hhooks] at hall
    exact hall
  · exact .of_orderly hcaptures hsound h.orderly

/-- The innermost body lets its element through, unless that would strand it. -/
theorem InOrder.letThrough (hcaptures : s.captures = []) (hsound : s.levels.Sound)
    (h : Orderly start s.levels.hooks s.queue s.markers s.scope)
    (hstrands : s.strands = false) : s.letThrough.InOrder start := by
  rcases hmarkers : s.markers with _ | ⟨n | _, outer⟩
  · have hsame : s.letThrough = s.tell (.misuse .throughOutside) := by
      simp [State.letThrough, hmarkers, Markers.claim]
    rw [hsame]
    exact .of_orderly hcaptures hsound h
  · rw [hmarkers] at h
    obtain ⟨stash, behind, hqueue, rfl, hkind⟩ := h.claim
    rw [strands_of_opened hqueue hmarkers] at hstrands
    rw [letThrough_opened hqueue hmarkers]
    rcases hkind with hstranded | ⟨hooks, hhooks, horderly⟩
    · exact absurd (hstranded.symm.trans hstrands) (by simp)
    · refine .of_orderly hcaptures (hsound.setOnEnd _) ?_
      have hset : (s.levels.setOnEnd (.resume stash)).hooks = some stash :: hooks :=
        Levels.hooks_setOnEnd hhooks _
      simp only [State.setOnEnd, hset]
      exact horderly
  · have hsame : s.letThrough = s.tell (.misuse .throughTwice) := by
      simp [State.letThrough, hmarkers, Markers.claim]
    rw [hsame]
    exact .of_orderly hcaptures hsound h

theorem InOrder.useBody (use : BodyUse) {discard : Bool} {body : List Event}
    (hcaptures : s.captures = []) (hsound : s.levels.Sound)
    (h : Orderly start s.levels.hooks s.queue s.markers s.scope)
    (hbody : use.Gathers discard body) (hstrands : use = .through → s.strands = false) :
    (use.run body s).InOrder start := by
  cases use with
  | drop => exact .of_orderly hcaptures hsound h
  | loop item index items =>
    exact .play ⟨item, index, body, 0, items⟩ hcaptures hsound hbody.2 h
  | register selector binding =>
    refine .of_orderly hcaptures (hsound.register _ hbody.2) ?_
    simp only [BodyUse.run, Levels.hooks_register]
    exact h
  | through => exact .letThrough hcaptures hsound h (hstrands rfl)
  | report tag => exact .of_orderly hcaptures hsound h

/-- An expression that sets variables changes where the overlays lead back to, and nothing else. -/
theorem Within.evaluated {engine : Engine} {depth : Nat} {inside : List Event} {scope : Scope}
    (h : s.Within start depth inside) (hscope : engine.Evaluated s.scope scope) :
    ∃ start', ({ s with scope } : State).Within start' depth inside ∧
      (engine.evaluator.ReadsOnly → start' = start) := by
  by_cases hreads : engine.evaluator.ReadsOnly
  · rw [hscope.eq_of_readsOnly hreads]
    exact ⟨start, h, fun _ => rfl⟩
  · obtain ⟨outer, rest, hhooks, hqueue, hinside, hrest⟩ := h
    obtain ⟨start', hrest'⟩ := hrest.rescope scope
    exact ⟨start', ⟨outer, rest, hhooks, hqueue, hinside, hrest'⟩, fun hsame => absurd hsame hreads⟩

theorem InOrder.goesOn {engine : Engine} {t : State} {inside : List Event}
    (hcaptures : s.captures = []) (hsound : s.levels.Sound) (h : s.Within start 0 inside)
    (hgoes : engine.GoesOn s t) :
    ∃ start', t.InOrder start' ∧ (engine.evaluator.ReadsOnly → start' = start) := by
  cases hgoes with
  | done scope output log hscope =>
    obtain ⟨start', hwithin, hstart⟩ := h.evaluated hscope
    exact ⟨start', .of_orderly hcaptures hsound hwithin.orderly, hstart⟩
  | vanish scope log hscope =>
    obtain ⟨start', hwithin, hstart⟩ := h.evaluated hscope
    have horderly := hwithin.orderly
    obtain ⟨outer, rest, hhooks, -⟩ := h
    have hset : (s.levels.setOnEnd .vanish).hooks = s.levels.hooks :=
      (Levels.hooks_setOnEnd hhooks .vanish).trans hhooks.symm
    refine ⟨start', .of_orderly hcaptures (hsound.setOnEnd _) ?_, hstart⟩
    simp only [State.setOnEnd, hset]
    exact horderly
  | dropped scope output log hscope =>
    obtain ⟨start', hwithin, hstart⟩ := h.evaluated hscope
    exact ⟨start', .captureBody (s := { s with scope, output, log }) hcaptures hsound hwithin
      trivial, hstart⟩
  | loop scope log item index items hscope =>
    obtain ⟨start', hwithin, hstart⟩ := h.evaluated hscope
    exact ⟨start', .captureBody (s := { s with scope, log }) hcaptures hsound hwithin
      ⟨rfl, h.closes⟩, hstart⟩
  | register selector binding =>
    exact ⟨start, .captureBody hcaptures hsound h ⟨rfl, h.closes⟩, fun _ => rfl⟩

theorem InOrder.shiftLevel {t : State} {close : LevelClose} (hcaptures : s.captures = [])
    (hsound : s.levels.Sound)
    (h : Orderly start s.levels.hooks (.event .close :: s.queue) s.markers s.scope)
    (hshift : s.shiftLevel = .ok (close, t)) :
    t.captures = [] ∧ t.levels.Sound ∧
      Orderly start t.levels.hooks t.queue t.markers t.scope := by
  obtain ⟨first, outer, hhooks, horderly⟩ := h.close
  unfold State.shiftLevel at hshift
  rcases hpop : s.levels.pop? with _ | ⟨level, levels⟩
  · simp [hpop] at hshift
  · rw [Levels.hooks_of_pop? hpop] at hhooks
    obtain ⟨hfirst, rfl⟩ := List.cons.inj hhooks
    have hlevels := hsound.of_pop? hpop
    rcases hhook : level.onEnd with _ | (_ | stash | ⟨event, close'⟩) <;>
      simp only [hpop, Level.takeOnEnd_fst, hhook, EndHook.run, Except.ok.injEq,
        Prod.mk.injEq] at hshift <;>
      obtain ⟨-, rfl⟩ := hshift <;>
      simp only [Level.stash?, hhook] at hfirst <;>
      subst hfirst <;>
      exact ⟨hcaptures, hlevels, horderly⟩

end State

/-- Events behind the queue strand nothing. -/
theorem Ahead.strands {events : List Event} {s u : State} (h : Ahead (events.map .event) s u)
    (hstrands : s.strands = false) : u.strands = false := by
  unfold State.strands at hstrands ⊢
  rw [h.markers]
  generalize s.markers = markers at hstrands ⊢
  rcases markers with _ | ⟨n | _, outer⟩
  · rfl
  · have hcount : u.queue.length - (n + (events.map Queued.event).length) = s.queue.length - n := by
      rw [h.queue, List.length_append]
      omega
    have hle : s.queue.length - n ≤ s.queue.length := Nat.sub_le _ _
    have hstash : u.queue.take (s.queue.length - n) = s.queue.take (s.queue.length - n) := by
      rw [h.queue, List.take_append_of_le_length hle]
    have hbehind : u.queue.drop (s.queue.length - n) =
        s.queue.drop (s.queue.length - n) ++ events.map .event := by
      rw [h.queue, List.drop_append_of_le_length hle]
    simp only [List.map_cons, Marker.shift, hcount, Queue.takeFront, hstash, hbehind, h.levels]
      at hstrands ⊢
    exact Hooks.strands_append_events hstrands events
  · rfl

/-- While no marker is open, none has counted what is behind the queue, and something else can be
put there. -/
theorem Ahead.exchange {tail tail' : Queue} {s u : State} (h : Ahead tail s u)
    (hnone : u.markers.NoneOpen) (queue queue' : Queue) (hqueue : queue' = queue ++ tail') :
    Ahead tail' { s with queue } { u with queue := queue' } := by
  have hmarkers := h.markers
  have hbefore : s.markers.NoneOpen := by
    intro marker hmem
    cases marker with
    | claimed => rfl
    | opened n =>
      have hshifted : Marker.opened (n + tail.length) ∈ u.markers :=
        hmarkers ▸ List.mem_map_of_mem (f := Marker.shift _) hmem
      exact absurd (hnone _ hshifted) (by simp)
  rw [hbefore.map_shift] at hmarkers
  refine { h with queue := hqueue, markers := ?_ }
  rw [hmarkers, hbefore.map_shift]

namespace Engine

variable {engine : Engine} {start : Scope} {s t : State}

/-! ## Steps -/

theorem enter_inOrder {inside : List Event} (directive : Directive) (event : Event)
    (hcaptures : s.captures = []) (hsound : s.levels.Sound) (h : s.Within start 0 inside) :
    (directive.enter event s).InOrder start := by
  cases directive with
  | eval => exact .captureText hcaptures hsound h .eval
  | cond => exact .captureText hcaptures hsound h (.cond event)
  | each => exact .captureText hcaptures hsound h (.each event)
  | defer => exact .captureText hcaptures hsound h .defer
  | through => exact .captureBody hcaptures hsound h trivial
  | debug => exact .captureBody (s := s.tell (.snapshot s.snapshot)) hcaptures hsound h trivial

theorem route_start_inOrder {name : String} (hcaptures : s.captures = []) (hsound : s.levels.Sound)
    (h : Orderly start s.levels.hooks (.event (.start name) :: s.queue) s.markers s.scope)
    (hroute : engine.route (.start name) s = (.ok (), t)) : t.InOrder start := by
  obtain ⟨inside, rest, hqueue, hinside, hrest⟩ := h.start_cases
  have hpushed := hsound.push name
  have hwithin : ({ s with levels := s.levels.push name } : State).Within start 0 inside :=
    ⟨s.levels.hooks, rest, s.levels.hooks_push name, hqueue, hinside, hrest⟩
  cases htag : engine.options.classify name with
  | directive directive =>
    rw [route_directive htag] at hroute
    obtain ⟨-, rfl⟩ := Prod.mk.inj hroute
    exact enter_inOrder (s := { s with levels := s.levels.push name }) directive _ hcaptures hpushed
      hwithin
  | affect =>
    rw [route_affect htag] at hroute
    obtain ⟨-, rfl⟩ := Prod.mk.inj hroute
    exact .captureText (s := { s with levels := s.levels.push name }) hcaptures hpushed hwithin _
  | unknown =>
    rw [route_unknown htag] at hroute
    obtain ⟨-, rfl⟩ := Prod.mk.inj hroute
    exact .forward_around (s := ({ s with levels := s.levels.push name } : State).tell _) hcaptures
      hpushed _ hwithin
  | element =>
    rw [route_element htag] at hroute
    obtain ⟨-, rfl⟩ := Prod.mk.inj hroute
    exact .forward_around (s := { s with levels := s.levels.push name }) hcaptures hpushed _ hwithin

theorem route_close_inOrder (hcaptures : s.captures = []) (hsound : s.levels.Sound)
    (h : Orderly start s.levels.hooks (.event .close :: s.queue) s.markers s.scope)
    (hroute : engine.route .close s = (.ok (), t)) : t.InOrder start := by
  rcases hshift : s.shiftLevel with fault | ⟨close, closed⟩
  · simp [route_close_error hshift] at hroute
  · obtain ⟨hnone, hlevels, horderly⟩ := State.InOrder.shiftLevel hcaptures hsound h hshift
    cases close with
    | forward =>
      rw [route_close_forward hshift] at hroute
      obtain ⟨-, rfl⟩ := Prod.mk.inj hroute
      exact .forward_beside rfl hnone hlevels _ horderly
    | suppress =>
      rw [route_close_suppress hshift] at hroute
      obtain ⟨-, rfl⟩ := Prod.mk.inj hroute
      exact .of_orderly hnone hlevels horderly

theorem route_inOrder {event : Event} (hcaptures : s.captures = []) (hsound : s.levels.Sound)
    (h : Orderly start s.levels.hooks (.event event :: s.queue) s.markers s.scope)
    (hroute : engine.route event s = (.ok (), t)) : t.InOrder start := by
  cases event with
  | start name => exact route_start_inOrder hcaptures hsound h hroute
  | close => exact route_close_inOrder hcaptures hsound h hroute
  | text content =>
    obtain ⟨-, rfl⟩ := Prod.mk.inj hroute
    exact .forward_beside rfl hcaptures hsound _ (h.plain rfl)
  | attr name value =>
    obtain ⟨-, rfl⟩ := Prod.mk.inj hroute
    exact .forward_beside rfl hcaptures hsound _ (h.plain rfl)

/-- What belongs to the argument is the next event of the element. -/
theorem heard_inOrder {event : Event} {text : String} {use : TextUse} {inside : List Event}
    (hsound : s.levels.Sound)
    (h : ({ s with queue := .event event :: s.queue } : State).Within start 0 inside)
    (hevent : Capture.shift event = 0) :
    ({ s with captures := [.firstText text use] } : State).InOrder start := by
  obtain ⟨outer, rest, hhooks, hitems, hinside, hrest⟩ := h
  cases inside with
  | nil =>
    obtain ⟨hclose, -⟩ := List.cons.inj hitems
    rw [Queued.event.inj hclose] at hevent
    simp [Capture.shift] at hevent
  | cons first inside =>
    obtain ⟨hfirst, hrest'⟩ := List.cons.inj hitems
    obtain rfl : event = first := Queued.event.inj hfirst
    have hinside' : Closes 0 inside := by
      cases event with
      | text content => exact hinside
      | attr name value => exact hinside
      | start name => simp [Capture.shift] at hevent
      | close => simp [Capture.shift] at hevent
    exact ⟨hsound, .argument ⟨outer, rest, hhooks, hrest', hinside', hrest⟩⟩

theorem argument_inOrder {event : Event} {text : String} {use : TextUse} {inside : List Event}
    (hcaptures : s.captures = [.firstText text use]) (hsound : s.levels.Sound)
    (h : ({ s with queue := .event event :: s.queue } : State).Within start 0 inside)
    (hdeliver : engine.deliver event s = (.ok (), t)) :
    ∃ start', t.InOrder start' ∧ (engine.evaluator.ReadsOnly → start' = start) := by
  have hends : ∀ boundary, event = boundary →
      (Capture.firstText text use).feed event = (.firstText text use, some boundary) →
      ∃ start', t.InOrder start' ∧ (engine.evaluator.ReadsOnly → start' = start) := by
    rintro boundary rfl hfeed
    rw [deliver_done hcaptures hfeed] at hdeliver
    obtain ⟨-, rfl⟩ := Prod.mk.inj hdeliver
    exact State.InOrder.goesOn (s := { s with captures := [], queue := .event event :: s.queue })
      rfl hsound h (useText_goesOn engine use text _)
  have hkept : ∀ text', (Capture.firstText text use).feed event = (.firstText text' use, none) →
      Capture.shift event = 0 →
      ∃ start', t.InOrder start' ∧ (engine.evaluator.ReadsOnly → start' = start) := by
    intro text' hfeed hevent
    rw [deliver_pending hcaptures hfeed] at hdeliver
    obtain ⟨-, rfl⟩ := Prod.mk.inj hdeliver
    exact ⟨start, heard_inOrder hsound h hevent, fun _ => rfl⟩
  cases event with
  | start name => exact hends _ rfl rfl
  | close => exact hends _ rfl rfl
  | text content => exact hkept _ rfl rfl
  | attr name value => exact hkept _ rfl rfl

theorem closes_tail {depth : Nat} {event : Event} {events : List Event}
    (h : Closes depth (event :: events)) :
    ∃ depth' : Nat, (depth : Int) + Capture.shift event = depth' ∧ Closes depth' events := by
  cases event with
  | start name => exact ⟨depth + 1, rfl, h⟩
  | close =>
    cases depth with
    | zero => exact h.elim
    | succ depth => exact ⟨depth, by simp only [Capture.shift]; omega, h⟩
  | text content => exact ⟨depth, by simp [Capture.shift], h⟩
  | attr name value => exact ⟨depth, by simp [Capture.shift], h⟩

theorem body_close_inOrder {discard : Bool} {buffer : List Event} {use : BodyUse}
    (hcaptures : s.captures = [.subLevel 0 discard buffer use]) (hsound : s.levels.Sound)
    (h : ({ s with queue := .event .close :: s.queue } : State).Within start 0 [])
    (hbody : use.Gathers discard buffer)
    (hstrands : (⟨s, .event .close⟩ : Worked).strands = false)
    (hdeliver : engine.deliver .close s = (.ok (), t)) : t.InOrder start := by
  rw [deliver_done hcaptures rfl] at hdeliver
  rcases hshift : ({ s with captures := [] } : State).shiftLevel with fault | ⟨close, closed⟩
  · rw [complete_subLevel_error hshift] at hdeliver
    simp at hdeliver
  · rw [complete_subLevel hshift] at hdeliver
    obtain ⟨-, rfl⟩ := Prod.mk.inj hdeliver
    obtain ⟨hnone, hlevels, horderly⟩ := State.InOrder.shiftLevel
      (s := { s with captures := [] }) rfl hsound h.orderly hshift
    refine .useBody use hnone hlevels horderly hbody ?_
    rintro rfl
    simpa [Worked.strands, hcaptures, Capture.feed, Capture.shift, hshift] using hstrands

theorem body_inOrder {event : Event} {depth : Nat} {discard : Bool}
    {buffer inside : List Event} {use : BodyUse}
    (hcaptures : s.captures = [.subLevel depth discard buffer use]) (hsound : s.levels.Sound)
    (h : ({ s with queue := .event event :: s.queue } : State).Within start depth inside)
    (hbody : use.Gathers discard (buffer ++ inside))
    (hstrands : (⟨s, .event event⟩ : Worked).strands = false)
    (hdeliver : engine.deliver event s = (.ok (), t)) : t.InOrder start := by
  obtain ⟨outer, rest, hhooks, hitems, hinside, hrest⟩ := id h
  cases inside with
  | nil =>
    obtain ⟨hevent, -⟩ := List.cons.inj hitems
    obtain rfl : event = .close := Queued.event.inj hevent
    obtain rfl : depth = 0 := hinside
    rw [List.append_nil] at hbody
    exact body_close_inOrder hcaptures hsound h hbody hstrands hdeliver
  | cons first inside =>
    obtain ⟨hfirst, hrest'⟩ := List.cons.inj hitems
    obtain rfl : event = first := Queued.event.inj hfirst
    obtain ⟨depth', hdepth, hinside'⟩ := closes_tail hinside
    have hfeed : (Capture.subLevel depth discard buffer use).feed event =
        (.subLevel depth' discard (if discard then buffer else buffer ++ [event]) use, none) := by
      have hnot : ¬ (depth' : Int) < 0 := by omega
      simp [Capture.feed, hdepth, hnot]
    rw [deliver_pending hcaptures hfeed] at hdeliver
    obtain ⟨-, rfl⟩ := Prod.mk.inj hdeliver
    exact ⟨hsound, .body ⟨outer, rest, hhooks, hrest', hinside', hrest⟩ hbody.moved⟩

theorem callback_inOrder {callback : Callback} (hcaptures : s.captures = [])
    (hsound : s.levels.Sound)
    (h : Orderly start s.levels.hooks (.callback callback :: s.queue) s.markers s.scope) :
    (callback.run s).InOrder start := by
  rcases h.callback_cases with ⟨overlay, loop, rfl, hbody, horderly⟩ |
    ⟨overlay, outer, rfl, hmarkers, horderly⟩ |
    ⟨overlay, outer, hooks, inside, rest, rfl, hmarkers, hhooks, hqueue, hinside, horderly⟩ |
    ⟨overlay, selectedStart, outer, rfl, hmarkers, horderly⟩
  · exact .play loop (s := s.release overlay) hcaptures hsound hbody horderly
  · rw [Callback.run_bodyDone_beside hmarkers]
    exact .of_orderly hcaptures hsound horderly
  · rw [Callback.run_bodyDone_dropped hmarkers]
    exact .captureBody (s := { s.release overlay with markers := outer }) hcaptures hsound
      ⟨hooks, rest, hhooks, hqueue, hinside, horderly⟩ trivial
  · rw [Callback.run_bodyDone_claimed hmarkers]
    exact .of_orderly hcaptures hsound horderly

/-- A step keeps the state in order, unless it strands a body.  Where the overlays lead back to only
changes when an expression sets variables. -/
theorem step_inOrder {item : Queued} {queue : Queue}
    (h : s.InOrder start) (hqueue : s.queue = item :: queue)
    (hstep : engine.step item { s with queue } = (.ok (), t))
    (hstrands : (⟨{ s with queue }, item⟩ : Worked).strands = false) :
    ∃ start', t.InOrder start' ∧ (engine.evaluator.ReadsOnly → start' = start) := by
  cases item with
  | event event =>
    obtain ⟨hsound, hwaits⟩ := h
    have hsame : ({ s with queue := .event event :: queue } : State) = s := by rw [← hqueue]
    generalize hcaptures : s.captures = captures at hwaits
    cases hwaits with
    | nobody horderly =>
      rw [hqueue] at horderly
      have hroute : engine.route event { s with queue } = (.ok (), t) :=
        (deliver_of_nil (s := { s with queue }) hcaptures).symm.trans hstep
      exact ⟨start, route_inOrder (s := { s with queue }) hcaptures hsound horderly hroute,
        fun _ => rfl⟩
    | argument hwithin =>
      exact argument_inOrder (s := { s with queue }) hcaptures hsound (hsame.symm ▸ hwithin) hstep
    | body hwithin hbody =>
      exact ⟨start, body_inOrder (s := { s with queue }) hcaptures hsound (hsame.symm ▸ hwithin)
        hbody hstrands hstep, fun _ => rfl⟩
  | callback callback =>
    obtain ⟨-, rfl⟩ := Prod.mk.inj hstep
    obtain ⟨hcaptures, horderly⟩ := h.orderly_of_ne_event (by simp [hqueue])
    rw [hqueue] at horderly
    exact ⟨start, callback_inOrder (s := { s with queue }) hcaptures h.sound horderly, fun _ => rfl⟩

/-! ## Sessions -/

theorem Worked.strands_ahead {events : List Event} {u : State}
    (h : Ahead (events.map .event) s u) (item : Queued)
    (hstrands : (⟨s, item⟩ : Worked).strands = false) : (⟨u, item⟩ : Worked).strands = false := by
  cases item with
  | callback callback => rfl
  | event event =>
    rcases hcaptures : s.captures with _ | ⟨capture, captures⟩
    · simp only [Worked.strands, h.captures, hcaptures]
    · have hpopped := h.withCaptures captures
      simp only [Worked.strands, h.captures, hcaptures] at hstrands ⊢
      split
      · rename_i hfeed hshift
        rcases hshift' : ({ s with captures } : State).shiftLevel with fault | ⟨close, closed⟩
        · rw [hpopped.shiftLevel_error hshift'] at hshift
          simp at hshift
        · obtain ⟨v, hv, hclosed⟩ := hpopped.shiftLevel_ok hshift'
          obtain ⟨rfl, rfl⟩ := Prod.mk.inj (Except.ok.inj (hv.symm.trans hshift))
          rw [hfeed, hshift'] at hstrands
          exact hclosed.strands hstrands
      · rfl

/-- When only events are in the queue, no body that runs can still let anything through. -/
theorem noneOpen_of_inOrder (h : s.InOrder start)
    (hqueue : ∀ callback, .callback callback ∉ s.queue) : s.markers.NoneOpen := by
  have hnone : ∀ {hooks queue}, Orderly start hooks queue s.markers s.scope →
      (∀ callback, .callback callback ∉ queue) → s.markers.NoneOpen := by
    intro hooks queue horderly hevents marker hmem
    cases marker with
    | claimed => rfl
    | opened n =>
      obtain ⟨callback, rest, hsuffix, -⟩ := horderly.exists_suffix_of_opened hmem
      exact absurd (hsuffix.subset List.mem_cons_self) (hevents callback)
  have hinside : ∀ {depth inside}, s.Within start depth inside → s.markers.NoneOpen := by
    rintro depth inside ⟨outer, rest, -, hitems, -, horderly⟩
    refine hnone horderly fun callback hmem => hqueue callback ?_
    rw [hitems]
    exact List.mem_append_right _ (List.mem_cons_of_mem _ hmem)
  have hwaits := h.waits
  generalize s.captures = captures at hwaits
  cases hwaits with
  | nobody horderly => exact hnone horderly hqueue
  | argument hwithin => exact hinside hwithin
  | body hwithin hbody => exact hinside hwithin

/-- A whole session keeps the state in order, with the events that are still to come behind the
queue. -/
theorem Session.inOrder (hreads : engine.evaluator.ReadsOnly) {events : List Event}
    {trace : List Worked} (h : engine.Session events s trace t) {u : State}
    (hahead : Ahead (events.map .event) s u) (horder : u.InOrder start)
    (hstrands : ∀ worked ∈ trace, worked.strands = false) :
    ∃ v, Ahead [] t v ∧ v.InOrder start ∧ v.queue = [] := by
  induction h generalizing u with
  | finished s hqueue => exact ⟨u, hahead, horder, by rw [hahead.queue, hqueue]; rfl⟩
  | @take event events s t trace hqueue rest ih =>
    have hitems : u.queue = (event :: events).map .event := by
      rw [hahead.queue, hqueue, List.nil_append]
    have hnone : u.markers.NoneOpen :=
      noneOpen_of_inOrder horder fun callback hmem => by simp [hitems] at hmem
    exact ih (hahead.exchange hnone _ u.queue hitems) horder hstrands
  | @work events s s' t item queue trace hqueue hstep rest ih =>
    have hitems : u.queue = item :: (queue ++ events.map .event) := by
      rw [hahead.queue, hqueue, List.cons_append]
    have hpopped : Ahead (events.map .event) { s with queue }
        { u with queue := queue ++ events.map .event } := { hahead with queue := rfl }
    obtain ⟨u', hstep', hahead'⟩ := step_ahead engine hpopped item hstep
    have hnot := Worked.strands_ahead hpopped item (hstrands _ List.mem_cons_self)
    obtain ⟨start', horder', hstart⟩ := step_inOrder horder hitems hstep' hnot
    rw [hstart hreads] at horder'
    exact ih hahead' horder' fun worked hmem => hstrands worked (List.mem_cons_of_mem _ hmem)

theorem Session.halted {events : List Event} {trace : List Worked}
    (h : engine.Session events s trace t) : t.halted = s.halted := by
  induction h with
  | finished s hqueue => rfl
  | take hqueue rest ih => exact ih
  | @work events s s' t item queue trace hqueue hstep rest ih =>
    have hkept := step_halted engine item { s with queue }
    rw [hstep] at hkept
    exact ih.trans hkept

theorem Session.over_of_balanced (hreads : engine.evaluator.ReadsOnly) {document : List Event}
    (hdocument : Balanced document) {scope : Scope} {trace : List Worked}
    (h : engine.Session document { scope } trace t)
    (hstrands : ∀ worked ∈ trace, worked.strands = false) :
    t.markers = [] ∧ t.captures = [] ∧ t.levels.around = [] ∧ t.scope = scope := by
  have hahead : Ahead (document.map .event) { scope }
      { scope, queue := document.map .event } := ⟨rfl, rfl, rfl, rfl, rfl, rfl, rfl, rfl⟩
  have horderly : Orderly scope [] (document.map .event) [] scope := by
    have hended : Orderly scope [] [] [] scope := .ended
    simpa using hended.behind hdocument
  have horder : ({ scope, queue := document.map .event } : State).InOrder scope :=
    .of_orderly rfl .root horderly
  obtain ⟨v, hend, hv, hempty⟩ := h.inOrder hreads hahead horder hstrands
  obtain ⟨hcaptures, horderly⟩ := hv.orderly_of_ne_event (by simp [hempty])
  rw [hempty] at horderly
  obtain ⟨hhooks, hmarkers, hscope⟩ := horderly.nil
  refine ⟨?_, hend.captures ▸ hcaptures, ?_, hend.scope ▸ hscope⟩
  · exact List.map_eq_nil_iff.1 (hend.markers ▸ hmarkers)
  · exact hend.levels ▸ Levels.around_of_hooks_eq_nil hhooks

/-- Of the callbacks that a balanced stream puts into the queue, as many are forsaken as overlays
stay installed, and all others are run once.  When no body is stranded on the way, none is forsaken,
nothing stays open, and all variables are what they were. -/
theorem bodies_complete (engine : Engine) (hreads : engine.evaluator.ReadsOnly) (vars : Vars)
    {document : List Event} (hdocument : Balanced document) {steps : Nat} {t : State}
    (h : engine.submitAll steps document { scope := ⟨vars, 0⟩ } = some (.ok (), t)) :
    let trace := engine.trace steps document { scope := ⟨vars, 0⟩ }
    (∃ forsaken, engine.played trace = ran trace + forsaken ∧
        forsaken.card = t.scope.overlays) ∧
      ((∀ worked ∈ trace, worked.strands = false) →
        engine.played trace = ran trace ∧ t.markers = [] ∧ t.captures = [] ∧
          t.scope = ⟨vars, 0⟩ ∧ t.finish = (.ok (), t)) := by
  have hsession := session_of_submitAll rfl h
  have hfresh := hsession.accounts_fresh rfl rfl
  refine ⟨hfresh, ?_⟩
  intro hstrands
  obtain ⟨hmarkers, hcaptures, haround, hscope⟩ :=
    hsession.over_of_balanced hreads hdocument hstrands
  obtain ⟨forsaken, hplayed, hcard⟩ := hfresh
  have hnone : forsaken = 0 := by
    rw [hscope] at hcard
    exact Multiset.card_eq_zero.1 hcard
  have hhalted : t.halted = false := hsession.halted
  refine ⟨by rw [hplayed, hnone, add_zero], hmarkers, hcaptures, hscope, ?_⟩
  simp [State.finish, hhalted, Levels.depth, haround, hcaptures, hmarkers]

/-- A body for texts, with a wrapper around its hole: the element around the text closes in place
of the wrapper. -/
theorem bodies_complete_wrapped :
    let engine : Engine := { evaluator := fun _ _ => ⟨.ok .null, []⟩ }
    let document : List Event := [.start "::", .text "TEXT", .start "i", .start ":through", .close,
      .close, .close, .start "a", .text "x", .start "b", .close, .close]
    engine.evaluator.ReadsOnly ∧ Balanced document ∧
      (∀ worked ∈ engine.trace 20 document {}, worked.strands = false) ∧
      ∃ t, engine.submitAll 20 document {} = some (.ok (), t) ∧
        engine.played (engine.trace 20 document {}) = ran (engine.trace 20 document {}) ∧
        t.scope = Scope.empty ∧ t.finish = (.ok (), t) := by
  intro engine document
  have hreads : engine.evaluator.ReadsOnly := fun _ _ => rfl
  have hdocument : Balanced document := rfl
  have hstrands : ∀ worked ∈ engine.trace 20 document {}, worked.strands = false := by
    decide +kernel
  have hok : (engine.submitAll 20 document {}).any (fun answer => answer.1.isOk) = true := by
    decide +kernel
  rcases hsubmit : engine.submitAll 20 document {} with _ | ⟨fault | ⟨⟩, t⟩ <;>
    rw [hsubmit] at hok <;> simp [Except.isOk, Except.toBool] at hok
  obtain ⟨-, hcomplete⟩ := bodies_complete engine hreads Table.empty hdocument hsubmit
  obtain ⟨hplayed, -, -, hscope, hfinish⟩ := hcomplete hstrands
  exact ⟨hreads, hdocument, hstrands, t, rfl, hplayed, hscope, hfinish⟩

/-- Two texts in one element: the second body that is let through takes the place of the first,
which never ends. -/
theorem bodies_incomplete_beside :
    let engine : Engine := { evaluator := fun _ _ => ⟨.ok .null, []⟩ }
    let document : List Event := [.start "::", .text "TEXT", .start ":through", .close, .close,
      .start "a", .text "one", .start "b", .close, .text "two", .close]
    engine.evaluator.ReadsOnly ∧ Balanced document ∧
      ∃ t, engine.submitAll 20 document {} = some (.ok (), t) ∧
        engine.played (engine.trace 20 document {}) ≠ ran (engine.trace 20 document {}) ∧
        t.markers ≠ [] ∧ t.scope.overlays ≠ 0 ∧ t.scope.get? "_" ≠ none ∧
        t.finish.1 ≠ .ok () := by
  intro engine document
  have hreads : engine.evaluator.ReadsOnly := fun _ _ => rfl
  have hdocument : Balanced document := rfl
  have hleft : (engine.submitAll 20 document {}).any (fun answer => answer.1.isOk &&
      (answer.2.markers.length == 1 && answer.2.scope.overlays == 1 &&
        (answer.2.scope.get? "_").isSome && !answer.2.finish.1.isOk)) = true := by
    decide +kernel
  rcases hsubmit : engine.submitAll 20 document {} with _ | ⟨fault | ⟨⟩, t⟩ <;>
    rw [hsubmit] at hleft <;>
    simp only [Option.any_none, Option.any_some, Except.isOk, Except.toBool, Bool.true_and,
      Bool.false_and, Bool.and_eq_true, beq_iff_eq, Bool.not_eq_true', Bool.false_eq_true] at hleft
  obtain ⟨⟨⟨hmarkers, hoverlays⟩, hvariable⟩, hfinish⟩ := hleft
  refine ⟨hreads, hdocument, t, rfl, ?_, ?_, by omega, ?_, ?_⟩
  · obtain ⟨forsaken, hplayed, hcard⟩ := (session_of_submitAll rfl hsubmit).accounts_fresh rfl rfl
    intro hall
    rw [hall, left_eq_add] at hplayed
    rw [hplayed, hoverlays] at hcard
    simp at hcard
  · intro hnone
    simp [hnone] at hmarkers
  · intro hnone
    simp [hnone] at hvariable
  · intro hok
    simp [hok] at hfinish

end Engine
end TreeStream
