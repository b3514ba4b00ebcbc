import TreeStream.Proofs.Moves
import TreeStream.Proofs.Suspension
import TreeStream.Proofs.Unclosed

/-!
# Splicing

A body that lets its element through takes what it has left out of the queue.  Where that ends is
told by its marker, as a length of the queue that was recorded when the body began, and everything
that happens meanwhile puts items in front of there and cuts them off.

* `Engine.Reaches s trace t`: the engine can come from `s` to `t`, with any events submitted.
* `State.Expects n s`: all that is open will close in order, if `n` closes follow.
* `Body.Runs body s`: what the body has left is at the head of the queue, with its callback last,
  and its marker is open and within reach once the bodies inside are over.
* `Engine.Reaches.runs`: that stays so until the callback runs or the marker is claimed.
* `Engine.through_splices`: the claim cuts off what the body has left, and nothing else.
-/

namespace TreeStream
set_option autoImplicit false

/-! ## Events that are still to come -/

theorem Balanced.insert {before after more : List Event} (h : Balanced (before ++ after))
    (hmore : Balanced more) : Balanced (before ++ (more ++ after)) := by
  rw [balanced_iff_unclosed, unclosed_append] at h ⊢
  simpa only [unclosed_append, unclosed_balanced _ hmore, Option.bind_some] using h

namespace State

variable {start : Scope} {s : State} {more : List Event}

theorem Within.prepend {depth : Nat} {inside : List Event} (h : s.Within start depth inside)
    (hmore : Balanced more) :
    ({ s with queue := more.map .event ++ s.queue } : State).Within start depth
      (more ++ inside) := by
  obtain ⟨outer, rest, hhooks, hqueue, hinside, hrest⟩ := h
  have hboth : Closes (0 + depth) (more ++ inside) := Closes.append hmore hinside
  exact ⟨outer, rest, hhooks, by simp [hqueue], by simpa using hboth, hrest⟩

theorem InOrder.prepend (h : s.InOrder start) (hmore : Balanced more) :
    ({ s with queue := more.map .event ++ s.queue } : State).InOrder start := by
  obtain ⟨hsound, hwaits⟩ := h
  refine ⟨hsound, ?_⟩
  generalize s.captures = captures at hwaits ⊢
  cases hwaits with
  | nobody horderly => exact .nobody (horderly.behind hmore)
  | argument hwithin => exact .argument (hwithin.prepend hmore)
  | @body depth discard buffer inside use hwithin hbody =>
    refine .body (hwithin.prepend hmore) ?_
    cases use with
    | loop item index items => exact ⟨hbody.1, hbody.2.insert hmore⟩
    | register selector binding => exact ⟨hbody.1, hbody.2.insert hmore⟩
    | _ => trivial

/-- With so many closes more, all that is open will have been closed in order. -/
def Expects (n : Nat) (s : State) : Prop :=
  ∃ start v, Ahead ((List.replicate n Event.close).map .event) s v ∧ v.InOrder start

/-- The event that was submitted closes more than has been opened. -/
def Refuses (s : State) : Prop :=
  s.queue = [.event .close] ∧ s.captures = [] ∧ s.levels.around = []

theorem expects_fresh (scope : Scope) : ({ scope } : State).Expects 0 :=
  ⟨scope, { scope }, ⟨rfl, rfl, rfl, rfl, rfl, rfl, rfl, rfl⟩, .of_orderly rfl .root .ended⟩

theorem Expects.step {engine : Engine} {n : Nat} {item : Queued} {queue : Queue} {t : State}
    (h : s.Expects n) (hqueue : s.queue = item :: queue)
    (hstep : engine.step item { s with queue } = (.ok (), t))
    (hstrands : (⟨{ s with queue }, item⟩ : Engine.Worked).strands = false) : t.Expects n := by
  obtain ⟨start, v, hahead, horder⟩ := h
  have hitems : v.queue = item :: (queue ++ (List.replicate n Event.close).map .event) := by
    rw [hahead.queue, hqueue, List.cons_append]
  have hpopped : Ahead ((List.replicate n Event.close).map .event) { s with queue }
      { v with queue := queue ++ (List.replicate n Event.close).map .event } :=
    { hahead with queue := rfl }
  obtain ⟨v', hstep', hahead'⟩ := Engine.step_ahead engine hpopped item hstep
  have hnot := Engine.Worked.strands_ahead hpopped item hstrands
  obtain ⟨start', horder', -⟩ := Engine.step_inOrder horder hitems hstep' hnot
  exact ⟨start', v', hahead', horder'⟩

/-- An event that is submitted begins an element or belongs to one or closes one, unless there is
none to be closed. -/
theorem Expects.take {n : Nat} (h : s.Expects n) (hqueue : s.queue = []) (event : Event) :
    (∃ m, ({ s with queue := [.event event] } : State).Expects m) ∨
      ({ s with queue := [.event event] } : State).Refuses := by
  obtain ⟨start, v, hahead, horder⟩ := h
  have hitems : v.queue = (List.replicate n Event.close).map .event := by
    rw [hahead.queue, hqueue, List.nil_append]
  have hnone : v.markers.NoneOpen :=
    Engine.noneOpen_of_inOrder horder fun callback hmem => by simp [hitems] at hmem
  have hbegin : ∀ k, Balanced (event :: List.replicate k .close) →
      ∃ m, ({ s with queue := [.event event] } : State).Expects m := by
    intro k hk
    refine ⟨k + n, start, _, hahead.exchange hnone _ _ ?_, horder.prepend hk⟩
    simp only [hitems, List.replicate_add, List.map_cons, List.map_append, List.cons_append,
      List.nil_append]
  cases event with
  | start name => exact .inl (hbegin 1 rfl)
  | text content => exact .inl (hbegin 0 rfl)
  | attr name value => exact .inl (hbegin 0 rfl)
  | close =>
    cases n with
    | succ n => exact .inl ⟨n, start, v, hahead.exchange hnone _ v.queue hitems, horder⟩
    | zero =>
      have hempty : v.queue = [] := hitems
      obtain ⟨hcaptures, horderly⟩ := horder.orderly_of_ne_event (by simp [hempty])
      rw [hempty, hahead.levels] at horderly
      exact .inr ⟨rfl, hahead.captures ▸ hcaptures, Levels.around_of_hooks_eq_nil horderly.nil.1⟩

theorem Refuses.not_step {engine : Engine} {item : Queued} {queue : Queue} {t : State}
    (h : s.Refuses) (hqueue : s.queue = item :: queue) :
    engine.step item { s with queue } ≠ (.ok (), t) := by
  obtain ⟨hitems, hcaptures, haround⟩ := h
  obtain ⟨rfl, rfl⟩ := List.cons.inj (hqueue.symm.trans hitems)
  have hfault := Engine.step_close_unmatched (s := { s with queue := [] }) engine hcaptures haround
  simp [hfault]

end State

namespace Engine

variable {engine : Engine} {s t u : State} {trace : List Worked}

/-! ## Whatever is submitted -/

/-- `engine.Reaches s trace t`: from `s` the items of the trace are worked on, an event being
submitted whenever the queue is empty, and then the state is `t`. -/
inductive Reaches (engine : Engine) : State → List Worked → State → Prop
  | refl (s : State) : Reaches engine s [] s
  | take {s t : State} {trace : List Worked} (hqueue : s.queue = []) (event : Event)
      (rest : Reaches engine { s with queue := [.event event] } trace t) :
      Reaches engine s trace t
  | work {s s' t : State} {item : Queued} {queue : Queue} {trace : List Worked}
      (hqueue : s.queue = item :: queue)
      (hstep : engine.step item { s with queue } = (.ok (), s'))
      (rest : Reaches engine s' trace t) :
      Reaches engine s (⟨{ s with queue }, item⟩ :: trace) t

theorem Reaches.trans {later : List Worked} (h1 : engine.Reaches s trace t)
    (h2 : engine.Reaches t later u) : engine.Reaches s (trace ++ later) u := by
  induction h1 with
  | refl s => exact h2
  | take hqueue event rest ih => exact .take hqueue event (ih h2)
  | work hqueue hstep rest ih => exact .work hqueue hstep (ih h2)

theorem Session.reaches {events : List Event} (h : engine.Session events s trace t) :
    engine.Reaches s trace t := by
  induction h with
  | finished s hqueue => exact .refl s
  | take hqueue rest ih => exact .take hqueue _ ih
  | work hqueue hstep rest ih => exact .work hqueue hstep ih

/-- The state after work on so many items, unless they are not there or one of them is a fault. -/
def advance (engine : Engine) : Nat → State → Option State
  | 0, s => some s
  | n + 1, s =>
    match s.queue with
    | [] => none
    | item :: queue =>
      match engine.step item { s with queue } with
      | (.error _, _) => none
      | (.ok (), t) => advance engine n t

theorem reaches_of_advance {n : Nat} (h : engine.advance n s = some t) :
    engine.Reaches s (engine.drainTrace n s) t := by
  fun_induction advance engine n s with
  | case1 s =>
    obtain rfl : s = t := Option.some.inj h
    exact .refl s
  | case2 n s hqueue => simp at h
  | case3 n s item queue hqueue fault s' hstep => simp at h
  | case4 n s item queue hqueue s' hstep ih =>
    rw [drainTrace_succ_of_ok hqueue hstep]
    exact .work hqueue hstep (ih h)

/-- However the stream goes on, what is open closes in order, as long as no body is stranded. -/
theorem Reaches.expects (h : engine.Reaches s trace t)
    (hs : (∃ n, s.Expects n) ∨ s.Refuses)
    (hstrands : ∀ worked ∈ trace, worked.strands = false) : (∃ n, t.Expects n) ∨ t.Refuses := by
  induction h with
  | refl s => exact hs
  | take hqueue event rest ih =>
    rcases hs with ⟨n, hn⟩ | hrefuses
    · exact ih (hn.take hqueue event) hstrands
    · rw [hrefuses.1] at hqueue
      simp at hqueue
  | work hqueue hstep rest ih =>
    obtain ⟨hfirst, hlater⟩ := List.forall_mem_cons.1 hstrands
    rcases hs with ⟨n, hn⟩ | hrefuses
    · exact ih (.inl ⟨n, hn.step hqueue hstep hfirst⟩) hlater
    · exact absurd hstep (hrefuses.not_step hqueue)

/-! ## Letting an element through -/

/-- The state in which the work lets an element through, if it does. -/
def Worked.lets? (worked : Worked) : Option State :=
  match worked.item, worked.before.captures with
  | .event event, capture :: captures =>
    match capture.feed event, { worked.before with captures }.shiftLevel with
    | (.subLevel _ _ _ .through, some _), .ok (_, closed) => some closed
    | _, _ => none
  | _, _ => none

theorem Worked.of_lets? {worked : Worked} (h : worked.lets? = some t) :
    ∃ event boundary capture captures depth discard buffer close,
      worked.item = .event event ∧ worked.before.captures = capture :: captures ∧
      capture.feed event = (.subLevel depth discard buffer .through, some boundary) ∧
      ({ worked.before with captures } : State).shiftLevel = .ok (close, t) := by
  rcases worked with ⟨s, event | callback⟩
  · rcases hcaptures : s.captures with _ | ⟨capture, captures⟩ <;>
      simp only [Worked.lets?, hcaptures] at h
    · simp at h
    · split at h
      · rename_i hfeed hshift
        obtain rfl := Option.some.inj h
        exact ⟨event, _, capture, captures, _, _, _, _, rfl, rfl, hfeed, hshift⟩
      · simp at h
  · simp [Worked.lets?] at h

theorem step_of_lets? {worked : Worked} (h : worked.lets? = some t) :
    engine.step worked.item worked.before = (.ok (), t.letThrough) := by
  obtain ⟨event, boundary, capture, captures, depth, discard, buffer, close, hitem, hcaptures,
    hfeed, hshift⟩ := Worked.of_lets? h
  rw [hitem]
  exact (deliver_done hcaptures hfeed).trans (complete_subLevel hshift)

end Engine

/-! ## A body that runs -/

/-- A deferred body that runs: the callback that ends it, what is behind it in the queue, and the
markers of the bodies around it. -/
structure Body where
  callback : Callback
  behind : Queue
  outer : Markers

/-- What the body has left is at the head of the queue, up to its callback.  Its marker is open, and
those of the bodies inside end sooner. -/
def Body.Runs (body : Body) (s : State) : Prop :=
  ∃ front above, s.queue = front ++ .callback body.callback :: body.behind ∧
    s.markers = above ++ .opened body.behind.length :: body.outer ∧
    ∀ n, .opened n ∈ above → body.behind.length < n

namespace Engine.Worked

/-- The work runs the callback of the body. -/
def Completes (worked : Worked) (body : Body) : Prop :=
  worked.item = .callback body.callback ∧ worked.before.queue = body.behind

/-- The work lets an element through and claims the marker of the body for it. -/
def Claims (worked : Worked) (body : Body) : Prop :=
  ∃ s, worked.lets? = some s ∧ s.markers = .opened body.behind.length :: body.outer

end Engine.Worked

namespace Body.Runs

variable {body : Body} {s t : State}

theorem put (h : body.Runs s) (items : List Queued) (hqueue : t.queue = items ++ s.queue)
    (hmarkers : t.markers = s.markers) : body.Runs t := by
  obtain ⟨front, above, hitems, habove, hlonger⟩ := h
  exact ⟨items ++ front, above, by rw [hqueue, hitems, List.append_assoc], by rw [hmarkers, habove],
    hlonger⟩

theorem length_lt (h : body.Runs s) : body.behind.length < s.queue.length := by
  obtain ⟨front, above, hitems, -⟩ := h
  rw [hitems, List.length_append, List.length_cons]
  omega

theorem pop {item : Queued} {queue : Queue} (h : body.Runs s) (hqueue : s.queue = item :: queue)
    (hnot : ¬ (⟨{ s with queue }, item⟩ : Engine.Worked).Completes body) :
    body.Runs { s with queue } := by
  obtain ⟨front, above, hitems, habove, hlonger⟩ := h
  rw [hqueue] at hitems
  rcases front with _ | ⟨first, front⟩
  · obtain ⟨rfl, rfl⟩ := List.cons.inj hitems
    exact absurd ⟨rfl, rfl⟩ hnot
  · exact ⟨front, above, (List.cons.inj hitems).2, habove, hlonger⟩

/-- Another body begins inside. -/
theorem fire (h : body.Runs s) (items : List Queued) (hqueue : t.queue = items ++ s.queue)
    (hmarkers : t.markers = .opened s.queue.length :: s.markers) : body.Runs t := by
  have hlength := h.length_lt
  obtain ⟨front, above, hitems, habove, hlonger⟩ := h
  refine ⟨items ++ front, .opened s.queue.length :: above, ?_, ?_, ?_⟩
  · rw [hqueue, hitems, List.append_assoc]
  · rw [hmarkers, habove, List.cons_append]
  · intro n hn
    rcases List.mem_cons.1 hn with hfirst | hmem
    · obtain rfl := Marker.opened.inj hfirst
      exact hlength
    · exact hlonger n hmem

theorem forward (h : body.Runs s) (keys : List String) (event : Event) :
    body.Runs (s.forward keys event) := by
  unfold State.forward
  rcases s.levels.lookup keys with _ | (⟨events, binding⟩ | first)
  · exact h.put [] rfl rfl
  · exact h.fire (events.map .event ++ [.callback _])
      (by simp [Handler.run, State.playBuffer, State.install, Queue.replay]; rfl) rfl
  · exact h.put [] rfl rfl

theorem play (h : body.Runs s) (loop : Loop) : body.Runs (loop.play s) := by
  unfold Loop.play
  cases loop.left with
  | nil => exact h
  | cons item left =>
    exact h.put (loop.body.map .event ++ [.callback _])
      (by simp [State.playBuffer, State.install, Queue.replay]; rfl) rfl

theorem shiftLevel (h : body.Runs s) {close : LevelClose} (hshift : s.shiftLevel = .ok (close, t)) :
    body.Runs t := by
  obtain ⟨level, outer, -, ⟨-, -, rfl⟩ | ⟨_ | stash | ⟨shown, close'⟩, -, hrun⟩⟩ :=
    State.shiftLevel_cases hshift
  · exact h.put [] rfl rfl
  all_goals obtain ⟨-, rfl⟩ := Prod.mk.inj hrun
  · exact h.put [] rfl rfl
  · exact h.put stash rfl rfl
  · exact h.put [] rfl rfl

/-- A body inside claims its own marker and cuts off what it has left itself. -/
theorem letThrough (h : body.Runs s)
    (hnot : s.markers ≠ .opened body.behind.length :: body.outer) : body.Runs s.letThrough := by
  obtain ⟨front, above, hitems, habove, hlonger⟩ := h
  rcases above with _ | ⟨_ | _, above⟩
  · exact absurd habove hnot
  · rename_i n
    have hn := hlonger n List.mem_cons_self
    generalize hsize : s.queue.length - n = count
    have hcount : count ≤ front.length := by
      rw [hitems, List.length_append, List.length_cons] at hsize
      omega
    refine ⟨front.drop count, .claimed :: above, ?_, ?_, ?_⟩
    · simp only [State.letThrough, habove, List.cons_append, Markers.claim, hsize, Queue.takeFront,
        State.setOnEnd]
      rw [hitems, List.drop_append_of_le_length hcount]
    · simp [State.letThrough, habove, Markers.claim, State.setOnEnd]
    · intro m hm
      exact hlonger m (List.mem_cons_of_mem _ (by simpa using hm))
  · have hsame : s.letThrough = s.tell (.misuse .throughTwice) := by
      simp [State.letThrough, habove, Markers.claim]
    exact ⟨front, .claimed :: above, hsame ▸ hitems, hsame ▸ habove, hlonger⟩

/-- A body inside ends, or a round of a loop. -/
theorem callback (h : body.Runs s) {callback : Callback}
    (htop : s.markers = .opened body.behind.length :: body.outer →
      ∃ overlay loop, callback = .roundDone overlay loop) : body.Runs (callback.run s) := by
  cases callback with
  | roundDone overlay loop =>
    have hreleased : body.Runs (s.release overlay) := h.put [] rfl rfl
    exact hreleased.play loop
  | announce event => exact h.put [] rfl rfl
  | bodyDone overlay selectedStart =>
    obtain ⟨front, above, hitems, habove, hlonger⟩ := h
    rcases above with _ | ⟨marker, above⟩
    · obtain ⟨overlay', loop, hround⟩ := htop habove
      simp at hround
    · have hkept : ((Callback.bodyDone overlay selectedStart).run s).queue = s.queue ∧
          ((Callback.bodyDone overlay selectedStart).run s).markers = s.markers.tail := by
        simp only [Callback.run]
        split <;> exact ⟨rfl, rfl⟩
      refine ⟨front, above, hkept.1.trans hitems, ?_, fun n hn =>
        hlonger n (List.mem_cons_of_mem _ hn)⟩
      rw [hkept.2, habove, List.cons_append, List.tail_cons]

end Body.Runs

namespace Engine

variable {engine : Engine} {body : Body} {s t : State} {trace : List Worked}

theorem Moves.runs {event : Event} (h : engine.Moves event s t) (hbody : body.Runs s)
    (hclaims : ¬ (⟨s, .event event⟩ : Worked).Claims body) : body.Runs t := by
  cases h with
  | forwarded hcaptures hforwards =>
    obtain ⟨hqueue, hmarkers⟩ := hforwards.unchanged
    exact (hbody.put [] hqueue hmarkers).forward _ _
  | suppressed hcaptures hshift => exact hbody.shiftLevel hshift
  | asked hcaptures huse => exact hbody.put [] rfl rfl
  | skipped hcaptures huse => exact hbody.put [] rfl rfl
  | heard hcaptures hevent text' => exact hbody.put [] rfl rfl
  | @continued event text use captures s hcaptures hevent =>
    have hagain : body.Runs { s with captures, queue := s.queue.pushFront event } :=
      hbody.put [.event event] rfl rfl
    have hgoes :=
      useText_goesOn engine use text { s with captures, queue := s.queue.pushFront event }
    generalize engine.useText use text _ = t at hgoes ⊢
    cases hgoes <;> exact hagain.put [] rfl rfl
  | gathered hcaptures hdepth => exact hbody.put [] rfl rfl
  | @completed event depth discard buffer use captures close s t hcaptures hdepth hshift =>
    have hpopped : body.Runs { s with captures } := hbody.put [] rfl rfl
    have hclosed := hpopped.shiftLevel hshift
    cases use with
    | drop => exact hclosed
    | loop item index items => exact hclosed.play _
    | register selector binding => exact hclosed.put [] rfl rfl
    | report tag => exact hclosed.put [] rfl rfl
    | through =>
      refine hclosed.letThrough fun hmarkers => hclaims ⟨t, ?_, hmarkers⟩
      simp [Worked.lets?, hcaptures, Capture.feed, hdepth, hshift]

/-- A body goes on running until it ends or lets its element through. -/
theorem step_runs {n : Nat} {item : Queued} {queue : Queue} (h : body.Runs s) (hs : s.Expects n)
    (hqueue : s.queue = item :: queue) (hstep : engine.step item { s with queue } = (.ok (), t))
    (hcompletes : ¬ (⟨{ s with queue }, item⟩ : Worked).Completes body)
    (hclaims : ¬ (⟨{ s with queue }, item⟩ : Worked).Claims body) : body.Runs t := by
  have hpopped := h.pop hqueue hcompletes
  cases item with
  | event event => exact (moves_of_step hstep).runs hpopped hclaims
  | callback callback =>
    obtain ⟨-, rfl⟩ := Prod.mk.inj hstep
    refine hpopped.callback fun hmarkers => ?_
    -- A body that ended here would have recorded more than the innermost marker has.
    obtain ⟨start, v, hahead, horder⟩ := hs
    have hitems : v.queue =
        .callback callback :: (queue ++ (List.replicate n Event.close).map .event) := by
      rw [hahead.queue, hqueue, List.cons_append]
    obtain ⟨-, horderly⟩ := horder.orderly_of_ne_event (by simp [hitems])
    have hrecorded : v.markers = .opened (body.behind.length + n) ::
        body.outer.map (Marker.shift n) := by
      have hown : s.markers = .opened body.behind.length :: body.outer := hmarkers
      simp [hahead.markers, hown, Marker.shift]
    have hlonger : ∀ outer, v.markers ≠
        .opened (queue ++ (List.replicate n Event.close).map Queued.event).length :: outer := by
      intro outer hown
      have hlength : body.behind.length < queue.length := hpopped.length_lt
      rw [hrecorded] at hown
      have hsame := Marker.opened.inj (List.cons.inj hown).1
      simp only [List.length_append, List.length_map, List.length_replicate] at hsame
      omega
    rw [hitems] at horderly
    rcases horderly.callback_cases with ⟨overlay, loop, rfl, -⟩ |
      ⟨overlay, outer, -, hown, -⟩ | ⟨overlay, outer, hooks, inside, rest, -, hown, -⟩ |
      ⟨overlay, selectedStart, outer, -, hclaimed, -⟩
    · exact ⟨overlay, loop, rfl⟩
    · exact absurd hown (hlonger outer)
    · exact absurd hown (hlonger outer)
    · rw [hrecorded] at hclaimed
      simp at hclaimed

theorem Reaches.runs (h : engine.Reaches s trace t) (hs : (∃ n, s.Expects n) ∨ s.Refuses)
    (hbody : body.Runs s) (hstrands : ∀ worked ∈ trace, worked.strands = false)
    (hnot : ∀ worked ∈ trace, ¬ worked.Completes body ∧ ¬ worked.Claims body) : body.Runs t := by
  -- Both invariants are carried along: a step keeps the body only where all closes in order.
  induction h with
  | refl s => exact hbody
  | take hqueue event rest ih =>
    have hlength := hbody.length_lt
    -- The queue is not empty while the body runs.
    simp [hqueue] at hlength
  | work hqueue hstep rest ih =>
    obtain ⟨hfirst, hlater⟩ := List.forall_mem_cons.1 hstrands
    obtain ⟨⟨hcompletes, hclaims⟩, hnot⟩ := List.forall_mem_cons.1 hnot
    rcases hs with ⟨n, hn⟩ | hrefuses
    · exact ih (.inl ⟨n, hn.step hqueue hstep hfirst⟩)
        (step_runs hbody hn hqueue hstep hcompletes hclaims) hlater hnot
    · exact absurd hstep (hrefuses.not_step hqueue)

/-- Work that claims the marker of the body cuts off what the body has left, and puts that where the
level closes. -/
theorem step_claims {item : Queued} {queue : Queue} (h : body.Runs s)
    (hqueue : s.queue = item :: queue)
    (hclaims : (⟨{ s with queue }, item⟩ : Worked).Claims body) :
    ∃ front v, (⟨{ s with queue }, item⟩ : Worked).lets? = some v ∧
      v.queue = front ++ .callback body.callback :: body.behind ∧
      engine.step item { s with queue } =
        (.ok (), { v with queue := body.behind, markers := .claimed :: body.outer }.setOnEnd
          (.resume (front ++ [Queued.callback body.callback]))) := by
  obtain ⟨v, hlets, hmarkers⟩ := hclaims
  obtain ⟨event, boundary, capture, captures, depth, discard, buffer, close, hitem, -, -, hshift⟩ :=
    Worked.of_lets? hlets
  have hpopped : body.Runs { s with queue } :=
    h.pop hqueue fun hcompletes => Queued.noConfusion (hitem.symm.trans hcompletes.1)
  have hcaught : body.Runs { s with queue, captures } := hpopped.put [] rfl rfl
  obtain ⟨front, above, hitems, -⟩ := hcaught.shiftLevel hshift
  have hsplit : v.queue = (front ++ [Queued.callback body.callback]) ++ body.behind := by
    simp [hitems]
  refine ⟨front, v, hlets, hitems, ?_⟩
  rw [← State.letThrough_opened hsplit hmarkers]
  exact step_of_lets? hlets

/-- A body begins with all that it has in front of what is behind its event, and an open marker. -/
theorem runs_forward {keys : List String} {events : List Event} {binding : Option String}
    (event : Event) (hhandler : s.levels.lookup keys = some (.deferred events binding)) :
    ∃ overlay, (s.forward keys event).queue =
        events.map .event ++ .callback (.bodyDone overlay event.isStart) :: s.queue ∧
      (⟨.bodyDone overlay event.isStart, s.queue, s.markers⟩ : Body).Runs
        (s.forward keys event) := by
  have hrun : s.forward keys event = (Handler.deferred events binding).run event s := by
    simp [State.forward, hhandler]
  rw [hrun]
  exact ⟨_, rfl, events.map .event, [], rfl, rfl, by simp⟩

/-- Any handler of any stream fires on an event with some items behind it.  Until the callback of
the body runs or its marker is claimed, the queue is what the body has left, its callback and those
items; its marker is open with their number, and the markers above have recorded more.  A claim of
its marker then takes out what the body has left, its callback included, and leaves those items.
No body may have been stranded before: a body that has been replaced or comes back too late ends
others than itself. -/
theorem through_splices (engine : Engine) (scope : Scope) {past between : List Worked}
    {s u t : State} {event : Event} {behind : Queue} {keys : List String} {events : List Event}
    {binding : Option String} (hpast : engine.Reaches { scope } past s)
    (hqueue : s.queue = .event event :: behind) (hcaptures : s.captures = [])
    (hforwards : engine.Forwards event { s with queue := behind } keys u)
    (hhandler : u.levels.lookup keys = some (.deferred events binding))
    (hlater : engine.Reaches (u.forward keys event) between t)
    (hstrands : ∀ worked ∈ past ++ between, worked.strands = false) :
    ∃ overlay, let body : Body := ⟨.bodyDone overlay event.isStart, behind, s.markers⟩
      (u.forward keys event).queue =
          events.map .event ++ .callback body.callback :: body.behind ∧
        ((∀ worked ∈ between, ¬ worked.Completes body ∧ ¬ worked.Claims body) → body.Runs t ∧
          ∀ item queue, t.queue = item :: queue →
            (⟨{ t with queue }, item⟩ : Worked).Claims body →
            ∃ front v, (⟨{ t with queue }, item⟩ : Worked).lets? = some v ∧
              v.queue = front ++ .callback body.callback :: behind ∧
              engine.step item { t with queue } =
                (.ok (), { v with queue := behind, markers := .claimed :: s.markers }.setOnEnd
                  (.resume (front ++ [Queued.callback body.callback])))) := by
  obtain ⟨hitems, hmarkers⟩ := hforwards.unchanged
  obtain ⟨overlay, hfired, hbegun⟩ := runs_forward event hhandler
  rw [hitems, hmarkers] at hbegun
  rw [hitems] at hfired
  refine ⟨overlay, hfired, fun hnot => ?_⟩
  obtain ⟨hbefore, hafter⟩ := List.forall_mem_append.1 hstrands
  have hs : (∃ n, (u.forward keys event).Expects n) ∨ (u.forward keys event).Refuses := by
    have hstep := hforwards.step hcaptures
    have hnothing : (⟨{ s with queue := behind }, .event event⟩ : Worked).strands = false := by
      simp [Worked.strands, hcaptures]
    rcases hpast.expects (.inl ⟨0, State.expects_fresh scope⟩) hbefore with ⟨n, hn⟩ | hrefuses
    · exact .inl ⟨n, hn.step hqueue hstep hnothing⟩
    · exact absurd hstep (hrefuses.not_step hqueue)
  have hruns := hlater.runs hs hbegun hafter hnot
  exact ⟨hruns, fun item queue hnext hclaims => step_claims hruns hnext hclaims⟩

/-- An element in a body is selected, so that the rest of that body is behind it, and is let
through: that leaves the rest of the body around it. -/
theorem through_splices_nested :
    let engine : Engine := { evaluator := fun _ _ => ⟨.ok .null, []⟩ }
    let document : List Event := [.start "::", .text "a", .start "b", .close, .text "z", .close,
      .start "::", .text "b", .start ":through", .close, .close]
    let levels := Levels.root.register "a" (.deferred [.start "b", .close, .text "z"] none)
    let idle : State :=
      { levels := levels.register "b" (.deferred [.start ":through", .close] none) }
    let s : State := { idle with levels := idle.levels.push "a" }.forward ["a", "*"] (.start "a")
    let u : State := { s with queue := s.queue.tail, levels := s.levels.push "b" }
    engine.submitAll 20 document {} = some (.ok (), idle) ∧ u.queue.length = 3 ∧
      ∃ past between t overlay front, ∃ v : State, engine.Reaches {} past s ∧
        engine.Reaches (u.forward ["b", "*"] (.start "b")) between t ∧
        (⟨.bodyDone overlay true, u.queue, s.markers⟩ : Body).Runs t ∧
        engine.step (.event .close) { t with queue := t.queue.tail } =
          (.ok (), { v with queue := u.queue, markers := .claimed :: s.markers }.setOnEnd
            (.resume (front ++ [Queued.callback (.bodyDone overlay true)]))) := by
  intro engine document levels idle s u
  have hidle : engine.submitAll 20 document {} = some (.ok (), idle) := by
    dsimp only [engine, document, idle, levels]
    rfl
  have hs : engine.advance 1 { idle with queue := [.event (.start "a")] } = some s := by
    dsimp only [engine, s, idle, levels]
    rfl
  have hpast := (session_of_submitAll rfl hidle).reaches.trans
    (.take rfl (.start "a") (reaches_of_advance hs))
  have htag : engine.options.classify "b" = .element := by decide +kernel
  have hqueue : s.queue = .event (.start "b") :: u.queue := by
    dsimp only [u, s, idle, levels]
    rfl
  have hhandler :
      u.levels.lookup ["b", "*"] = some (.deferred [.start ":through", .close] none) := by
    dsimp only [u, s, idle, levels]
    rfl
  let fired := u.forward ["b", "*"] (.start "b")
  let t : State := Directive.through.enter (.start ":through")
    { fired with queue := fired.queue.tail, levels := fired.levels.push ":through" }
  have ht : engine.advance 1 fired = some t := by
    dsimp only [engine, t, fired, u, s, idle, levels]
    rfl
  obtain ⟨overlay, -, hlater⟩ := through_splices engine Scope.empty hpast hqueue rfl
    (.element (s := { s with queue := u.queue }) htag) hhandler (reaches_of_advance ht)
      (by decide +kernel)
  have hquiet : ∀ worked ∈ engine.drainTrace 1 fired,
      worked.item.describe ≠ "callback" ∧ worked.lets?.isNone := by
    decide +kernel
  obtain ⟨hruns, hclaims⟩ := hlater fun worked hmem => by
    obtain ⟨hitem, hlets⟩ := hquiet worked hmem
    refine ⟨fun hcompletes => hitem (by rw [hcompletes.1]; rfl), ?_⟩
    rintro ⟨v, hv, -⟩
    simp [hv] at hlets
  have hnext : t.queue = .event .close :: t.queue.tail := by
    dsimp only [t, fired, u, s, idle, levels]
    rfl
  obtain ⟨front, v, -, -, hstep⟩ := hclaims (.event .close) t.queue.tail hnext ⟨_, rfl, rfl⟩
  exact ⟨hidle, by decide +kernel, _, _, t, overlay, front, v, hpast, reaches_of_advance ht, hruns,
    hstep⟩

/-- An attribute is let through in a body for an element, and waits for the close of that element,
which comes only after the body.  When the last text is selected, that makes another callback take
the marker of its body away while the body still runs. -/
theorem through_missplices :
    let engine : Engine := { evaluator := fun _ _ => ⟨.ok .null, []⟩ }
    let document : List Event := [.start "d", .start "e",
      .start "::", .text "ATTR", .start ":through", .close, .start "p", .start "::", .text "ATTR",
        .start ":through", .close, .close, .start ":through", .close, .start "q", .attr "z" "1",
        .close, .close, .close,
      .start "::", .text "a", .start "n", .close, .attr "m" "2", .close,
      .start "::", .text "TEXT", .start ":through", .close, .close, .text "one",
      .start "::", .text "TEXT", .start "a", .start ":debug", .text "k", .close, .close,
        .start ":debug", .close, .start ":through", .close, .start "after", .close, .close]
    ∃ past between s t events binding, engine.submitAll 60 document {} = some (.ok (), s) ∧
      engine.Reaches {} past { s with queue := [.event (.text "two")] } ∧ s.captures = [] ∧
        s.levels.lookup ["TEXT"] = some (.deferred events binding) ∧
          engine.Reaches ({ s with queue := [] }.forward ["TEXT"] (.text "two")) between t ∧
            ∀ overlay, let body : Body := ⟨.bodyDone overlay false, [], s.markers⟩
              (∀ worked ∈ between, ¬ worked.Completes body ∧ ¬ worked.Claims body) ∧
                ¬ body.Runs t := by
  intro engine document
  let fired (s : State) : State := { s with queue := [] }.forward ["TEXT"] (.text "two")
  have hok : (engine.submitAll 60 document {}).any (fun last => last.1.isOk &&
      (last.2.queue.isEmpty && last.2.captures.isEmpty &&
        (last.2.levels.lookup ["TEXT"]).isSome &&
        (fired last.2).markers.length != last.2.markers.length &&
        ((engine.advance 28 (fired last.2)).any fun t =>
          t.markers.length ≤ last.2.markers.length) &&
        (engine.drainTrace 28 (fired last.2)).all fun worked => !worked.before.queue.isEmpty &&
          !worked.lets?.any fun v => v.markers == .opened 0 :: last.2.markers)) = true := by
    decide +kernel
  rcases hs : engine.submitAll 60 document {} with _ | ⟨fault | ⟨⟩, s⟩ <;> rw [hs] at hok <;>
    simp only [Option.any_none, Option.any_some, Except.isOk, Except.toBool, Bool.true_and,
      Bool.false_and, Bool.and_eq_true, Bool.false_eq_true, List.isEmpty_iff, Option.any_eq_true,
      Option.isSome_iff_exists, bne_iff_ne, List.all_eq_true, Bool.not_eq_true',
      decide_eq_true_eq] at hok
  obtain ⟨⟨⟨⟨⟨hempty, hcaptures⟩, handler, hhandler⟩, hopened⟩, t, ht, hfewer⟩, hquiet⟩ := hok
  obtain ⟨events, binding, rfl⟩ : ∃ events binding, handler = .deferred events binding := by
    cases handler with
    | deferred events binding => exact ⟨events, binding, rfl⟩
    | announce event =>
      simp [fired, State.forward, hhandler, Handler.run, State.emit] at hopened
  refine ⟨_, _, s, t, events, binding, rfl,
    (session_of_submitAll rfl hs).reaches.trans (.take hempty (.text "two") (.refl _)), hcaptures,
    hhandler, reaches_of_advance ht, fun overlay => ⟨fun worked hmem => ?_, ?_⟩⟩
  · obtain ⟨hqueue, hlets⟩ := hquiet worked hmem
    refine ⟨fun hcompletes => by simp [hcompletes.2] at hqueue, ?_⟩
    rintro ⟨v, hv, hmarkers⟩
    simp [hv, hmarkers] at hlets
  · rintro ⟨front, above, -, hmarkers, -⟩
    rw [hmarkers, List.length_append, List.length_cons] at hfewer
    dsimp only at hfewer
    omega

end Engine
end TreeStream
