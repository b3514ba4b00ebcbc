import TreeStream.Proofs.Feeding
import TreeStream.Proofs.Unclosed

/-!
# Captures

A capture takes the events that come to it and leaves the rest of the state alone.  The capture of a
body counts the elements that are open inside, so it ends at the close of the very element that it
was begun in, and nothing that stands before can end it or be heard of elsewhere.

* `surplus events`: how many more elements are opened than closed.
* `Capture.feedAll`: a capture is given events until one of them ends it.
* `Capture.feedAll_lead`, `Capture.feedAll_forest`: arguments and bodies are gathered.
* `Capture.feedAll_admissible`, `Capture.feedAll_close`: how long the capture of a body waits, and
  what it has gathered when it ends.
* `Engine.runs_feedAll`, `Engine.feeds_feedAll`: events that a capture waits with go to it alone.
* `Engine.captureBody_ends`: a capture has exactly the body of its element.
-/

namespace TreeStream
set_option autoImplicit false

/-! ## Opened and closed -/

/-- How many more elements the events open than they close. -/
def surplus (events : List Event) : Int :=
  events.countP Event.isStart - events.count .close

theorem surplus_nil : surplus [] = 0 := rfl

theorem surplus_cons (event : Event) (events : List Event) :
    surplus (event :: events) = Capture.shift event + surplus events := by
  cases event <;> simp [surplus, Capture.shift, Event.isStart, List.countP_cons] <;> omega

theorem surplus_append (front behind : List Event) :
    surplus (front ++ behind) = surplus front + surplus behind := by
  simp only [surplus, List.countP_append, List.count_append]
  omega

theorem admissible_iff_surplus (events : List Event) :
    Admissible events ↔ ∀ front, front <+: events → 0 ≤ surplus front :=
  forall₂_congr fun front _ => by
    simp only [surplus]
    omega

theorem Balanced.surplus_eq {events : List Event} (h : Balanced events) : surplus events = 0 := by
  have hlength := length_unclosed ((balanced_iff_unclosed events).1 h)
  simp only [List.length_nil] at hlength
  simp only [surplus]
  omega

theorem Balanced.admissible {events : List Event} (h : Balanced events) : Admissible events :=
  (admissible_iff events).2 ⟨[], (balanced_iff_unclosed events).1 h⟩

/-- One more close is one too many. -/
theorem Balanced.not_admissible_close {body : List Event} (h : Balanced body) :
    ¬ Admissible (body ++ [.close]) := by
  intro hmore
  have hsurplus := (admissible_iff_surplus _).1 hmore _ List.prefix_rfl
  rw [surplus_append, h.surplus_eq, surplus_cons, surplus_nil, Capture.shift] at hsurplus
  omega

/-- What is not admissible has a close that closes nothing, and what is before that is balanced. -/
theorem exists_balanced_of_not_admissible {events : List Event} (h : ¬ Admissible events) :
    ∃ body rest, events = body ++ .close :: rest ∧ Balanced body := by
  rcases hnames : unclosed [] events with _ | names
  · obtain ⟨body, rest, hevents, hbody⟩ := exists_close_of_unclosed_eq_none hnames
    exact ⟨body, rest, hevents, (balanced_iff_unclosed body).2 hbody⟩
  · exact absurd ((admissible_iff events).2 ⟨names, hnames⟩) h

/-! ## A capture by itself -/

/-- The events of a captured body: none if they are discarded. -/
def Engine.kept (discard : Bool) (events : List Event) : List Event :=
  if discard then [] else events

theorem Engine.kept_nil (discard : Bool) : kept discard [] = [] := by
  cases discard <;> rfl

theorem Engine.kept_append (discard : Bool) (before after : List Event) :
    kept discard (before ++ after) = kept discard before ++ kept discard after := by
  cases discard <;> rfl

namespace Capture

/-- Gives events to a capture until one of them ends it.  That event is given back, with those that
come after it. -/
def feedAll : List Event → Capture → Capture × Option (Event × List Event)
  | [], capture => (capture, none)
  | event :: events, capture =>
    match capture.feed event with
    | (capture, none) => feedAll events capture
    | (capture, some boundary) => (capture, some (boundary, events))

variable {capture capture' : Capture} {discard : Bool} {use : BodyUse}

/-- A capture that waits after all events has waited after the first. -/
theorem feedAll_cons {event : Event} {events : List Event}
    (h : capture.feedAll (event :: events) = (capture', none)) :
    ∃ next, capture.feed event = (next, none) ∧ next.feedAll events = (capture', none) := by
  rw [feedAll] at h
  rcases hfeed : capture.feed event with ⟨next, _ | boundary⟩
  · rw [hfeed] at h
    exact ⟨next, rfl, h⟩
  · simp [hfeed] at h

theorem feedAll_append {front : List Event} (h : capture.feedAll front = (capture', none))
    (behind : List Event) : capture.feedAll (front ++ behind) = capture'.feedAll behind := by
  induction front generalizing capture with
  | nil =>
    obtain ⟨rfl, -⟩ := Prod.mk.inj h
    rfl
  | cons event front ih =>
    obtain ⟨next, hfeed, hlater⟩ := feedAll_cons h
    rw [List.cons_append, feedAll, hfeed]
    exact ih hlater

/-- The capture of an argument gathers texts and drops attributes. -/
theorem feedAll_lead (forest : Forest) (text : String) (use : TextUse) :
    (firstText text use).feedAll forest.lead = (firstText (text ++ forest.argument) use, none) := by
  induction forest generalizing text with
  | nil => rw [Forest.argument, String.append_empty]; rfl
  | text content rest ih =>
    have hrest := ih (text ++ content)
    rw [String.append_assoc] at hrest
    exact hrest
  | attr name value rest ih => exact ih text
  | element name children rest => rw [Forest.argument, String.append_empty]; rfl

/-- At a depth that never falls below zero, the capture of a body waits. -/
theorem feedAll_subLevel {events : List Event} {depth : Int} (buffer : List Event)
    (hdepth : ∀ front, front <+: events → 0 ≤ depth + surplus front) :
    (subLevel depth discard buffer use).feedAll events =
      (subLevel (depth + surplus events) discard (buffer ++ Engine.kept discard events) use,
        none) := by
  induction events generalizing depth buffer with
  | nil => rw [feedAll, surplus_nil, Int.add_zero, Engine.kept_nil, List.append_nil]
  | cons event events ih =>
    have hfirst : 0 ≤ depth + shift event := by
      have hone := hdepth [event] (List.prefix_append [event] events)
      rwa [surplus_cons, surplus_nil, Int.add_zero] at hone
    have hlater : ∀ front, front <+: events → 0 ≤ depth + shift event + surplus front := by
      intro front hfront
      have hmore := hdepth (event :: front) (List.prefix_cons_inj event |>.2 hfront)
      rwa [surplus_cons, ← Int.add_assoc] at hmore
    have hkept : (if discard then buffer else buffer ++ [event]) =
        buffer ++ Engine.kept discard [event] := by
      cases discard <;> simp [Engine.kept]
    rw [feedAll, feed_subLevel_pending hfirst, hkept]
    dsimp only
    rw [ih _ hlater, surplus_cons, Int.add_assoc, List.append_assoc, ← Engine.kept_append]
    rfl

/-- So it waits as long as nothing is closed that was opened outside. -/
theorem feedAll_admissible {events : List Event} (h : Admissible events) :
    (subLevel 0 discard [] use).feedAll events =
      (subLevel (surplus events) discard (Engine.kept discard events) use, none) := by
  have hdepth : ∀ front, front <+: events → 0 ≤ 0 + surplus front := by
    simpa using (admissible_iff_surplus events).1 h
  rw [feedAll_subLevel [] hdepth, Int.zero_add, List.nil_append]

/-- Whole elements are gathered or dropped, at any depth. -/
theorem feedAll_forest (forest : Forest) {depth : Int} (hdepth : 0 ≤ depth) (discard : Bool)
    (buffer : List Event) (use : BodyUse) :
    (subLevel depth discard buffer use).feedAll forest.events =
      (subLevel depth discard (buffer ++ Engine.kept discard forest.events) use, none) := by
  have hbalanced := forest.balanced_events
  have hfronts : ∀ front, front <+: forest.events → 0 ≤ depth + surplus front := fun front h =>
    Int.add_nonneg hdepth ((admissible_iff_surplus _).1 hbalanced.admissible front h)
  rw [feedAll_subLevel buffer hfronts, hbalanced.surplus_eq, Int.add_zero]

/-- It ends at the close of the element around the body. -/
theorem feedAll_close {body : List Event} (h : Balanced body) (rest : List Event) :
    (subLevel 0 discard [] use).feedAll (body ++ .close :: rest) =
      (subLevel (-1) discard (Engine.kept discard body) use, some (.close, rest)) := by
  rw [feedAll_append (feedAll_admissible h.admissible), h.surplus_eq]
  rfl

end Capture

/-! ## Closing the level of the element -/

/-- What comes back to the head of the queue when the level closes. -/
def Level.returned (level : Level) : List Queued :=
  match level.onEnd with
  | some (.resume stash) => stash
  | _ => []

/-- What a host has had put at the close of the level. -/
def Level.announced (level : Level) : List Event :=
  match level.onEnd with
  | some (.announce event _) => [event]
  | _ => []

/-- Above the root, closing a level takes that level away and does what its hook is for, no more. -/
theorem State.shiftLevel_eq {s : State} {outer : Level} {around : List Level}
    (h : s.levels.around = outer :: around) : ∃ close, s.shiftLevel = .ok (close, { s with
      levels := ⟨outer, around⟩
      queue := s.levels.current.returned ++ s.queue
      output := s.output ++ s.levels.current.announced }) := by
  have hpop : s.levels.pop? = some (s.levels.current, ⟨outer, around⟩) := by
    simp [Levels.pop?, h]
  unfold State.shiftLevel Level.returned Level.announced
  rcases hhook : s.levels.current.onEnd with _ | _ | stash | ⟨event, close⟩ <;>
    simp [hpop, hhook, EndHook.run, Queue.prepend]

namespace Engine

variable {engine : Engine} {s : State} {discard : Bool} {use : BodyUse}

/-- Events that a capture waits with go to it alone. -/
theorem runs_feedAll {events : List Event} {capture capture' : Capture}
    (h : capture.feedAll events = (capture', none)) (captures : List Capture) (queue : Queue) :
    engine.Runs events.length
      { s with queue := events.map .event ++ queue, captures := capture :: captures }
      { s with queue, captures := capture' :: captures } := by
  induction events generalizing capture with
  | nil =>
    obtain ⟨rfl, -⟩ := Prod.mk.inj h
    rfl
  | cons event events ih =>
    obtain ⟨next, hfeed, hlater⟩ := Capture.feedAll_cons h
    let t : State := { s with queue := events.map .event ++ queue, captures := capture :: captures }
    have hstep : engine.deliver event t = (.ok (), { t with captures := next :: captures }) :=
      deliver_pending rfl hfeed
    exact ⟨.event event, _, _, rfl, hstep, ih hlater⟩

theorem absorbs_pending {event : Event} {capture capture' : Capture} {captures : List Capture}
    (hcaptures : s.captures = capture :: captures) (hfeed : capture.feed event = (capture', none)) :
    engine.Absorbs [.event event] s { s with captures := capture' :: captures } :=
  Absorbs.single fun _ log => ⟨log, deliver_pending hcaptures hfeed⟩

theorem feeds_feedAll (engine : Engine) {events : List Event} {capture capture' : Capture}
    (h : capture.feedAll events = (capture', none)) (s : State) (captures : List Capture) :
    engine.Feeds events { s with captures := capture :: captures }
      { s with captures := capture' :: captures } := by
  induction events generalizing capture with
  | nil =>
    obtain ⟨rfl, -⟩ := Prod.mk.inj h
    exact .nil engine _
  | cons event events ih =>
    obtain ⟨next, hfeed, hlater⟩ := Capture.feedAll_cons h
    exact .cons (absorbs_pending rfl hfeed) (ih hlater)

theorem runs_captureBody {front : List Event} (h : Admissible front) (queue : Queue) :
    engine.Runs front.length
      (State.captureBody { s with queue := front.map .event ++ queue } discard use)
      { s with
        queue
        captures := .subLevel (surplus front) discard (kept discard front) use :: s.captures } :=
  runs_feedAll (Capture.feedAll_admissible h) s.captures queue

/-- The close of the element takes the depth below zero: it closes the level and is not gathered. -/
theorem step_close_subLevel {t : State} {close : LevelClose} {buffer : List Event}
    {captures : List Capture} (hcaptures : s.captures = .subLevel 0 discard buffer use :: captures)
    (hshift : ({ s with captures } : State).shiftLevel = .ok (close, t)) :
    engine.step (.event .close) s = (.ok (), use.run buffer t) := by
  have hdone : engine.deliver .close s =
      engine.complete (.subLevel (-1) discard buffer use) .close { s with captures } :=
    deliver_done hcaptures rfl
  exact hdone.trans (complete_subLevel hshift)

theorem runs_captureBody_close {t : State} {close : LevelClose} {body : List Event} {rest : Queue}
    (h : Balanced body) (hshift : ({ s with queue := rest } : State).shiftLevel = .ok (close, t)) :
    engine.Runs (body.length + 1)
      (State.captureBody { s with queue := body.map .event ++ .event .close :: rest } discard use)
      (use.run (kept discard body) t) := by
  have hbody : engine.Runs body.length
      (State.captureBody { s with queue := body.map .event ++ .event .close :: rest } discard use)
      { s with
        queue := .event .close :: rest
        captures := .subLevel (surplus body) discard (kept discard body) use :: s.captures } :=
    runs_captureBody h.admissible _
  rw [h.surplus_eq] at hbody
  exact hbody.trans (Runs.single rfl (step_close_subLevel rfl hshift))

/-- The capture of a body waits as long as nothing is closed that was opened outside, and ends with
the first close that does so.  It then has the events before that, which are balanced, or nothing if
they are discarded.  In an engine it takes them without any effect on the rest of the state.  Their
element is closed, with what its hook is for, before the body is used, and what is behind in the
queue is left for later. -/
theorem captureBody_ends (discard : Bool) (use : BodyUse) :
    (∀ events, Admissible events →
      (Capture.subLevel 0 discard [] use).feedAll events =
        (.subLevel (surplus events) discard (kept discard events) use, none)) ∧
    (∀ events, ¬ Admissible events → ∃ body rest, events = body ++ .close :: rest ∧
      Admissible body ∧ ¬ Admissible (body ++ [.close]) ∧ Balanced body ∧
      (Capture.subLevel 0 discard [] use).feedAll events =
        (.subLevel (-1) discard (kept discard body) use, some (.close, rest))) ∧
    ∀ (engine : Engine) (s : State),
      (∀ front queue, Admissible front → engine.Runs front.length
        (State.captureBody { s with queue := front.map .event ++ queue } discard use)
        { s with
          queue
          captures :=
            .subLevel (surplus front) discard (kept discard front) use :: s.captures }) ∧
      ∀ outer around body rest, s.levels.around = outer :: around → Balanced body → ∃ close t,
        ({ s with queue := rest } : State).shiftLevel = .ok (close, t) ∧
        t = { s with
          levels := ⟨outer, around⟩
          queue := s.levels.current.returned ++ rest
          output := s.output ++ s.levels.current.announced } ∧
        engine.Runs (body.length + 1)
          (State.captureBody { s with
            queue := body.map .event ++ .event .close :: rest } discard use)
          (use.run (kept discard body) t) := by
  refine ⟨fun events h => Capture.feedAll_admissible h, fun events h => ?_, fun engine s => ?_⟩
  · obtain ⟨body, rest, rfl, hbody⟩ := exists_balanced_of_not_admissible h
    exact ⟨body, rest, rfl, hbody.admissible, hbody.not_admissible_close, hbody,
      Capture.feedAll_close hbody rest⟩
  · refine ⟨fun front queue h => runs_captureBody h queue, ?_⟩
    intro outer around body rest haround hbody
    obtain ⟨close, hshift⟩ := State.shiftLevel_eq (s := { s with queue := rest }) haround
    exact ⟨close, _, hshift, rfl, runs_captureBody_close hbody hshift⟩

/-- A body with an element inside, at a level whose hook puts a text back. -/
theorem captureBody_ends_nested :
    let body : List Event := [.start "b", .text "t", .close]
    let use : BodyUse := .register "x" none
    let level : Level := ⟨some "a", {}, some (.resume [.event (.text "back")])⟩
    let s : State := { levels := ⟨level, [Levels.root.current]⟩ }
    let behind : Queue := [.event (.text "behind")]
    (Admissible body ∧ ((Capture.subLevel 0 false [] use).feedAll body).2 = none) ∧
    (¬ Admissible (body ++ [.close]) ∧ ∃ body' rest, body ++ [.close] = body' ++ .close :: rest ∧
      (Capture.subLevel 0 false [] use).feedAll (body ++ [.close]) =
        (.subLevel (-1) false body' use, some (.close, rest))) ∧
    (s.levels.around = [Levels.root.current] ∧ Balanced body ∧ ({} : Engine).Runs 4
      (State.captureBody { s with queue := body.map .event ++ .event .close :: behind } false use)
      { levels := Levels.root.register "x" (.deferred body none)
        queue := .event (.text "back") :: behind }) := by
  intro body use level s behind
  have hbody : Balanced body := rfl
  obtain ⟨hpending, hends, hengine⟩ := captureBody_ends false use
  obtain ⟨body', rest, hevents, -, -, -, hfed⟩ := hends _ hbody.not_admissible_close
  obtain ⟨close, t, -, rfl, hrun⟩ := (hengine {} s).2 _ _ body behind rfl hbody
  exact ⟨⟨hbody.admissible, congrArg Prod.snd (hpending body hbody.admissible)⟩,
    ⟨hbody.not_admissible_close, body', rest, hevents, hfed⟩, rfl, hbody, hrun⟩

end Engine
end TreeStream
