import TreeStream.Proofs.Runs

/-!
# What a step can do

An event is routed, or taken by the innermost capture, and each of the two has a few outcomes.  They
are listed here once, so that what every step keeps is proved outcome by outcome.

* `Engine.Forwards event s keys t`: the router looks for a handler under these keys, with the level
  of the element opened or closed.
* `Engine.Moves event s t`: the outcomes of working on an event.
* `Engine.moves_of_step` and `Engine.step_fault`: there are no others, and one fault only.
-/

namespace TreeStream
set_option autoImplicit false

/-- Something that directives do with arguments, and not hosts only. -/
def TextUse.Directs : TextUse → Prop
  | .cond start => start.isStart
  | .each start => start.isStart
  | .report _ => False
  | .reportValue _ => False
  | _ => True

theorem TextUse.Directs.shows {use : TextUse} (huse : use.Directs) {shown : List Event}
    (h : use.Shows shown) : ∃ name content, shown = [.start name, .text content] := by
  have hkept : ∀ start : Event, start.isStart → ∀ content, shown = [start, .text content] →
      ∃ name content, shown = [.start name, .text content] := by
    intro start hstart content hshown
    cases start with
    | start name => exact ⟨name, content, hshown⟩
    | _ => simp [Event.isStart] at hstart
  cases use with
  | eval => exact h.elim
  | cond start =>
    obtain ⟨content, hshown⟩ := h
    exact hkept start huse content hshown
  | each start =>
    obtain ⟨content, hshown⟩ := h
    exact hkept start huse content hshown
  | defer => exact h.elim
  | substitute name => exact h
  | report tag => exact huse.elim
  | reportValue tag => exact huse.elim

/-- Closing the innermost level runs its hook, if it has one. -/
theorem State.shiftLevel_cases {s t : State} {close : LevelClose}
    (h : s.shiftLevel = .ok (close, t)) : ∃ level outer, s.levels.pop? = some (level, outer) ∧
      ((level.onEnd = none ∧ close = .forward ∧ t = { s with levels := outer }) ∨
        ∃ hook, level.onEnd = some hook ∧
          (close, t) = hook.run { s with levels := outer }) := by
  unfold State.shiftLevel at h
  rcases hpop : s.levels.pop? with _ | ⟨level, outer⟩
  · simp [hpop] at h
  · refine ⟨level, outer, rfl, ?_⟩
    rcases hhook : level.onEnd with _ | hook <;>
      simp only [hpop, Level.takeOnEnd_fst, hhook, Except.ok.injEq] at h
    · obtain ⟨rfl, rfl⟩ := Prod.mk.inj h
      exact .inl ⟨rfl, rfl, rfl⟩
    · exact .inr ⟨hook, rfl, h.symm⟩

theorem State.shiftLevel_fault {s : State} {fault : Fault} (h : s.shiftLevel = .error fault) :
    fault = .unmatchedEnd ∧ s.levels.around = [] := by
  unfold State.shiftLevel at h
  rcases hpop : s.levels.pop? with _ | ⟨level, outer⟩
  · rcases s with ⟨scope, queue, ⟨current, _ | ⟨next, around⟩⟩⟩
    · exact ⟨by simpa [Levels.pop?, eq_comm] using h, rfl⟩
    · simp [Levels.pop?] at hpop
  · rcases hhook : level.onEnd with _ | hook <;> simp [hpop, hhook] at h

namespace Engine

/-- Where the router looks for a handler, and in which state: the level of an element has been
opened at its start, and closed at its close. -/
inductive Forwards (engine : Engine) : Event → State → List String → State → Prop
  | element {name : String} {s : State} (htag : engine.options.classify name = .element) :
      Forwards engine (.start name) s [name, "*"] { s with levels := s.levels.push name }
  | unknown {name : String} {s : State} (htag : engine.options.classify name = .unknown) :
      Forwards engine (.start name) s [name, "*"]
        ({ s with levels := s.levels.push name }.tell (.misuse (.unknownDirective name)))
  | close {s t : State} (h : s.shiftLevel = .ok (.forward, t)) :
      Forwards engine .close s ["END"] t
  | text {content : String} {s : State} : Forwards engine (.text content) s ["TEXT"] s
  | attr {name value : String} {s : State} : Forwards engine (.attr name value) s ["ATTR"] s

theorem Forwards.step {engine : Engine} {event : Event} {s t : State} {keys : List String}
    (h : engine.Forwards event s keys t) (hcaptures : s.captures = []) :
    engine.step (.event event) s = (.ok (), t.forward keys event) := by
  refine (deliver_of_nil hcaptures).trans ?_
  cases h with
  | element htag => exact route_element htag
  | unknown htag => exact route_unknown htag
  | close hshift => exact route_close_forward hshift
  | text => rfl
  | attr => rfl

/-- No work is done or begun before the handler runs. -/
theorem Forwards.unchanged {engine : Engine} {event : Event} {s t : State} {keys : List String}
    (h : engine.Forwards event s keys t) : t.queue = s.queue ∧ t.markers = s.markers := by
  cases h with
  | close hshift =>
    obtain ⟨level, outer, -, ⟨-, -, rfl⟩ | ⟨_ | stash | ⟨shown, close⟩, -, hrun⟩⟩ :=
      State.shiftLevel_cases hshift
    · exact ⟨rfl, rfl⟩
    · simp [EndHook.run] at hrun
    · simp [EndHook.run] at hrun
    · obtain ⟨-, rfl⟩ := Prod.mk.inj hrun
      exact ⟨rfl, rfl⟩
  | _ => exact ⟨rfl, rfl⟩

/-- What can become of an event. -/
inductive Moves (engine : Engine) : Event → State → State → Prop
  /-- It goes to a handler or to the output. -/
  | forwarded {event : Event} {keys : List String} {s t : State} (hcaptures : s.captures = [])
      (h : engine.Forwards event s keys t) : Moves engine event s (t.forward keys event)
  | suppressed {s t : State} (hcaptures : s.captures = [])
      (h : s.shiftLevel = .ok (.suppress, t)) : Moves engine .close s t
  /-- It begins a directive that waits for its argument. -/
  | asked {name : String} {use : TextUse} {s : State} (hcaptures : s.captures = [])
      (huse : use.Directs) :
      Moves engine (.start name) s ({ s with levels := s.levels.push name }.captureText use)
  /-- It begins a directive that makes nothing of its element. -/
  | skipped {name : String} {use : BodyUse} {log : List LogEntry} {s : State}
      (hcaptures : s.captures = []) (huse : use = .drop ∨
        use = .through ∧ engine.options.classify name = .directive .through) :
      Moves engine (.start name) s
        ({ s with levels := s.levels.push name, log }.captureBody true use)
  /-- It may belong to an argument. -/
  | heard {event : Event} {text : String} {use : TextUse} {captures : List Capture} {s : State}
      (hcaptures : s.captures = .firstText text use :: captures)
      (hevent : Capture.shift event = 0) (text' : String) :
      Moves engine event s { s with captures := .firstText text' use :: captures }
  /-- It ends an argument. -/
  | continued {event : Event} {text : String} {use : TextUse} {captures : List Capture} {s : State}
      (hcaptures : s.captures = .firstText text use :: captures)
      (hevent : Capture.shift event ≠ 0) : Moves engine event s
        (engine.useText use text { s with captures, queue := s.queue.pushFront event })
  /-- It stands in a body. -/
  | gathered {event : Event} {depth : Int} {discard : Bool} {buffer : List Event} {use : BodyUse}
      {captures : List Capture} {s : State}
      (hcaptures : s.captures = .subLevel depth discard buffer use :: captures)
      (hdepth : 0 ≤ depth + Capture.shift event) : Moves engine event s { s with
        captures := .subLevel (depth + Capture.shift event) discard
          (if discard then buffer else buffer ++ [event]) use :: captures }
  /-- It ends a body. -/
  | completed {event : Event} {depth : Int} {discard : Bool} {buffer : List Event} {use : BodyUse}
      {captures : List Capture} {close : LevelClose} {s t : State}
      (hcaptures : s.captures = .subLevel depth discard buffer use :: captures)
      (hdepth : depth + Capture.shift event < 0)
      (h : ({ s with captures } : State).shiftLevel = .ok (close, t)) :
      Moves engine event s (use.run buffer t)

variable {engine : Engine} {event : Event} {s t : State}

theorem moves_of_route (hcaptures : s.captures = []) (h : engine.route event s = (.ok (), t)) :
    engine.Moves event s t := by
  cases event with
  | start name =>
    cases htag : engine.options.classify name with
    | directive directive =>
      rw [route_directive htag] at h
      obtain ⟨-, rfl⟩ := Prod.mk.inj h
      cases directive with
      | eval => exact .asked hcaptures trivial
      | cond => exact .asked hcaptures rfl
      | each => exact .asked hcaptures rfl
      | defer => exact .asked hcaptures trivial
      | through => exact .skipped hcaptures (.inr ⟨rfl, htag⟩)
      | debug => exact .skipped hcaptures (.inl rfl)
    | affect =>
      rw [route_affect htag] at h
      obtain ⟨-, rfl⟩ := Prod.mk.inj h
      exact .asked hcaptures trivial
    | unknown =>
      rw [route_unknown htag] at h
      obtain ⟨-, rfl⟩ := Prod.mk.inj h
      exact .forwarded hcaptures (.unknown htag)
    | element =>
      rw [route_element htag] at h
      obtain ⟨-, rfl⟩ := Prod.mk.inj h
      exact .forwarded hcaptures (.element htag)
  | close =>
    rcases hshift : s.shiftLevel with fault | ⟨_ | _, u⟩
    · simp [route_close_error hshift] at h
    · rw [route_close_forward hshift] at h
      obtain ⟨-, rfl⟩ := Prod.mk.inj h
      exact .forwarded hcaptures (.close hshift)
    · rw [route_close_suppress hshift] at h
      obtain ⟨-, rfl⟩ := Prod.mk.inj h
      exact .suppressed hcaptures hshift
  | text content =>
    obtain ⟨-, rfl⟩ := Prod.mk.inj h
    exact .forwarded hcaptures .text
  | attr name value =>
    obtain ⟨-, rfl⟩ := Prod.mk.inj h
    exact .forwarded hcaptures .attr

theorem moves_of_firstText {text : String} {use : TextUse} {captures : List Capture}
    (hcaptures : s.captures = .firstText text use :: captures)
    (h : engine.deliver event s = (.ok (), t)) : engine.Moves event s t := by
  cases event with
  | start name =>
    rw [deliver_done hcaptures rfl] at h
    obtain ⟨-, rfl⟩ := Prod.mk.inj h
    exact .continued hcaptures (by simp [Capture.shift])
  | close =>
    rw [deliver_done hcaptures rfl] at h
    obtain ⟨-, rfl⟩ := Prod.mk.inj h
    exact .continued hcaptures (by simp [Capture.shift])
  | text content =>
    rw [deliver_pending hcaptures rfl] at h
    obtain ⟨-, rfl⟩ := Prod.mk.inj h
    exact .heard hcaptures rfl _
  | attr name value =>
    rw [deliver_pending hcaptures rfl] at h
    obtain ⟨-, rfl⟩ := Prod.mk.inj h
    exact .heard hcaptures rfl _

theorem moves_of_subLevel {depth : Int} {discard : Bool} {buffer : List Event} {use : BodyUse}
    {captures : List Capture}
    (hcaptures : s.captures = .subLevel depth discard buffer use :: captures)
    (h : engine.deliver event s = (.ok (), t)) : engine.Moves event s t := by
  by_cases hdepth : depth + Capture.shift event < 0
  · rw [deliver_done hcaptures (Capture.feed_subLevel_done hdepth)] at h
    rcases hshift : ({ s with captures } : State).shiftLevel with fault | ⟨close, u⟩
    · simp [complete_subLevel_error hshift] at h
    · rw [complete_subLevel hshift] at h
      obtain ⟨-, rfl⟩ := Prod.mk.inj h
      exact .completed hcaptures hdepth hshift
  · have hpending : 0 ≤ depth + Capture.shift event := by omega
    rw [deliver_pending hcaptures (Capture.feed_subLevel_pending hpending)] at h
    obtain ⟨-, rfl⟩ := Prod.mk.inj h
    exact .gathered hcaptures hpending

theorem moves_of_step (h : engine.step (.event event) s = (.ok (), t)) :
    engine.Moves event s t := by
  rcases hcaptures : s.captures with _ | ⟨text | ⟨depth, discard, buffer, use⟩, captures⟩
  · exact moves_of_route hcaptures ((deliver_of_nil hcaptures).symm.trans h)
  · exact moves_of_firstText hcaptures h
  · exact moves_of_subLevel hcaptures h

/-! ## Faults -/

theorem route_fault {fault : Fault} (h : engine.route event s = (.error fault, t)) :
    fault = .unmatchedEnd ∧ t = s ∧ s.levels.around = [] ∧ event = .close := by
  cases event with
  | start name =>
    cases htag : engine.options.classify name with
    | directive directive => simp [route_directive htag] at h
    | unknown => simp [route_unknown htag] at h
    | affect => simp [route_affect htag] at h
    | element => simp [route_element htag] at h
  | close =>
    rcases hshift : s.shiftLevel with fault' | ⟨_ | _, u⟩
    · rw [route_close_error hshift] at h
      obtain rfl : fault' = fault := Except.error.inj (Prod.mk.inj h).1
      obtain ⟨rfl, haround⟩ := State.shiftLevel_fault hshift
      exact ⟨rfl, (Prod.mk.inj h).2.symm, haround, rfl⟩
    · simp [route_close_forward hshift] at h
    · simp [route_close_suppress hshift] at h
  | text content => simp [route] at h
  | attr name value => simp [route] at h

theorem complete_fault {capture : Capture} {fault : Fault}
    (h : engine.complete capture event s = (.error fault, t)) :
    fault = .unmatchedEnd ∧ t = s ∧ s.levels.around = [] ∧
      ∃ depth discard buffer use, capture = .subLevel depth discard buffer use := by
  cases capture with
  | firstText text use => simp [complete] at h
  | subLevel depth discard buffer use =>
    rcases hshift : s.shiftLevel with fault' | ⟨close, u⟩
    · rw [complete_subLevel_error hshift] at h
      obtain rfl : fault' = fault := Except.error.inj (Prod.mk.inj h).1
      obtain ⟨rfl, haround⟩ := State.shiftLevel_fault hshift
      exact ⟨rfl, (Prod.mk.inj h).2.symm, haround, depth, discard, buffer, use, rfl⟩
    · simp [complete_subLevel hshift] at h

/-- The only fault is a close at the root, whether it comes to the router or ends a body.  It
changes nothing, except that the body is not waited for any more. -/
theorem step_fault {item : Queued} {fault : Fault} (h : engine.step item s = (.error fault, t)) :
    fault = .unmatchedEnd ∧ t = { s with captures := t.captures } ∧ s.levels.around = [] ∧
      ∃ event, item = .event event ∧ (s.captures = [] ∧ event = .close ∨
        ∃ depth discard buffer use captures,
          s.captures = .subLevel depth discard buffer use :: captures ∧
            depth + Capture.shift event < 0) := by
  cases item with
  | callback callback => simp [step] at h
  | event event =>
    change engine.deliver event s = (.error fault, t) at h
    rcases hcaptures : s.captures with _ | ⟨capture, captures⟩
    · rw [deliver_of_nil hcaptures] at h
      obtain ⟨rfl, rfl, haround, rfl⟩ := route_fault h
      exact ⟨rfl, rfl, haround, .close, rfl, .inl ⟨rfl, rfl⟩⟩
    · rcases hfeed : capture.feed event with ⟨capture', _ | boundary⟩
      · simp [deliver_pending hcaptures hfeed] at h
      rw [deliver_done hcaptures hfeed] at h
      obtain ⟨rfl, rfl, haround, _, _, _, _, rfl⟩ := complete_fault h
      cases capture with
      | firstText text use => cases event <;> simp [Capture.feed] at hfeed
      | subLevel depth discard buffer use =>
        have hdepth : depth + Capture.shift event < 0 := by
          refine Int.not_le.1 fun hpending => ?_
          simp [Capture.feed_subLevel_pending hpending] at hfeed
        exact ⟨rfl, rfl, haround, event, rfl,
          .inr ⟨depth, discard, buffer, use, captures, rfl, hdepth⟩⟩

/-- A close at the root is one. -/
theorem step_close_unmatched (engine : Engine) (hcaptures : s.captures = [])
    (haround : s.levels.around = []) :
    engine.step (.event .close) s = (.error .unmatchedEnd, s) := by
  have hshift : s.shiftLevel = .error .unmatchedEnd := by
    simp [State.shiftLevel, Levels.pop?, haround]
  have hdeliver : engine.deliver .close s = engine.route .close s := deliver_of_nil hcaptures
  exact hdeliver.trans (route_close_error hshift)

end Engine
end TreeStream
