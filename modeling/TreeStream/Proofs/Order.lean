import TreeStream.Proofs.Forest
import TreeStream.Engine.State

/-!
# Order among what is open

Open elements, running bodies and rounds, markers and overlays belong together: each was begun
inside of what is around it, and ends before that does.

* `Levels.hooks`: what the open elements give back when they close.
* `Orderly start hooks queue markers scope`: the queue closes what is open in that order, and takes
  the scope back to `start` on the way.
* `Orderly.start_cases`, `Orderly.close`, `Orderly.callback_cases` and their like take the first
  item off the queue.
* `Hooks.strands`: a body that is stashed would not come back in order.
* `Orderly.claim`: what is left of the innermost body can be stashed at the innermost level, unless
  it is stranded there.
-/

namespace TreeStream
set_option autoImplicit false

/-- For every open element, innermost first, the items that it gives back, if there are any. -/
abbrev Hooks := List (Option (List Queued))

def Level.stash? (level : Level) : Option (List Queued) :=
  match level.onEnd with
  | some (.resume stash) => some stash
  | _ => none

namespace Levels

def hooks (levels : Levels) : Hooks :=
  (levels.toList.map Level.stash?).dropLast

theorem hooks_push (levels : Levels) (tag : String) :
    (levels.push tag).hooks = none :: levels.hooks := rfl

theorem hooks_register (levels : Levels) (key : String) (handler : Handler) :
    (levels.register key handler).hooks = levels.hooks := by
  rcases levels with ⟨current, _ | ⟨outer, around⟩⟩ <;> rfl

theorem hooks_of_pop? {levels outer : Levels} {level : Level}
    (h : levels.pop? = some (level, outer)) : levels.hooks = level.stash? :: outer.hooks := by
  rcases levels with ⟨current, _ | ⟨next, around⟩⟩
  · simp [pop?] at h
  · obtain ⟨rfl, rfl⟩ := Prod.mk.inj (Option.some.inj h)
    rfl

theorem around_of_hooks_eq_nil {levels : Levels} (h : levels.hooks = []) : levels.around = [] := by
  rcases levels with ⟨current, _ | ⟨next, around⟩⟩
  · rfl
  · simp [hooks, toList] at h

theorem hooks_setOnEnd {levels : Levels} {first : Option (List Queued)} {hooks : Hooks}
    (h : levels.hooks = first :: hooks) (hook : EndHook) :
    (levels.setOnEnd hook).hooks =
      (Level.stash? { levels.current with onEnd := some hook }) :: hooks := by
  rcases levels with ⟨current, _ | ⟨next, around⟩⟩
  · simp [Levels.hooks, toList] at h
  · have htail : (((next :: around).map Level.stash?).dropLast) = hooks :=
      (List.cons.inj h).2
    rw [← htail]
    rfl

end Levels

/-! ## Where a body waits -/

/-- The item ends a body that stands for an event without a close of its own. -/
def Queued.endsBeside : Queued → Bool
  | .callback (.bodyDone _ false) => true
  | _ => false

namespace Queue

/-- How many elements the items close without opening them. -/
def closings : Queue → Nat
  | [] => 0
  | .event (.start _) :: queue => closings queue - 1
  | .event .close :: queue => closings queue + 1
  | .event (.text _) :: queue => closings queue
  | .event (.attr _ _) :: queue => closings queue
  | .callback _ :: queue => closings queue

/-- The element around `depth` others closes before any callback runs.  Behind the queue there is
nothing but events. -/
def closesFirst : Nat → Queue → Bool
  | _, [] => true
  | _, .callback _ :: _ => false
  | 0, .event .close :: _ => true
  | depth + 1, .event .close :: queue => closesFirst depth queue
  | depth, .event (.start _) :: queue => closesFirst (depth + 1) queue
  | depth, .event (.text _) :: queue => closesFirst depth queue
  | depth, .event (.attr _ _) :: queue => closesFirst depth queue

theorem closings_events {depth : Nat} {events : List Event} (h : Closes depth events)
    (queue : Queue) : closings (events.map .event ++ queue) = depth + closings queue := by
  induction events generalizing depth with
  | nil =>
    obtain rfl : depth = 0 := h
    simp
  | cons event events ih =>
    cases event with
    | start name =>
      have hinner : closings (events.map .event ++ queue) = depth + 1 + closings queue := ih h
      simp only [List.map_cons, List.cons_append, closings, hinner]
      omega
    | close =>
      cases depth with
      | zero => exact h.elim
      | succ depth =>
        have hinner : closings (events.map .event ++ queue) = depth + closings queue := ih h
        simp only [List.map_cons, List.cons_append, closings, hinner]
        omega
    | text content => exact ih h
    | attr name value => exact ih h

theorem closesFirst_events {depth : Nat} {events : List Event} (h : Closes depth events)
    (outer : Nat) (queue : Queue) :
    closesFirst (outer + depth) (events.map .event ++ queue) = closesFirst outer queue := by
  induction events generalizing depth with
  | nil =>
    obtain rfl : depth = 0 := h
    rfl
  | cons event events ih =>
    cases event with
    | start name =>
      have hinner : closesFirst (outer + (depth + 1)) (events.map .event ++ queue) =
          closesFirst outer queue := ih h
      rw [List.map_cons, List.cons_append, closesFirst, Nat.add_assoc, hinner]
    | close =>
      cases depth with
      | zero => exact h.elim
      | succ depth =>
        rw [← Nat.add_assoc, List.map_cons, List.cons_append, closesFirst]
        exact ih h
    | text content =>
      simp only [List.map_cons, List.cons_append, closesFirst]
      exact ih h
    | attr name value =>
      simp only [List.map_cons, List.cons_append, closesFirst]
      exact ih h

theorem closesFirst_map_event (depth : Nat) (events : List Event) :
    closesFirst depth (events.map .event) = true := by
  induction events generalizing depth with
  | nil => cases depth <;> rfl
  | cons event events ih =>
    cases event with
    | start name => simpa [closesFirst] using ih (depth + 1)
    | close =>
      cases depth with
      | zero => rfl
      | succ depth => exact ih depth
    | text content => simpa [closesFirst] using ih depth
    | attr name value => simpa [closesFirst] using ih depth

theorem closesFirst_append_events {depth : Nat} {queue : Queue}
    (h : queue.closesFirst depth = true) (events : List Event) :
    closesFirst depth (queue ++ events.map .event) = true := by
  induction queue generalizing depth with
  | nil => exact closesFirst_map_event depth events
  | cons item queue ih =>
    rcases item with (name | _ | content | ⟨name, value⟩) | callback
    · simp only [closesFirst, List.cons_append] at h ⊢
      exact ih h
    · cases depth with
      | zero => rfl
      | succ depth => exact ih h
    · simp only [closesFirst, List.cons_append] at h ⊢
      exact ih h
    · simp only [closesFirst, List.cons_append] at h ⊢
      exact ih h
    · cases depth <;> simp [closesFirst] at h

end Queue

/-- A body that lets its element through and is stashed at the innermost level is stranded there:
it stands for an event without a close of its own, and the element that this event is in is the
root, or gives back another body, or closes only after the end of a body or round around it. -/
def Hooks.strands (hooks : Hooks) (stash behind : Queue) : Bool :=
  stash.any Queued.endsBeside &&
    match hooks[stash.closings]? with
    | some none => !behind.closesFirst 0
    | _ => true

theorem Hooks.strands_front {depth : Nat} {events : List Event} {hooks : Hooks}
    {stash behind : Queue} (hevents : Closes depth events)
    (h : Hooks.strands hooks stash behind = true) :
    Hooks.strands (List.replicate depth none ++ hooks) (events.map .event ++ stash) behind =
      true := by
  have hsame : (List.replicate depth none ++ hooks)[depth + stash.closings]? =
      hooks[stash.closings]? := by
    rw [List.getElem?_append_right (by simp), List.length_replicate, Nat.add_sub_cancel_left]
  have hbeside : (events.map Queued.event).any Queued.endsBeside = false := by
    simp [Queued.endsBeside]
  unfold Hooks.strands at h ⊢
  rw [List.any_append, hbeside, Bool.false_or, Queue.closings_events hevents, hsame]
  exact h

theorem Hooks.strands_append_events {hooks : Hooks} {stash behind : Queue}
    (h : Hooks.strands hooks stash behind = false) (events : List Event) :
    Hooks.strands hooks stash (behind ++ events.map .event) = false := by
  unfold Hooks.strands at h ⊢
  cases hbeside : stash.any Queued.endsBeside with
  | false => rfl
  | true =>
    rw [hbeside, Bool.true_and] at h
    split at h
    · have hcloses : Queue.closesFirst 0 behind = true := by simpa using h
      simp [Queue.closesFirst_append_events hcloses events, *]
    · simp at h

/-! ## The order -/

/-- `Orderly start hooks queue markers scope`: what is in the queue closes the open elements and
ends the bodies and rounds that run, from the inside out, and their overlays take the scope back to
`start`. -/
inductive Orderly (start : Scope) : Hooks → Queue → Markers → Scope → Prop
  | ended : Orderly start [] [] [] start
  /-- Events of a document or a body, in elements that give nothing back. -/
  | front {depth : Nat} {events : List Event} {hooks : Hooks} {queue : Queue} {markers : Markers}
      {scope : Scope} (hevents : Closes depth events)
      (h : Orderly start hooks queue markers scope) :
      Orderly start (List.replicate depth none ++ hooks) (events.map .event ++ queue) markers scope
  | round {overlay : Overlay} {loop : Loop} {hooks : Hooks} {queue : Queue} {markers : Markers}
      {scope : Scope} (hbody : Balanced loop.body)
      (h : Orderly start hooks queue markers (scope.release overlay)) :
      Orderly start hooks (.callback (.roundDone overlay loop) :: queue) markers scope
  /-- A body in the place of a text, an attribute or a close. -/
  | beside {overlay : Overlay} {hooks : Hooks} {queue : Queue} {markers : Markers} {scope : Scope}
      (h : Orderly start hooks queue markers (scope.release overlay)) :
      Orderly start hooks (.callback (.bodyDone overlay false) :: queue)
        (.opened queue.length :: markers) scope
  /-- A body in the place of a start: the element is still to come. -/
  | around {overlay : Overlay} {inside : List Event} {hooks : Hooks} {queue : Queue}
      {markers : Markers} {scope : Scope} (hinside : Balanced inside)
      (h : Orderly start hooks queue markers (scope.release overlay)) :
      Orderly start (none :: hooks)
        (.callback (.bodyDone overlay true) :: (inside.map .event ++ .event .close :: queue))
        (.opened (inside.map Queued.event ++ .event .close :: queue).length :: markers) scope
  /-- A body that has let its element through and goes on after it. -/
  | resumed {overlay : Overlay} {selectedStart : Bool} {hooks : Hooks} {queue : Queue}
      {markers : Markers} {scope : Scope}
      (h : Orderly start hooks queue markers (scope.release overlay)) :
      Orderly start hooks (.callback (.bodyDone overlay selectedStart) :: queue)
        (.claimed :: markers) scope
  /-- A body that goes on when the element that it lets through closes. -/
  | suspended {stash : List Queued} {hooks : Hooks} {queue : Queue} {markers : Markers}
      {scope : Scope} (hbelow : ∀ n, .opened n ∈ markers → n < queue.length)
      (h : Orderly start hooks (stash ++ queue) (.claimed :: markers) scope) :
      Orderly start (some stash :: hooks) (.event .close :: queue) (.claimed :: markers) scope

namespace Orderly

variable {start : Scope} {hooks : Hooks} {queue : Queue} {markers : Markers} {scope : Scope}

theorem behind {events : List Event} (hevents : Balanced events)
    (h : Orderly start hooks queue markers scope) :
    Orderly start hooks (events.map .event ++ queue) markers scope :=
  front hevents h

theorem behind_close (h : Orderly start hooks queue markers scope) :
    Orderly start (none :: hooks) (.event .close :: queue) markers scope := by
  have hclose : Closes 1 [.close] := rfl
  exact front hclose h

/-- The order does not depend on the variables: another scope is taken back to somewhere else. -/
theorem rescope (h : Orderly start hooks queue markers scope) (other : Scope) :
    ∃ start', Orderly start' hooks queue markers other := by
  induction h generalizing other with
  | ended => exact ⟨other, .ended⟩
  | front hevents h ih =>
    obtain ⟨start', h'⟩ := ih other
    exact ⟨start', .front hevents h'⟩
  | @round overlay loop hooks queue markers scope hbody h ih =>
    obtain ⟨start', h'⟩ := ih (other.release overlay)
    exact ⟨start', .round hbody h'⟩
  | @beside overlay hooks queue markers scope h ih =>
    obtain ⟨start', h'⟩ := ih (other.release overlay)
    exact ⟨start', .beside h'⟩
  | @around overlay inside hooks queue markers scope hinside h ih =>
    obtain ⟨start', h'⟩ := ih (other.release overlay)
    exact ⟨start', .around hinside h'⟩
  | @resumed overlay selectedStart hooks queue markers scope h ih =>
    obtain ⟨start', h'⟩ := ih (other.release overlay)
    exact ⟨start', .resumed h'⟩
  | suspended hbelow h ih =>
    obtain ⟨start', h'⟩ := ih other
    exact ⟨start', .suspended hbelow h'⟩

/-! ## The first item of the queue -/

theorem nil (h : Orderly start hooks [] markers scope) :
    hooks = [] ∧ markers = [] ∧ scope = start := by
  generalize hempty : ([] : Queue) = items at h
  induction h with
  | ended => exact ⟨rfl, rfl, rfl⟩
  | front hevents h ih =>
    obtain ⟨hevents', hqueue⟩ := List.append_eq_nil_iff.1 hempty.symm
    rw [List.map_eq_nil_iff.1 hevents', closes_nil] at hevents
    subst hevents
    exact ih hqueue.symm
  | _ => simp at hempty

theorem plain {event : Event} (hevent : Capture.shift event = 0)
    (h : Orderly start hooks (.event event :: queue) markers scope) :
    Orderly start hooks queue markers scope := by
  generalize hitems : Queued.event event :: queue = items at h
  induction h with
  | @front depth events hooks behind markers scope hevents h ih =>
    cases events with
    | nil =>
      rw [closes_nil] at hevents
      subst hevents
      exact ih hitems
    | cons first events =>
      obtain ⟨hfirst, rfl⟩ := List.cons.inj hitems
      obtain rfl : event = first := Queued.event.inj hfirst
      have hrest : Closes depth events := by
        cases event with
        | text content => exact hevents
        | attr name value => exact hevents
        | start name => simp [Capture.shift] at hevent
        | close => simp [Capture.shift] at hevent
      exact .front hrest h
  | suspended hbelow h =>
    obtain ⟨hfirst, -⟩ := List.cons.inj hitems
    rw [Queued.event.inj hfirst] at hevent
    simp [Capture.shift] at hevent
  | _ => simp at hitems

theorem start_cases {name : String}
    (h : Orderly start hooks (.event (.start name) :: queue) markers scope) :
    ∃ inside rest, queue = inside.map .event ++ .event .close :: rest ∧ Balanced inside ∧
      Orderly start hooks rest markers scope := by
  generalize hitems : Queued.event (.start name) :: queue = items at h
  induction h with
  | @front depth events hooks behind markers scope hevents h ih =>
    cases events with
    | nil =>
      rw [closes_nil] at hevents
      subst hevents
      exact ih hitems
    | cons first events =>
      obtain ⟨hfirst, rfl⟩ := List.cons.inj hitems
      obtain rfl : Event.start name = first := Queued.event.inj hfirst
      have hdepth : depth + 1 = 0 + (depth + 1) := by omega
      rw [closes_start, hdepth] at hevents
      obtain ⟨inside, after, rfl, hinside, hafter⟩ := Closes.split hevents
      refine ⟨inside, after.map .event ++ behind, by simp, hinside, .front hafter h⟩
  | suspended hbelow h => simp at hitems
  | _ => simp at hitems

/-- A close closes the innermost element, which may give something back. -/
theorem close (h : Orderly start hooks (.event .close :: queue) markers scope) :
    ∃ first outer, hooks = first :: outer ∧
      Orderly start outer (first.getD [] ++ queue) markers scope := by
  generalize hitems : Queued.event .close :: queue = items at h
  induction h with
  | @front depth events hooks behind markers scope hevents h ih =>
    cases events with
    | nil =>
      rw [closes_nil] at hevents
      subst hevents
      exact ih hitems
    | cons first events =>
      obtain ⟨hfirst, rfl⟩ := List.cons.inj hitems
      obtain rfl : Event.close = first := Queued.event.inj hfirst
      cases depth with
      | zero => exact hevents.elim
      | succ depth => exact ⟨none, _, rfl, .front hevents h⟩
  | suspended hbelow h =>
    obtain ⟨-, rfl⟩ := List.cons.inj hitems
    exact ⟨_, _, rfl, h⟩
  | _ => simp at hitems

theorem callback_cases {callback : Callback}
    (h : Orderly start hooks (.callback callback :: queue) markers scope) :
    (∃ overlay loop, callback = .roundDone overlay loop ∧ Balanced loop.body ∧
      Orderly start hooks queue markers (scope.release overlay)) ∨
    (∃ overlay outer, callback = .bodyDone overlay false ∧
      markers = .opened queue.length :: outer ∧
      Orderly start hooks queue outer (scope.release overlay)) ∨
    (∃ overlay outer hooks' inside rest, callback = .bodyDone overlay true ∧
      markers = .opened queue.length :: outer ∧ hooks = none :: hooks' ∧
      queue = inside.map .event ++ .event .close :: rest ∧ Balanced inside ∧
      Orderly start hooks' rest outer (scope.release overlay)) ∨
    (∃ overlay selectedStart outer, callback = .bodyDone overlay selectedStart ∧
      markers = .claimed :: outer ∧ Orderly start hooks queue outer (scope.release overlay)) := by
  generalize hitems : Queued.callback callback :: queue = items at h
  induction h with
  | @front depth events hooks behind markers scope hevents h ih =>
    cases events with
    | nil =>
      rw [closes_nil] at hevents
      subst hevents
      exact ih hitems
    | cons first events => simp at hitems
  | round hbody h =>
    obtain ⟨hfirst, rfl⟩ := List.cons.inj hitems
    exact .inl ⟨_, _, Queued.callback.inj hfirst, hbody, h⟩
  | beside h =>
    obtain ⟨hfirst, rfl⟩ := List.cons.inj hitems
    exact .inr (.inl ⟨_, _, Queued.callback.inj hfirst, rfl, h⟩)
  | around hinside h =>
    obtain ⟨hfirst, rfl⟩ := List.cons.inj hitems
    exact .inr (.inr (.inl ⟨_, _, _, _, _, Queued.callback.inj hfirst, rfl, rfl, rfl, hinside, h⟩))
  | resumed h =>
    obtain ⟨hfirst, rfl⟩ := List.cons.inj hitems
    exact .inr (.inr (.inr ⟨_, _, _, Queued.callback.inj hfirst, rfl, h⟩))
  | ended => simp at hitems
  | suspended hbelow h => simp at hitems

/-! ## Open markers -/

/-- The callback of a body whose marker is open is in the queue, right before the items that the
marker has recorded. -/
theorem exists_suffix_of_opened {n : Nat} (h : Orderly start hooks queue markers scope)
    (hopened : .opened n ∈ markers) :
    ∃ callback rest, (.callback callback :: rest) <:+ queue ∧ rest.length = n := by
  induction h with
  | ended => simp at hopened
  | front hevents h ih =>
    obtain ⟨callback, rest, hsuffix, hlength⟩ := ih hopened
    exact ⟨callback, rest, hsuffix.trans (List.suffix_append _ _), hlength⟩
  | round hbody h ih =>
    obtain ⟨callback, rest, hsuffix, hlength⟩ := ih hopened
    exact ⟨callback, rest, hsuffix.trans (List.suffix_cons _ _), hlength⟩
  | beside h ih =>
    rcases List.mem_cons.1 hopened with hfirst | hmem
    · exact ⟨_, _, List.suffix_rfl, (Marker.opened.inj hfirst).symm⟩
    · obtain ⟨callback, rest, hsuffix, hlength⟩ := ih hmem
      exact ⟨callback, rest, hsuffix.trans (List.suffix_cons _ _), hlength⟩
  | around hinside h ih =>
    rcases List.mem_cons.1 hopened with hfirst | hmem
    · exact ⟨_, _, List.suffix_rfl, (Marker.opened.inj hfirst).symm⟩
    · obtain ⟨callback, rest, hsuffix, hlength⟩ := ih hmem
      refine ⟨callback, rest, hsuffix.trans ?_, hlength⟩
      exact (List.suffix_cons _ _).trans ((List.suffix_append _ _).trans (List.suffix_cons _ _))
  | resumed h ih =>
    obtain ⟨callback, rest, hsuffix, hlength⟩ := ih (by simpa using hopened)
    exact ⟨callback, rest, hsuffix.trans (List.suffix_cons _ _), hlength⟩
  | @suspended stash hooks queue markers scope hbelow h ih =>
    have hmem : Marker.opened n ∈ markers := by simpa using hopened
    obtain ⟨callback, rest, hsuffix, hlength⟩ := ih hopened
    -- The callback may not stand in the stash, which is not in the queue now; it is too far behind.
    have hshort : (Queued.callback callback :: rest).length ≤ queue.length := by
      have hn := hbelow n hmem
      simp only [List.length_cons]
      omega
    have hbehind : (.callback callback :: rest) <:+ queue :=
      List.suffix_of_suffix_length_le hsuffix (List.suffix_append stash queue) hshort
    exact ⟨callback, rest, hbehind.trans (List.suffix_cons _ _), hlength⟩

theorem opened_lt {n : Nat} (h : Orderly start hooks queue markers scope)
    (hopened : .opened n ∈ markers) : n < queue.length := by
  obtain ⟨callback, rest, hsuffix, hlength⟩ := h.exists_suffix_of_opened hopened
  have hle := hsuffix.length_le
  rw [List.length_cons] at hle
  omega

/-- An element that closes before any callback runs has some events left, and then its close. -/
theorem close_first {first : Option (List Queued)} {queue : Queue}
    (h : Orderly start (first :: hooks) queue markers scope)
    (hcloses : queue.closesFirst 0 = true) :
    ∃ inside rest, queue = inside.map .event ++ .event .close :: rest ∧ Balanced inside ∧
      Orderly start hooks (first.getD [] ++ rest) markers scope := by
  match queue, h, hcloses with
  | [], h, _ => exact absurd h.nil.1 (by simp)
  | .callback callback :: queue, _, hcloses => simp [Queue.closesFirst] at hcloses
  | .event .close :: queue, h, _ =>
    obtain ⟨first', outer, hhooks, hrest⟩ := h.close
    obtain ⟨rfl, rfl⟩ := List.cons.inj hhooks
    exact ⟨[], queue, rfl, rfl, hrest⟩
  | .event (.text content) :: queue, h, hcloses =>
    have hplain : Orderly start (first :: hooks) queue markers scope := h.plain rfl
    obtain ⟨inside, rest, rfl, hinside, hrest⟩ := hplain.close_first hcloses
    exact ⟨.text content :: inside, rest, rfl, hinside, hrest⟩
  | .event (.attr name value) :: queue, h, hcloses =>
    have hplain : Orderly start (first :: hooks) queue markers scope := h.plain rfl
    obtain ⟨inside, rest, rfl, hinside, hrest⟩ := hplain.close_first hcloses
    exact ⟨.attr name value :: inside, rest, rfl, hinside, hrest⟩
  | .event (.start name) :: queue, h, hcloses =>
    -- The children and their close are passed in one go, so the recursion is on the length.
    obtain ⟨children, after, rfl, hchildren, hafter⟩ := h.start_cases
    have hpassed : Queue.closesFirst 0 after = true := by
      rw [Queue.closesFirst, Nat.zero_add] at hcloses
      exact (Queue.closesFirst_events hchildren 1 _).symm.trans hcloses
    obtain ⟨inside, rest, rfl, hinside, hrest⟩ := hafter.close_first hpassed
    have hboth : Closes (0 + 1) (children ++ .close :: inside) := Closes.append hchildren hinside
    exact ⟨.start name :: (children ++ .close :: inside), rest, by simp, hboth, hrest⟩
termination_by queue.length

/-- What is left of the innermost body, whose marker is open, can wait for the close of the
innermost element, unless it is stranded there. -/
theorem claim {n : Nat} (h : Orderly start hooks queue (.opened n :: markers) scope) :
    ∃ stash behind, queue = stash ++ behind ∧ behind.length = n ∧
      (Hooks.strands hooks stash behind = true ∨
        ∃ outer, hooks = none :: outer ∧
          Orderly start (some stash :: outer) behind (.claimed :: markers) scope) := by
  suffices hclaim : ∃ stash behind, queue = stash ++ behind ∧ behind.length = n ∧
      (Hooks.strands hooks stash behind = true ∨
        ∃ outer inside after, hooks = none :: outer ∧
          behind = inside.map .event ++ .event .close :: after ∧ Balanced inside ∧
          (∀ m, .opened m ∈ markers → m < after.length) ∧
          Orderly start outer (stash ++ after) (.claimed :: markers) scope) by
    obtain ⟨stash, behind, hqueue, hlength, hkind⟩ := hclaim
    refine ⟨stash, behind, hqueue, hlength, hkind.imp_right ?_⟩
    rintro ⟨outer, inside, after, hhooks, rfl, hinside, hbelow, horderly⟩
    exact ⟨outer, hhooks, .behind hinside (.suspended hbelow horderly)⟩
  -- Whatever stands in front of the innermost body's callback belongs to what is left of the body,
  -- so the stash grows with each rule until the one that opened the marker.
  generalize hmarkers : Marker.opened n :: markers = all at h
  induction h with
  | ended => simp at hmarkers
  | @front depth events hooks queue all scope hevents h ih =>
    obtain ⟨stash, behind, hqueue, hlength, hkind⟩ := ih hmarkers
    refine ⟨events.map .event ++ stash, behind, by simp [hqueue], hlength, ?_⟩
    rcases hkind with hstrands | ⟨outer, inside, after, rfl, hbehind, hinside, hbelow, horderly⟩
    · exact .inl (Hooks.strands_front hevents hstrands)
    · refine .inr ⟨List.replicate depth none ++ outer, inside, after, ?_, hbehind, hinside,
        hbelow, ?_⟩
      · rw [← List.singleton_append, ← List.append_assoc, ← List.replicate_succ',
          List.replicate_succ, List.cons_append]
      · rw [List.append_assoc]
        exact .front hevents horderly
  | @round overlay loop hooks queue all scope hbody h ih =>
    obtain ⟨stash, behind, hqueue, hlength, hkind⟩ := ih hmarkers
    refine ⟨.callback (.roundDone overlay loop) :: stash, behind, by simp [hqueue], hlength, ?_⟩
    rcases hkind with hstrands | ⟨outer, inside, after, hhooks, hbehind, hinside, hbelow, horderly⟩
    · exact .inl hstrands
    · exact .inr ⟨outer, inside, after, hhooks, hbehind, hinside, hbelow, .round hbody horderly⟩
  | @beside overlay hooks queue all scope h ih =>
    obtain ⟨hfirst, rfl⟩ := List.cons.inj hmarkers
    refine ⟨[.callback (.bodyDone overlay false)], queue, rfl, (Marker.opened.inj hfirst).symm, ?_⟩
    -- The element around the event has to stand in for an element of the body's own.
    rcases hooks with _ | ⟨_ | stash, outer⟩
    · exact .inl rfl
    · cases hcloses : queue.closesFirst 0 with
      | false => exact .inl (by simp [Hooks.strands, Queued.endsBeside, Queue.closings, hcloses])
      | true =>
        obtain ⟨inside, after, hbehind, hinside, hrest⟩ := h.close_first hcloses
        exact .inr ⟨outer, inside, after, rfl, hbehind, hinside,
          fun m hmem => hrest.opened_lt hmem, .resumed hrest⟩
    · exact .inl rfl
  | @around overlay inside hooks queue all scope hinside h ih =>
    obtain ⟨hfirst, rfl⟩ := List.cons.inj hmarkers
    exact ⟨[.callback (.bodyDone overlay true)], inside.map .event ++ .event .close :: queue, rfl,
      (Marker.opened.inj hfirst).symm, .inr ⟨hooks, inside, queue, rfl, rfl, hinside,
        fun m hmem => h.opened_lt hmem, .resumed h⟩⟩
  | resumed h => simp at hmarkers
  | suspended hbelow h => simp at hmarkers

end Orderly
end TreeStream
