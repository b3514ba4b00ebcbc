import TreeStream.Proofs.Framing

/-!
# Which streams are accepted

As long as nothing is let through, an engine takes a stream event by event as long as it closes no
more than it opens, and when a balanced piece of it has passed, the engine is where it was before.

* `Engine.Idle`: what is open between two events, over an earlier state.
* `Engine.Idle.submit` takes one more event, or refuses it; `Engine.Idle.submitAll` takes several.
* `Engine.balanced_framed`: what a balanced piece of a stream leaves as it was.
* `Engine.accepts_admissible`: which events are accepted, which levels are open after each of them,
  and when the stream may end.
-/

namespace TreeStream
set_option autoImplicit false

/-- The number of elements that are open inside of a body that is gathered. -/
def Capture.depth? : Capture → Option Int
  | .firstText _ _ => none
  | .subLevel depth _ _ _ => some depth

namespace Engine

/-- The engine waits for the next event, and elements of the given names are open since it was in
the state `start`. -/
structure Idle (engine : Engine) (P : Event → Prop) (start : State) (quiet : Prop)
    (names : List String) (s : State) : Prop where
  frames : engine.Frames start quiet names s
  keeps : engine.Keeps P s
  queue : s.queue = []
  halted : s.halted = false

section Runs

variable {engine : Engine} {P : Event → Prop} {start s t : State} {quiet : Prop}
  {names names' : List String}

theorem drain_frames {steps : Nat} {result : Except Fault Unit}
    (hnone : ∀ name, P (.start name) → engine.options.classify name ≠ .directive .through)
    (h : engine.Frames start quiet names s) (hkeeps : engine.Keeps P s)
    (hregisters : quiet → ∀ worked ∈ engine.drainTrace steps s, worked.registers? ≠ some "END")
    (hdrain : engine.drain steps s = some (result, t)) :
    result = .ok () ∧ engine.Frames start quiet names t ∧ engine.Keeps P t ∧ t.queue = [] ∧
      t.halted = s.halted := by
  fun_induction drain engine steps s with
  | case1 steps s hqueue =>
    obtain ⟨rfl, rfl⟩ := Prod.mk.inj (Option.some.inj hdrain)
    exact ⟨rfl, h, hkeeps, hqueue, rfl⟩
  | case2 s item queue hqueue => simp at hdrain
  | case3 s item queue hqueue steps fault s' hstep => exact absurd hstep (h.not_fault hqueue)
  | case4 s item queue hqueue steps s' hstep ih =>
    obtain ⟨hitem, hothers⟩ := List.forall_mem_cons.1 (hqueue ▸ hkeeps.queue)
    have hhalted := step_halted engine item { s with queue }
    rw [hstep] at hhalted
    rw [drainTrace_succ_of_ok hqueue hstep] at hregisters
    have hnext := h.step hkeeps hnone hqueue
      (fun hquiet => hregisters hquiet _ List.mem_cons_self) hstep
    have hkept := step_keeps (hkeeps.withQueue hothers) hitem hstep
    have hlater : quiet → ∀ worked ∈ engine.drainTrace steps s', worked.registers? ≠ some "END" :=
      fun hquiet worked hmem => hregisters hquiet worked (List.mem_cons_of_mem _ hmem)
    obtain ⟨hok, hframes, hkeeps', hempty, hsame⟩ := ih hnext hkept hlater hdrain
    exact ⟨hok, hframes, hkeeps', hempty, hsame.trans hhalted⟩

theorem Frames.take {event : Event} (h : engine.Frames start quiet names s) (hqueue : s.queue = [])
    (hnames : unclosed names [event] = some names') :
    engine.Frames start quiet names' { s with queue := [.event event] } := by
  obtain ⟨slots, inner, hframed, hwaiting⟩ := h
  rw [hqueue] at hframed hwaiting
  refine ⟨slots, inner, ?_, ?_⟩
  · exact ⟨hframed.levels, Queue.settles_take hframed.settles hnames, hframed.markers,
      hframed.scope, hframed.silent, hframed.output⟩
  · have hcloses := fun depth => Queue.closesFirst_map_event depth [event]
    change Waiting _ slots inner s.captures
    generalize s.captures = captures at hwaiting
    cases hwaiting with
    | nobody hfree => exact .nobody hfree
    | argument hfree _ => exact .argument hfree (hcloses 0)
    | body hfree _ => exact .body hfree (hcloses _)

/-- What is open between two events: elements on levels, and elements inside of a body that is
gathered. -/
theorem Frames.opened (h : engine.Frames start quiet names s) (hqueue : s.queue = []) :
    ∃ slots inner, engine.Framed start quiet names slots inner [] s ∧
      Waiting [] slots inner s.captures ∧ names = inner ++ slots.map Slot.name := by
  obtain ⟨slots, inner, hframed, hwaiting⟩ := h
  rw [hqueue] at hframed hwaiting
  have hentries := congrArg (List.map Prod.fst) hframed.settles
  simp [Function.comp_def, Slot.entry] at hentries
  exact ⟨slots, inner, hframed, hwaiting, hentries.symm⟩

/-- Where nothing is open, nobody waits. -/
theorem Frames.closed (h : engine.Frames start quiet [] s) (hqueue : s.queue = []) :
    engine.Framed start quiet [] [] [] [] s ∧ s.captures = [] := by
  obtain ⟨slots, inner, hframed, hwaiting, hempty⟩ := h.opened hqueue
  obtain ⟨rfl, hslots⟩ := List.append_eq_nil_iff.1 hempty.symm
  obtain rfl : slots = [] := List.map_eq_nil_iff.1 hslots
  exact ⟨hframed, hwaiting.of_nil.1⟩

namespace Idle

theorem refl (hkeeps : engine.Keeps P s) (hqueue : s.queue = []) (hcaptures : s.captures = [])
    (hhalted : s.halted = false) (quiet : Prop)
    (hquiet : quiet → s.levels.lookup ["END"] = none) : engine.Idle P s quiet [] s := by
  refine ⟨⟨[], [], ⟨.refl _, ?_, ?_, ?_, ?_, ?_⟩, ?_⟩, hkeeps, hqueue, hhalted⟩
  · rw [hqueue]
    rfl
  · rw [hqueue]
    rfl
  · rw [hqueue]
    exact ⟨rfl, fun _ => rfl⟩
  · exact fun h => Levels.all_of_lookup_eq_none (hquiet h)
  · exact fun _ => .refl _
  · rw [hcaptures]
    exact .nobody (by simp)

theorem pushBack (h : engine.Idle P start quiet names s) (event : Event) :
    s.queue.pushBack event = [.event event] := by
  rw [h.queue]
  rfl

/-- An event that does not close too much is accepted. -/
theorem submit (h : engine.Idle P start quiet names s) {event : Event} {steps : Nat}
    {result : Except Fault Unit}
    (hnone : ∀ name, P (.start name) → engine.options.classify name ≠ .directive .through)
    (hevent : P event) (hnames : unclosed names [event] = some names')
    (hregisters : quiet → ∀ worked ∈ engine.drainTrace steps
      { s with queue := s.queue.pushBack event }, worked.registers? ≠ some "END")
    (hsubmit : engine.submit steps event s = some (result, t)) :
    result = .ok () ∧ engine.Idle P start quiet names' t := by
  rw [Engine.submit, if_neg (by simp [h.halted]), h.pushBack] at hsubmit
  rw [h.pushBack] at hregisters
  have hkeeps : engine.Keeps P { s with queue := [.event event] } :=
    h.keeps.withQueue (List.forall_mem_singleton.2 hevent)
  rcases hdrain : engine.drain steps { s with queue := [.event event] } with _ | ⟨answer, u⟩
  · simp [hdrain] at hsubmit
  -- The event is in the queue, and the names count it already.
  obtain ⟨rfl, hframes, hkept, hqueue, hhalted⟩ :=
    drain_frames hnone (h.frames.take h.queue hnames) hkeeps hregisters hdrain
  simp only [hdrain] at hsubmit
  obtain ⟨rfl, rfl⟩ := Prod.mk.inj (Option.some.inj hsubmit)
  exact ⟨rfl, hframes, hkept, hqueue, hhalted.trans h.halted⟩

/-- A close of something that is not open is refused. -/
theorem submit_unmatched (h : engine.Idle P start quiet [] s) (hstart : start.levels.around = [])
    {steps : Nat} {result : Except Fault Unit}
    (hsubmit : engine.submit steps .close s = some (result, t)) :
    result = .error .unmatchedEnd := by
  obtain ⟨hframed, hcaptures⟩ := h.frames.closed h.queue
  have haround : s.levels.around = [] := hframed.levels.1.trans hstart
  have hstep : engine.step (.event .close) { s with queue := [] } = (.error .unmatchedEnd, s) := by
    have hsame : ({ s with queue := [] } : State) = s := by rw [← h.queue]
    rw [hsame]
    exact step_close_unmatched engine hcaptures haround
  rw [Engine.submit, if_neg (by simp [h.halted]), h.pushBack] at hsubmit
  cases steps with
  | zero =>
    rw [drain_zero_of_cons engine _ (.event .close) [] rfl] at hsubmit
    simp at hsubmit
  | succ steps =>
    have hdrain : engine.drain (steps + 1) { s with queue := [.event .close] } =
        some (.error .unmatchedEnd, s) :=
      drain_succ_of_error engine steps _ s (.event .close) [] .unmatchedEnd rfl hstep
    rw [hdrain] at hsubmit
    exact (Prod.mk.inj (Option.some.inj hsubmit)).1.symm

theorem submitAll {events : List Event} {steps : Nat} {result : Except Fault Unit}
    (hnone : ∀ name, P (.start name) → engine.options.classify name ≠ .directive .through)
    (h : engine.Idle P start quiet names s) (hevents : ∀ event ∈ events, P event)
    (hnames : unclosed names events = some names')
    (hregisters : quiet → ∀ worked ∈ engine.trace steps events s,
      worked.registers? ≠ some "END")
    (hsubmit : engine.submitAll steps events s = some (result, t)) :
    result = .ok () ∧ engine.Idle P start quiet names' t := by
  induction events generalizing names s with
  | nil =>
    obtain ⟨rfl, rfl⟩ := Prod.mk.inj (Option.some.inj hsubmit)
    obtain rfl := Option.some.inj hnames
    exact ⟨rfl, h⟩
  | cons event events ih =>
    obtain ⟨hevent, hrest⟩ := List.forall_mem_cons.1 hevents
    rw [← List.singleton_append, unclosed_append] at hnames
    obtain ⟨between, hbetween, hnames⟩ := Option.bind_eq_some_iff.1 hnames
    rw [Engine.submitAll] at hsubmit
    rcases hfirst : engine.submit steps event s with _ | ⟨answer, s'⟩
    · simp [hfirst] at hsubmit
    rw [trace] at hregisters
    obtain ⟨rfl, hidle⟩ := h.submit hnone hevent hbetween
      (fun hquiet worked hmem => hregisters hquiet worked (List.mem_append_left _ hmem)) hfirst
    simp only [hfirst] at hsubmit
    rw [drain_of_submit hfirst] at hregisters
    exact ih hidle hrest hnames
      (fun hquiet worked hmem => hregisters hquiet worked (List.mem_append_right _ hmem)) hsubmit

/-- The levels are those of some of the open elements, the outermost ones, and a body that is
gathered counts the others. -/
theorem tags (h : engine.Idle P start quiet names s) : ∃ k ≤ names.length,
    s.levels.tags = start.levels.tags ++ names.reverse.take k ∧
      (k : Int) + ((s.captures.findSome? Capture.depth?).getD 0) = names.length := by
  obtain ⟨slots, inner, hframed, hwaiting, rfl⟩ := h.frames.opened h.queue
  refine ⟨slots.length, by simp, ?_, ?_⟩
  · rw [hframed.levels.tags]
    simp
  · generalize s.captures = captures at hwaiting
    cases hwaiting with
    | nobody hfree => simp
    | argument hfree hcloses => simp [Capture.depth?]
    | body hfree hcloses =>
      simp [Capture.depth?]
      omega

/-- The stream may end where nothing is open. -/
theorem finish (h : engine.Idle P start quiet names s) (hstart : start.levels.around = [])
    (hmarkers : start.markers = []) :
    if names = [] then s.finish.1 = .ok ()
    else ∃ levels captures markers, s.finish.1 = .error (.truncated levels captures markers) := by
  obtain ⟨slots, inner, hframed, hwaiting, rfl⟩ := h.frames.opened h.queue
  have hnone : s.markers = [] := hframed.markers.trans hmarkers
  rcases slots with _ | ⟨slot, slots⟩
  · obtain ⟨hcaptures, rfl⟩ := hwaiting.of_nil
    have haround : s.levels.around = [] := hframed.levels.1.trans hstart
    simp [State.finish, h.halted, Levels.depth, haround, hcaptures, hnone]
  · have hopen : s.levels.around.length ≠ 0 :=
      fun hzero => hframed.levels.around_ne_nil (List.length_eq_zero_iff.1 hzero)
    simp [State.finish, h.halted, Levels.depth, hopen]

end Idle

theorem Session.keeps {events : List Event} {trace : List Worked}
    (h : engine.Session events s trace t) (hkeeps : engine.Keeps P s)
    (hevents : ∀ event ∈ events, P event) : engine.Keeps P t ∧ t.queue = [] := by
  induction h with
  | finished s hqueue => exact ⟨hkeeps, hqueue⟩
  | take hqueue rest ih =>
    obtain ⟨hevent, hrest⟩ := List.forall_mem_cons.1 hevents
    exact ih (hkeeps.withQueue (List.forall_mem_singleton.2 hevent)) hrest
  | work hqueue hstep rest ih =>
    obtain ⟨hitem, hothers⟩ := List.forall_mem_cons.1 (hqueue ▸ hkeeps.queue)
    exact ih (step_keeps (hkeeps.withQueue hothers) hitem hstep) hevents

/-- Whether an element of a given role stands in a list of events can be looked up. -/
theorem classify_ne_of_all {events : List Event} {tag : Tag}
    (h : (events.all fun event => match event with
      | .start name => engine.options.classify name != tag
      | _ => true) = true) (name : String) (hmem : .start name ∈ events) :
    engine.options.classify name ≠ tag := by
  simpa using List.all_eq_true.1 h _ hmem

end Runs

/-! ## Balanced pieces -/

/-- A balanced piece of a stream leaves everything as it was that is not its own: the levels with
their tags and hooks, and the handlers of those around the innermost one; captures, markers,
overlays and the queue; the scope, unless expressions set variables.  What it puts out is balanced,
unless the closes of elements are selected. -/
theorem balanced_framed (engine : Engine) {scope : Scope} {past : List Event} {earlier : Nat}
    {s : State} (hpast : engine.submitAll earlier past { scope } = some (.ok (), s))
    (hcaptures : s.captures = []) (forest : Forest)
    (hnone : ∀ name, .start name ∈ past ++ forest.events →
      engine.options.classify name ≠ .directive .through)
    {steps : Nat} {result : Except Fault Unit} {t : State}
    (h : engine.submitAll steps forest.events s = some (result, t)) :
    result = .ok () ∧ t.queue = [] ∧ t.captures = [] ∧ t.levels.depth = s.levels.depth ∧
      t.levels.tags = s.levels.tags ∧ t.levels.around = s.levels.around ∧
      t.levels.current.onEnd = s.levels.current.onEnd ∧ t.markers = s.markers ∧
      t.scope.overlays = s.scope.overlays ∧ (engine.evaluator.ReadsOnly → t.scope = s.scope) ∧
      (s.levels.lookup ["END"] = none →
        (∀ worked ∈ engine.trace steps forest.events s, worked.registers? ≠ some "END") →
        ∃ shown, t.output = s.output ++ shown ∧ Balanced shown) := by
  have hsession := session_of_submitAll rfl hpast
  obtain ⟨hkeeps, hqueue⟩ := hsession.keeps
    (Keeps.fresh engine (· ∈ past ++ forest.events) scope) fun event => List.mem_append_left _
  let quiet : Prop := s.levels.lookup ["END"] = none ∧
    ∀ worked ∈ engine.trace steps forest.events s, worked.registers? ≠ some "END"
  have hidle := Idle.refl hkeeps hqueue hcaptures hsession.halted quiet fun hquiet => hquiet.1
  obtain ⟨rfl, hafter⟩ := hidle.submitAll hnone (fun event => List.mem_append_right _)
    (unclosed_forest [] forest) (fun hquiet => hquiet.2) h
  obtain ⟨hframed, hnobody⟩ := hafter.frames.closed hafter.queue
  obtain ⟨haround, htag, hhook⟩ := hframed.levels
  refine ⟨rfl, hafter.queue, hnobody, ?_, ?_, haround, hhook, hframed.markers, hframed.scope.1,
    hframed.scope.2, ?_⟩
  · simp [Levels.depth, haround]
  · simp [Levels.tags, Levels.toList, haround, htag]
  · exact fun hlookup hregisters => (hframed.output ⟨hlookup, hregisters⟩).balanced

/-- In an element, and with a body registered for texts: a text, and a condition that is true. -/
theorem balanced_framed_selected :
    let engine : Engine := { evaluator := fun _ _ => ⟨.ok (.bool true), []⟩ }
    let past : List Event := [.start "::", .text "TEXT", .start "b", .close, .close, .start "a"]
    let forest : Forest := .text "x" (.element ":if" (.text "y" (.element "c" .nil .nil)) .nil)
    (∀ name, .start name ∈ past ++ forest.events →
      engine.options.classify name ≠ .directive .through) ∧
      ∃ s t, engine.submitAll 20 past {} = some (.ok (), s) ∧ s.captures = [] ∧
        engine.submitAll 20 forest.events s = some (.ok (), t) ∧
        t.levels.tags = s.levels.tags ∧ t.markers = s.markers ∧ t.scope = s.scope ∧
        ∃ shown, t.output = s.output ++ shown ∧ Balanced shown := by
  intro engine past forest
  have hnone : ∀ name, .start name ∈ past ++ forest.events →
      engine.options.classify name ≠ .directive .through :=
    classify_ne_of_all (by decide +kernel)
  have hok : (engine.submitAll 20 past {}).any (fun first => first.1.isOk &&
      (first.2.captures.isEmpty && (first.2.levels.lookup ["END"]).isNone &&
        ((engine.submitAll 20 forest.events first.2).isSome &&
          (engine.trace 20 forest.events first.2).all fun worked =>
            worked.registers? != some "END"))) = true := by
    decide +kernel
  rcases hpast : engine.submitAll 20 past {} with _ | ⟨fault | ⟨⟩, s⟩ <;> rw [hpast] at hok <;>
    simp only [Option.any_none, Option.any_some, Except.isOk, Except.toBool, Bool.true_and,
      Bool.false_and, Bool.and_eq_true, Bool.false_eq_true, List.isEmpty_iff,
      Option.isNone_iff_eq_none, List.all_eq_true, bne_iff_ne] at hok
  obtain ⟨⟨hcaptures, hlookup⟩, hsome, hregisters⟩ := hok
  obtain ⟨⟨result, t⟩, hforest⟩ := Option.isSome_iff_exists.1 hsome
  obtain ⟨rfl, -, -, -, htags, -, -, hmarkers, -, hscope, hshown⟩ :=
    balanced_framed engine hpast hcaptures forest hnone hforest
  exact ⟨hnone, s, t, rfl, hcaptures, hforest, htags, hmarkers, hscope fun _ _ => rfl,
    hshown hlookup hregisters⟩

/-! ## Whole streams -/

/-- A stream is accepted up to the first event that closes more than is open, which is refused.
After every event that is accepted, the levels are those of the outermost open elements, and a body
that is gathered counts the others.  A stream that is accepted may end where everything is closed,
and is truncated elsewhere. -/
theorem accepts_admissible (engine : Engine) (scope : Scope) {events : List Event}
    (hnone : ∀ name, .start name ∈ events → engine.options.classify name ≠ .directive .through)
    {steps : Nat} (hends : (engine.submitAll steps events { scope }).isSome) :
    (∀ front, front <+: events → Admissible front →
      ∃ t names, engine.submitAll steps front { scope } = some (.ok (), t) ∧
        unclosed [] front = some names ∧
        ∃ k ≤ names.length, t.levels.tags = "(root)" :: names.reverse.take k ∧
          (k : Int) + ((t.captures.findSome? Capture.depth?).getD 0) = names.length) ∧
      (∀ front event, front ++ [event] <+: events → Admissible front →
        ¬ Admissible (front ++ [event]) →
        ∃ s t, engine.submitAll steps front { scope } = some (.ok (), s) ∧
          engine.submit steps event s = some (.error .unmatchedEnd, t)) ∧
      (Admissible events → ∃ t, engine.submitAll steps events { scope } = some (.ok (), t) ∧
        if events.count .close = events.countP Event.isStart then t.finish.1 = .ok ()
        else ∃ levels captures markers,
          t.finish.1 = .error (.truncated levels captures markers)) := by
  have hfresh : engine.Idle (· ∈ events) { scope } False [] { scope } :=
    .refl (.fresh engine _ scope) rfl rfl rfl False False.elim
  have haccepted : ∀ front, front <+: events → Admissible front →
      ∃ t names, engine.submitAll steps front { scope } = some (.ok (), t) ∧
        unclosed [] front = some names ∧ engine.Idle (· ∈ events) { scope } False names t := by
    rintro front ⟨behind, rfl⟩ hfront
    obtain ⟨names, hnames⟩ := (admissible_iff front).1 hfront
    rw [submitAll_append] at hends
    rcases hsubmit : engine.submitAll steps front { scope } with _ | ⟨result, t⟩
    · simp [hsubmit] at hends
    obtain ⟨rfl, hidle⟩ := hfresh.submitAll hnone (fun event => List.mem_append_left _) hnames
      (fun hquiet => hquiet.elim) hsubmit
    exact ⟨t, names, rfl, hnames, hidle⟩
  refine ⟨?_, ?_, ?_⟩
  · intro front hprefix hfront
    obtain ⟨t, names, hsubmit, hnames, hidle⟩ := haccepted front hprefix hfront
    exact ⟨t, names, hsubmit, hnames, hidle.tags⟩
  · intro front event hprefix hfront hmore
    obtain ⟨s, names, hsubmit, hnames, hidle⟩ :=
      haccepted front ((List.prefix_append front [event]).trans hprefix) hfront
    have hunmatched : unclosed names [event] = none := by
      refine Option.eq_none_iff_forall_ne_some.2 fun names' hnames' => hmore ?_
      refine (admissible_iff _).2 ⟨names', ?_⟩
      rw [unclosed_append, hnames]
      exact hnames'
    obtain ⟨rfl, rfl⟩ : event = .close ∧ names = [] := by
      cases event <;> cases names <;> simp [unclosed] at hunmatched ⊢
    obtain ⟨behind, rfl⟩ := hprefix
    rw [List.append_assoc, submitAll_append, hsubmit] at hends
    simp only [List.singleton_append, submitAll] at hends
    rcases hlast : engine.submit steps .close s with _ | ⟨result, t⟩
    · simp [hlast] at hends
    obtain rfl := hidle.submit_unmatched rfl hlast
    exact ⟨s, t, hsubmit, hlast⟩
  · intro hadmissible
    obtain ⟨t, names, hsubmit, hnames, hidle⟩ := haccepted events (List.prefix_refl _) hadmissible
    refine ⟨t, hsubmit, ?_⟩
    have hcount := length_unclosed hnames
    have hfinish := hidle.finish rfl rfl
    have hclosed : names = [] ↔ events.count .close = events.countP Event.isStart := by
      rw [← List.length_eq_zero_iff]
      simp only [List.length_nil] at hcount
      omega
    simpa only [hclosed] using hfinish

/-- A condition that cannot be evaluated, and one close too many. -/
theorem accepts_admissible_excess :
    let engine : Engine := { evaluator := fun _ _ => ⟨.error (.undefined "y"), []⟩ }
    let events : List Event := [.start "a", .start ":if", .text "y", .start "c", .close, .close,
      .close]
    (∀ name, .start name ∈ events ++ [.close] →
      engine.options.classify name ≠ .directive .through) ∧
      (engine.submitAll 20 (events ++ [.close]) {}).isSome ∧
      ∃ s t, engine.submitAll 20 events {} = some (.ok (), s) ∧
        engine.submit 20 .close s = some (.error .unmatchedEnd, t) := by
  intro engine events
  have hnone : ∀ name, .start name ∈ events ++ [.close] →
      engine.options.classify name ≠ .directive .through :=
    classify_ne_of_all (by decide +kernel)
  have hends : (engine.submitAll 20 (events ++ [.close]) {}).isSome := by decide +kernel
  have hadmissible : Admissible events := (admissible_iff events).2 ⟨[], by decide +kernel⟩
  have hexcess : ¬ Admissible (events ++ [.close]) := by
    rw [admissible_iff]
    rintro ⟨names, hnames⟩
    have hnothing : unclosed [] (events ++ [.close]) = none := by decide +kernel
    simp [hnothing] at hnames
  obtain ⟨-, hrefused, -⟩ := accepts_admissible engine Scope.empty hnone hends
  exact ⟨hnone, hends, hrefused events .close List.prefix_rfl hadmissible hexcess⟩

end Engine
end TreeStream
