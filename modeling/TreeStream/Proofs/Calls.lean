import TreeStream.Proofs.Moves
import TreeStream.Proofs.Output

/-!
# What a host can rely on

A host calls an engine in any order, and does what it likes to the variables in between.  The first
fault halts the engine, and from then on all that is left to do is to take what it has put out.

* `Levels.Rooted levels`: the outermost level has no tag, and all others have one.
* `Call` and `Engine.call` are the calls and their answers, and `Engine.Serves` a sequence of them.
* `Engine.drain_fault` finds the item that a drain fails at, and what it leaves.
* `Engine.Serves.halted`: what a sequence of calls comes to after a fault.
* `Engine.calls_sound` puts the guarantees together.
-/

namespace TreeStream
set_option autoImplicit false

/-! ## The root -/

/-- The root is there, has no tag, and lies around levels that all have one. -/
def Levels.Rooted (levels : Levels) : Prop :=
  ∃ names : List String, levels.toList.map Level.tag = names.map some ++ [none]

namespace Levels.Rooted

variable {levels : Levels}

theorem root : Levels.root.Rooted :=
  ⟨[], rfl⟩

theorem push (h : levels.Rooted) (name : String) : (levels.push name).Rooted := by
  obtain ⟨names, hnames⟩ := h
  exact ⟨name :: names, congrArg (some name :: ·) hnames⟩

theorem of_pop? (h : levels.Rooted) {level : Level} {outer : Levels}
    (hpop : levels.pop? = some (level, outer)) : outer.Rooted := by
  rcases levels with ⟨current, _ | ⟨next, around⟩⟩
  · simp [Levels.pop?] at hpop
  · obtain ⟨rfl, rfl⟩ := Prod.mk.inj (Option.some.inj hpop)
    obtain ⟨_ | ⟨name, names⟩, hnames⟩ := h
    · simp [Levels.toList] at hnames
    · exact ⟨names, (List.cons.inj hnames).2⟩

theorem setOnEnd (h : levels.Rooted) (hook : EndHook) : (levels.setOnEnd hook).Rooted := h

theorem register (h : levels.Rooted) (key : String) (handler : Handler) :
    (levels.register key handler).Rooted := h

/-- One level for every open element, and the root. -/
theorem depth (h : levels.Rooted) : ∃ names : List String,
    levels.tags = "(root)" :: names ∧ levels.depth = names.length + 1 := by
  obtain ⟨names, hnames⟩ := h
  have hlength := congrArg List.length hnames
  refine ⟨names.reverse, ?_, ?_⟩
  · calc levels.tags = (levels.toList.map Level.tag).reverse.map (·.getD "(root)") := by
          simp [Levels.tags, Function.comp_def]
      _ = "(root)" :: names.reverse := by simp [hnames, Function.comp_def]
  · simpa [Levels.depth, Levels.toList] using hlength

end Levels.Rooted

theorem State.shiftLevel_rooted {s t : State} {close : LevelClose} (hs : s.levels.Rooted)
    (h : s.shiftLevel = .ok (close, t)) : t.levels.Rooted := by
  obtain ⟨level, outer, hpop, ⟨-, -, rfl⟩ | ⟨_ | stash | ⟨event, close'⟩, -, hrun⟩⟩ :=
    State.shiftLevel_cases h
  · exact hs.of_pop? hpop
  all_goals
    obtain ⟨-, rfl⟩ := Prod.mk.inj hrun
    exact hs.of_pop? hpop

theorem Loop.play_levels (loop : Loop) (s : State) : (loop.play s).levels = s.levels := by
  unfold Loop.play
  cases loop.left <;> rfl

theorem State.forward_levels (s : State) (keys : List String) (event : Event) :
    (s.forward keys event).levels = s.levels := by
  unfold State.forward
  rcases s.levels.lookup keys with _ | (_ | _) <;> rfl

theorem Callback.run_levels (callback : Callback) (s : State) :
    (callback.run s).levels = s.levels := by
  cases callback with
  | roundDone overlay loop => exact loop.play_levels (s.release overlay)
  | bodyDone overlay selectedStart =>
    simp only [Callback.run]
    split <;> rfl
  | announce event => rfl

theorem BodyUse.run_rooted (use : BodyUse) (body : List Event) {s : State}
    (hs : s.levels.Rooted) : (use.run body s).levels.Rooted := by
  cases use with
  | drop => exact hs
  | loop item index items =>
    have hsame := Loop.play_levels ⟨item, index, body, 0, items⟩ s
    exact hsame.symm ▸ hs
  | register selector binding => exact hs.register selector _
  | through =>
    simp only [BodyUse.run, State.letThrough]
    rcases s.markers.claim with misuse | ⟨length, markers⟩
    · exact hs
    · exact hs.setOnEnd _
  | report tag => exact hs

namespace Engine

variable {engine : Engine} {s t : State}

theorem step_rooted {item : Queued} (h : engine.step item s = (.ok (), t))
    (hs : s.levels.Rooted) : t.levels.Rooted := by
  cases item with
  | callback callback =>
    obtain ⟨-, rfl⟩ := Prod.mk.inj h
    exact (callback.run_levels s).symm ▸ hs
  | event event =>
    cases moves_of_step h with
    | forwarded hcaptures hforwards =>
      rw [State.forward_levels]
      cases hforwards with
      | element htag => exact hs.push _
      | unknown htag => exact hs.push _
      | close hshift => exact State.shiftLevel_rooted hs hshift
      | text => exact hs
      | attr => exact hs
    | suppressed hcaptures hshift => exact State.shiftLevel_rooted hs hshift
    | asked hcaptures huse => exact hs.push _
    | skipped hcaptures huse => exact hs.push _
    | heard hcaptures hevent text' => exact hs
    | @continued _ text use captures _ hcaptures hevent =>
      have hgoes := useText_goesOn engine use text
        { s with captures, queue := s.queue.pushFront event }
      generalize engine.useText use text { s with captures, queue := s.queue.pushFront event } = t
        at hgoes ⊢
      cases hgoes with
      | vanish scope log hscope => exact hs.setOnEnd _
      | _ => exact hs
    | gathered hcaptures hdepth => exact hs
    | @completed _ _ _ _ _ captures _ _ _ hcaptures hdepth hshift =>
      have hclosed := State.shiftLevel_rooted (s := { s with captures }) hs hshift
      exact BodyUse.run_rooted _ _ hclosed

theorem Runs.rooted {n : Nat} (h : engine.Runs n s t) (hs : s.levels.Rooted) : t.levels.Rooted :=
  h.preserves (P := fun s => s.levels.Rooted)
    (fun _ _ _ _ hs _ hstep => step_rooted hstep hs) hs

/-! ## The item that a drain fails at -/

/-- A drain fails at an item that is gone then, as is the capture that it ended; the rest is as the
items before it have left it. -/
theorem drain_fault {steps : Nat} {fault : Fault}
    (h : engine.drain steps s = some (.error fault, t)) :
    fault = .unmatchedEnd ∧ ∃ n w item queue, engine.Runs n s w ∧ w.queue = item :: queue ∧
      t = { w with queue, captures := t.captures } := by
  fun_induction drain engine steps s with
  | case1 steps s hqueue => simp at h
  | case2 s item queue hqueue => simp at h
  | case3 s item queue hqueue steps fault' t' hstep =>
    obtain ⟨rfl, rfl⟩ : fault' = fault ∧ t' = t := by simpa using h
    obtain ⟨hfault, ht, -⟩ := step_fault hstep
    exact ⟨hfault, 0, s, item, queue, rfl, hqueue, ht⟩
  | case4 s item queue hqueue steps s' hstep ih =>
    obtain ⟨hfault, n, w, last, left, hrun, hw, ht⟩ := ih h
    exact ⟨hfault, n + 1, w, last, left, ⟨item, queue, s', hqueue, hstep, hrun⟩, hw, ht⟩

theorem submit_fault {steps : Nat} {event : Event} {fault : Fault} (hhalted : s.halted = false)
    (h : engine.submit steps event s = some (.error fault, t)) :
    fault = .unmatchedEnd ∧ ∃ n w item queue,
      engine.Runs n { s with queue := s.queue.pushBack event } w ∧ w.queue = item :: queue ∧
        t = { w with queue, captures := t.captures, halted := true } := by
  rw [submit, if_neg (by simp [hhalted])] at h
  rcases hdrain : engine.drain steps { s with queue := s.queue.pushBack event } with
    _ | ⟨fault' | ⟨⟩, u⟩ <;> simp [hdrain] at h
  obtain ⟨rfl, rfl⟩ := h
  obtain ⟨hfault, n, w, item, queue, hrun, hw, hu⟩ := drain_fault hdrain
  refine ⟨hfault, n, w, item, queue, hrun, hw, ?_⟩
  rw [hu]

theorem finish_fault {fault : Fault} (hhalted : s.halted = false)
    (h : s.finish = (.error fault, t)) : t = { s with halted := true } ∧
      ∃ levels captures markers, fault = .truncated levels captures markers ∧
        ¬ (levels = 0 ∧ captures = 0 ∧ markers = 0) ∧ s.snapshot.tags.length = levels + 1 ∧
        s.snapshot.contexts = captures + 1 ∧ s.snapshot.markers = markers := by
  rw [State.finish, if_neg (by simp [hhalted])] at h
  dsimp only at h
  split at h
  · simp at h
  · rename_i hopen
    obtain ⟨hfault, rfl⟩ := Prod.mk.inj h
    refine ⟨rfl, _, _, _, (Except.error.inj hfault).symm, hopen, ?_, rfl, rfl⟩
    simp [State.snapshot, Levels.tags, Levels.toList, Levels.depth]

/-! ## Calls -/

/-- What a host can ask of an engine; between its calls it can put any scope in the place of the
one that there is. -/
inductive Call where
  | submit (event : Event)
  | submitAll (events : List Event)
  | finish
  | run (events : List Event)
  | takeOutput
  | rescope (scope : Scope)

/-- The output that a call has given out. -/
abbrev Answer := Except Fault (List Event)

/-- Answers a call; the calls that give no output give an empty one. -/
def call (engine : Engine) (steps : Nat) : Call → State → Option (Answer × State)
  | .submit event, s =>
    (engine.submit steps event s).map fun (result, t) => (result.map fun _ => [], t)
  | .submitAll events, s =>
    (engine.submitAll steps events s).map fun (result, t) => (result.map fun _ => [], t)
  | .finish, s => some (s.finish.1.map fun _ => [], s.finish.2)
  | .run events, s => engine.run steps events s
  | .takeOutput, s => some (.ok s.takeOutput.1, s.takeOutput.2)
  | .rescope scope, s => some (.ok [], { s with scope })

/-- Calls with their answers, one after the other. -/
inductive Serves (engine : Engine) (steps : Nat) : State → List (Call × Answer) → State → Prop
  | nil (s : State) : Serves engine steps s [] s
  | cons {call : Call} {answer : Answer} {s t u : State} {later : List (Call × Answer)}
      (h : engine.call steps call s = some (answer, t)) (rest : Serves engine steps t later u) :
      Serves engine steps s ((call, answer) :: later) u

/-- The outputs that have been given out. -/
def taken : List (Call × Answer) → List (List Event)
  | [] => []
  | (.takeOutput, .ok output) :: later => output :: taken later
  | (.run _, .ok output) :: later => output :: taken later
  | _ :: later => taken later

/-! ## What every call keeps -/

/-- A stream is run by submitting its events, finishing, and taking the output. -/
theorem run_cases {steps : Nat} {events : List Event} {answer : Answer}
    (h : engine.run steps events s = some (answer, t)) :
    (∃ fault, answer = .error fault ∧ engine.submitAll steps events s = some (.error fault, t)) ∨
      ∃ u, engine.submitAll steps events s = some (.ok (), u) ∧
        ((∃ fault, answer = .error fault ∧ u.finish = (.error fault, t)) ∨
          ∃ v, u.finish = (.ok (), v) ∧ answer = .ok v.output ∧ t = v.takeOutput.2) := by
  unfold run at h
  rcases hall : engine.submitAll steps events s with _ | ⟨fault | ⟨⟩, u⟩ <;> rw [hall] at h
  · simp at h
  · obtain ⟨rfl, rfl⟩ := Prod.mk.inj (Option.some.inj h)
    exact .inl ⟨fault, rfl, rfl⟩
  · refine .inr ⟨u, rfl, ?_⟩
    rcases hfinish : u.finish with ⟨fault | ⟨⟩, v⟩ <;> simp only [hfinish] at h <;>
      obtain ⟨rfl, rfl⟩ := Prod.mk.inj (Option.some.inj h)
    · exact .inl ⟨fault, rfl, rfl⟩
    · exact .inr ⟨v, rfl, rfl, rfl⟩

theorem submitAll_preserves {P : State → Prop} {steps : Nat}
    (hsubmit : ∀ event s result t, P s → engine.submit steps event s = some (result, t) → P t)
    {events : List Event} {result : Except Fault Unit}
    (h : engine.submitAll steps events s = some (result, t)) (hs : P s) : P t := by
  induction events generalizing s with
  | nil =>
    obtain ⟨-, rfl⟩ := Prod.mk.inj (Option.some.inj h)
    exact hs
  | cons event events ih =>
    rw [submitAll] at h
    rcases hfirst : engine.submit steps event s with _ | ⟨fault | ⟨⟩, u⟩ <;> simp only [hfirst] at h
    · simp at h
    · obtain ⟨-, rfl⟩ := Prod.mk.inj (Option.some.inj h)
      exact hsubmit event s _ u hs hfirst
    · exact ih h (hsubmit event s _ u hs hfirst)

theorem call_preserves {P : State → Prop} {steps : Nat}
    (hsubmit : ∀ event s result t, P s → engine.submit steps event s = some (result, t) → P t)
    (hfinish : ∀ s, P s → P s.finish.2) (htake : ∀ s, P s → P s.takeOutput.2)
    (hrescope : ∀ s scope, P s → P { s with scope }) {c : Call} {answer : Answer}
    (h : engine.call steps c s = some (answer, t)) (hs : P s) : P t := by
  cases c with
  | submit event =>
    obtain ⟨⟨result, u⟩, hcall, heq⟩ := Option.map_eq_some_iff.1 h
    obtain ⟨-, rfl⟩ := Prod.mk.inj heq
    exact hsubmit event s result u hs hcall
  | submitAll events =>
    obtain ⟨⟨result, u⟩, hcall, heq⟩ := Option.map_eq_some_iff.1 h
    obtain ⟨-, rfl⟩ := Prod.mk.inj heq
    exact submitAll_preserves hsubmit hcall hs
  | finish =>
    obtain ⟨-, rfl⟩ := Prod.mk.inj (Option.some.inj h)
    exact hfinish s hs
  | run events =>
    rcases run_cases h with ⟨fault, -, hall⟩ | ⟨u, hall, ⟨fault, -, hend⟩ | ⟨v, hend, -, rfl⟩⟩
    · exact submitAll_preserves hsubmit hall hs
    · have hu := hfinish u (submitAll_preserves hsubmit hall hs)
      rwa [hend] at hu
    · have hu := hfinish u (submitAll_preserves hsubmit hall hs)
      rw [hend] at hu
      exact htake v hu
  | takeOutput =>
    obtain ⟨-, rfl⟩ := Prod.mk.inj (Option.some.inj h)
    exact htake s hs
  | rescope scope =>
    obtain ⟨-, rfl⟩ := Prod.mk.inj (Option.some.inj h)
    exact hrescope s scope hs

theorem Serves.preserves {P : State → Prop} {steps : Nat}
    (hcall : ∀ c s answer t, P s → engine.call steps c s = some (answer, t) → P t)
    {served : List (Call × Answer)} (h : engine.Serves steps s served t) (hs : P s) : P t := by
  induction h with
  | nil s => exact hs
  | cons h rest ih => exact ih (hcall _ _ _ _ hs h)

theorem drain_rooted {steps : Nat} {result : Except Fault Unit}
    (h : engine.drain steps s = some (result, t)) (hs : s.levels.Rooted) : t.levels.Rooted := by
  cases result with
  | ok value =>
    obtain ⟨n, hrun, -⟩ := runs_of_drain h
    exact hrun.rooted hs
  | error fault =>
    obtain ⟨-, n, w, item, queue, hrun, -, ht⟩ := drain_fault h
    rw [ht]
    exact hrun.rooted hs

theorem submit_rooted {steps : Nat} {event : Event} {result : Except Fault Unit}
    (h : engine.submit steps event s = some (result, t)) (hs : s.levels.Rooted) :
    t.levels.Rooted := by
  unfold submit at h
  split at h
  · obtain ⟨-, rfl⟩ := Prod.mk.inj (Option.some.inj h)
    exact hs
  · rcases hdrain : engine.drain steps { s with queue := s.queue.pushBack event } with
      _ | ⟨fault | ⟨⟩, u⟩ <;> simp only [hdrain] at h
    · simp at h
    all_goals
      have hu : u.levels.Rooted := drain_rooted hdrain hs
      obtain ⟨-, rfl⟩ := Prod.mk.inj (Option.some.inj h)
      exact hu

theorem finish_eq (s : State) : s.finish.2 = { s with halted := s.finish.2.halted } := by
  unfold State.finish
  split
  · rfl
  · dsimp only
    split <;> rfl

theorem Serves.rooted {steps : Nat} {served : List (Call × Answer)}
    (h : engine.Serves steps s served t) (hs : s.levels.Rooted) : t.levels.Rooted := by
  refine h.preserves (P := fun s => s.levels.Rooted) (fun c s answer t hs hcall => ?_) hs
  refine call_preserves (P := fun s => s.levels.Rooted) ?_ ?_ ?_ ?_ hcall hs
  · exact fun event s result t hs hsubmit => submit_rooted hsubmit hs
  · intro s hs
    rw [finish_eq]
    exact hs
  · exact fun s hs => hs
  · exact fun s scope hs => hs

/-! ## Output and faults -/

theorem submit_output {steps : Nat} {event : Event} {result : Except Fault Unit}
    (h : engine.submit steps event s = some (result, t)) : s.output <+: t.output := by
  obtain ⟨start, hstart⟩ : ∃ start : State, start.after s.output = s :=
    ⟨{ s with output := [] }, by simp [State.after]⟩
  rw [← hstart, submit_after] at h
  obtain ⟨⟨result', u⟩, -, heq⟩ := Option.map_eq_some_iff.1 h
  obtain ⟨-, rfl⟩ := Prod.mk.inj heq
  rw [← hstart]
  exact ⟨u.output, by simp [State.after]⟩

theorem submit_of_halted (engine : Engine) (steps : Nat) (event : Event)
    (hhalted : s.halted = true) : engine.submit steps event s = some (.error .halted, s) := by
  rw [submit, if_pos hhalted]

theorem finish_of_halted (hhalted : s.halted = true) : s.finish = (.error .halted, s) := by
  rw [State.finish, if_pos hhalted]

theorem submit_halts {steps : Nat} {event : Event} {fault : Fault}
    (h : engine.submit steps event s = some (.error fault, t)) : t.halted = true := by
  cases hhalted : s.halted with
  | true =>
    rw [submit_of_halted engine steps event hhalted] at h
    obtain ⟨-, rfl⟩ := Prod.mk.inj (Option.some.inj h)
    exact hhalted
  | false =>
    obtain ⟨-, n, w, item, queue, -, -, ht⟩ := submit_fault hhalted h
    rw [ht]

theorem finish_halts {fault : Fault} (h : s.finish = (.error fault, t)) : t.halted = true := by
  cases hhalted : s.halted with
  | true =>
    rw [finish_of_halted hhalted] at h
    obtain ⟨-, rfl⟩ := Prod.mk.inj h
    exact hhalted
  | false => rw [(finish_fault hhalted h).1]

/-- After these events the next one is at fault, or the end of the stream is. -/
def FailsAfter (engine : Engine) (steps : Nat) (events : List Event) (s : State) (fault : Fault)
    (t : State) : Prop :=
  ∃ u, engine.submitAll steps events s = some (.ok (), u) ∧
    ((∃ event, engine.submit steps event u = some (.error fault, t)) ∨ u.finish = (.error fault, t))

theorem failsAfter_of_submitAll {steps : Nat} {events : List Event} {fault : Fault}
    (h : engine.submitAll steps events s = some (.error fault, t)) :
    ∃ front, engine.FailsAfter steps front s fault t := by
  induction events generalizing s with
  | nil => simp [submitAll] at h
  | cons event events ih =>
    rw [submitAll] at h
    rcases hfirst : engine.submit steps event s with _ | ⟨fault' | ⟨⟩, u⟩ <;>
      simp only [hfirst] at h
    · simp at h
    · obtain ⟨hfault, rfl⟩ := Prod.mk.inj (Option.some.inj h)
      obtain rfl := Except.error.inj hfault
      exact ⟨[], s, rfl, .inl ⟨event, hfirst⟩⟩
    · obtain ⟨front, v, hfront, hfails⟩ := ih h
      refine ⟨event :: front, v, ?_, hfails⟩
      rw [submitAll, hfirst]
      exact hfront

/-- A call fails at an event that it submits, or when it finishes. -/
theorem failsAfter_of_call {steps : Nat} {c : Call} {fault : Fault}
    (h : engine.call steps c s = some (.error fault, t)) :
    ∃ events, engine.FailsAfter steps events s fault t := by
  have herror : ∀ {α : Type} {result : Except Fault α},
      (result.map fun _ => ([] : List Event)) = .error fault → result = .error fault := by
    intro α result hresult
    cases result <;> simp_all [Except.map]
  cases c with
  | submit event =>
    obtain ⟨⟨result, u⟩, hcall, heq⟩ := Option.map_eq_some_iff.1 h
    obtain ⟨hresult, rfl⟩ := Prod.mk.inj heq
    obtain rfl := herror hresult
    exact ⟨[], s, rfl, .inl ⟨event, hcall⟩⟩
  | submitAll events =>
    obtain ⟨⟨result, u⟩, hcall, heq⟩ := Option.map_eq_some_iff.1 h
    obtain ⟨hresult, rfl⟩ := Prod.mk.inj heq
    obtain rfl := herror hresult
    exact failsAfter_of_submitAll hcall
  | finish =>
    obtain ⟨hresult, rfl⟩ := Prod.mk.inj (Option.some.inj h)
    exact ⟨[], s, rfl, .inr (Prod.ext (herror hresult) rfl)⟩
  | run events =>
    rcases run_cases h with ⟨fault', hfault, hall⟩ |
      ⟨u, hall, ⟨fault', hfault, hend⟩ | ⟨v, -, hok, -⟩⟩
    · obtain rfl := Except.error.inj hfault
      exact failsAfter_of_submitAll hall
    · obtain rfl := Except.error.inj hfault
      exact ⟨events, u, hall, .inr hend⟩
    · simp at hok
  | takeOutput => simp [call] at h
  | rescope scope => simp [call] at h

theorem FailsAfter.halts {steps : Nat} {events : List Event} {fault : Fault}
    (h : engine.FailsAfter steps events s fault t) : t.halted = true := by
  obtain ⟨u, -, ⟨event, hevent⟩ | hend⟩ := h
  · exact submit_halts hevent
  · exact finish_halts hend

/-- What has been put out before a fault is still there. -/
theorem FailsAfter.output {steps : Nat} {events : List Event} {fault : Fault}
    (h : engine.FailsAfter steps events s fault t) : s.output <+: t.output := by
  obtain ⟨u, hfront, hfails⟩ := h
  have hu : s.output <+: u.output :=
    submitAll_preserves (P := fun u => s.output <+: u.output)
      (fun _ _ _ _ hs hsubmit => hs.trans (submit_output hsubmit)) hfront List.prefix_rfl
  rcases hfails with ⟨event, hevent⟩ | hend
  · exact hu.trans (submit_output hevent)
  · have hsame : u.finish.2.output = u.output := by rw [finish_eq]
    rw [hend] at hsame
    exact hsame ▸ hu

/-! ## After a fault -/

theorem run_of_halted (engine : Engine) (steps : Nat) (events : List Event)
    (hhalted : s.halted = true) : engine.run steps events s = some (.error .halted, s) := by
  cases events with
  | nil => simp [run, submitAll, finish_of_halted hhalted]
  | cons event events => simp [run, submitAll, submit_of_halted engine steps event hhalted]

theorem taken_cons (served : Call × Answer) (later : List (Call × Answer)) :
    taken (served :: later) = taken [served] ++ taken later := by
  obtain ⟨c, fault | output⟩ := served <;> cases c <;> rfl

/-- All that a call can still do is to give out the output, and to change the scope. -/
theorem call_of_halted {steps : Nat} {c : Call} {answer : Answer} (hhalted : s.halted = true)
    (h : engine.call steps c s = some (answer, t)) :
    t = { s with scope := t.scope, output := t.output } ∧
      (taken [(c, answer)] = [] ∧ t.output = s.output ∨
        taken [(c, answer)] = [s.output] ∧ t.output = []) := by
  cases c with
  | submit event =>
    rw [call, submit_of_halted engine steps event hhalted] at h
    obtain ⟨rfl, rfl⟩ := Prod.mk.inj (Option.some.inj h)
    exact ⟨rfl, .inl ⟨rfl, rfl⟩⟩
  | submitAll events =>
    cases events with
    | nil =>
      obtain ⟨rfl, rfl⟩ := Prod.mk.inj (Option.some.inj h)
      exact ⟨rfl, .inl ⟨rfl, rfl⟩⟩
    | cons event events =>
      rw [call, submitAll, submit_of_halted engine steps event hhalted] at h
      obtain ⟨rfl, rfl⟩ := Prod.mk.inj (Option.some.inj h)
      exact ⟨rfl, .inl ⟨rfl, rfl⟩⟩
  | finish =>
    rw [call, finish_of_halted hhalted] at h
    obtain ⟨rfl, rfl⟩ := Prod.mk.inj (Option.some.inj h)
    exact ⟨rfl, .inl ⟨rfl, rfl⟩⟩
  | run events =>
    rw [call, run_of_halted engine steps events hhalted] at h
    obtain ⟨rfl, rfl⟩ := Prod.mk.inj (Option.some.inj h)
    exact ⟨rfl, .inl ⟨rfl, rfl⟩⟩
  | takeOutput =>
    obtain ⟨rfl, rfl⟩ := Prod.mk.inj (Option.some.inj h)
    exact ⟨rfl, .inr ⟨rfl, rfl⟩⟩
  | rescope scope =>
    obtain ⟨rfl, rfl⟩ := Prod.mk.inj (Option.some.inj h)
    exact ⟨rfl, .inl ⟨rfl, rfl⟩⟩

/-- The output is given out once, and nothing else changes but the scope. -/
theorem Serves.of_halted {steps : Nat} {served : List (Call × Answer)}
    (h : engine.Serves steps s served t) (hhalted : s.halted = true) :
    t = { s with scope := t.scope, output := t.output } ∧
      (taken served = [] ∧ t.output = s.output ∨
        ∃ k, taken served = s.output :: List.replicate k [] ∧ t.output = []) := by
  induction h with
  | nil s => exact ⟨rfl, .inl ⟨rfl, rfl⟩⟩
  | @cons c answer s t u later h rest ih =>
    obtain ⟨ht, hfirst⟩ := call_of_halted hhalted h
    obtain ⟨hu, hlater⟩ := ih (by rw [ht]; exact hhalted)
    refine ⟨hu.trans (by rw [ht]), ?_⟩
    rw [taken_cons]
    -- The first call that takes the output leaves none to the later ones.
    rcases hfirst with ⟨hnone, hsame⟩ | ⟨hall, hempty⟩
    · rwa [hnone, List.nil_append, ← hsame]
    · rw [hempty] at hlater
      rw [hall]
      rcases hlater with ⟨hnone, houtput⟩ | ⟨k, hmore, houtput⟩
      · exact .inr ⟨0, by rw [hnone]; rfl, houtput⟩
      · exact .inr ⟨k + 1, by rw [hmore]; rfl, houtput⟩

/-- The engine that a host holds, after any calls: the root is there and without a tag, also while
an event is worked on.  Before the first fault the one fault of an event is a close at the root,
which drops that event, and a stream is truncated only where something is open, and then nothing
but that is remembered.  After it every event and every finish is refused without a change, and
the output that was there is given out once. -/
theorem calls_sound (engine : Engine) {steps : Nat} {past : List (Call × Answer)} {s : State}
    (hpast : engine.Serves steps {} past s) :
    s.levels.Rooted ∧
      (∃ names, s.snapshot.tags = "(root)" :: names ∧ s.levels.depth = names.length + 1) ∧
      (∀ event n w, engine.Runs n { s with queue := s.queue.pushBack event } w →
        w.levels.Rooted) ∧
      (s.halted = false →
        (∀ event fault t, engine.submit steps event s = some (.error fault, t) →
          fault = .unmatchedEnd ∧ ∃ n w item queue,
            engine.Runs n { s with queue := s.queue.pushBack event } w ∧ w.queue = item :: queue ∧
              t = { w with queue, captures := t.captures, halted := true }) ∧
        (∀ fault t, s.finish = (.error fault, t) → t = { s with halted := true } ∧
          ∃ levels captures markers, fault = .truncated levels captures markers ∧
            ¬ (levels = 0 ∧ captures = 0 ∧ markers = 0) ∧ s.snapshot.tags.length = levels + 1 ∧
            s.snapshot.contexts = captures + 1 ∧ s.snapshot.markers = markers)) ∧
      ∀ c fault t, engine.call steps c s = some (.error fault, t) →
        (∃ events, engine.FailsAfter steps events s fault t) ∧ s.output <+: t.output ∧
        ∀ later w, engine.Serves steps t later w →
          (∀ event, engine.submit steps event w = some (.error .halted, w)) ∧
          w.finish = (.error .halted, w) ∧
          w = { t with scope := w.scope, output := w.output } ∧
          (taken later = [] ∧ w.output = t.output ∨
            ∃ k, taken later = t.output :: List.replicate k [] ∧ w.output = []) := by
  have hrooted : s.levels.Rooted := hpast.rooted .root
  refine ⟨hrooted, hrooted.depth, fun event n w hrun => hrun.rooted hrooted,
    fun hhalted => ⟨?_, ?_⟩, ?_⟩
  · exact fun event fault t hsubmit => submit_fault hhalted hsubmit
  · exact fun fault t hfinish => finish_fault hhalted hfinish
  · intro c fault t hcall
    obtain ⟨events, hfails⟩ := failsAfter_of_call hcall
    refine ⟨⟨events, hfails⟩, hfails.output, fun later w hlater => ?_⟩
    obtain ⟨hw, htaken⟩ := hlater.of_halted hfails.halts
    have hhalted : w.halted = true := by
      rw [hw]
      exact hfails.halts
    exact ⟨fun event => submit_of_halted engine steps event hhalted, finish_of_halted hhalted, hw,
      htaken⟩

/-- An element is begun, and a stream with one close too many follows. -/
theorem calls_sound_unmatched :
    let engine : Engine := {}
    let s : State := { levels := Levels.root.push "a", output := [.start "a"] }
    let t : State := { output := [.start "a", .close], halted := true }
    engine.Serves 20 {} [(.submit (.start "a"), .ok [])] s ∧
      engine.call 20 (.run [.close, .close, .text "x"]) s = some (.error .unmatchedEnd, t) ∧
      s.levels.Rooted ∧ ∀ later w, engine.Serves 20 t later w →
        w.finish = (.error .halted, w) ∧ (taken later = [] ∧ w.output = [.start "a", .close] ∨
          ∃ k, taken later = [.start "a", .close] :: List.replicate k [] ∧ w.output = []) := by
  intro engine s t
  have htag : engine.options.classify "a" = .element := by decide +kernel
  have hstart : engine.step (.event (.start "a")) {} = (.ok (), s) :=
    (deliver_of_nil (s := {}) rfl).trans (route_element htag)
  have hdrain : engine.drain 20 { queue := [.event (.start "a")] } = some (.ok (), s) :=
    drain_succ_of_ok engine 19 _ s _ [] rfl hstart
  have hsubmit : engine.call 20 (.submit (.start "a")) {} = some (.ok [], s) := by
    rw [call, submit, if_neg (by decide), show Queue.pushBack [] _ = [_] from rfl, hdrain]
    rfl
  have hpast : engine.Serves 20 {} [(.submit (.start "a"), .ok [])] s := .cons hsubmit (.nil s)
  have hcall : engine.call 20 (.run [.close, .close, .text "x"]) s =
      some (.error .unmatchedEnd, t) := rfl
  obtain ⟨hrooted, -, -, -, hafter⟩ := calls_sound engine hpast
  obtain ⟨-, -, hlater⟩ := hafter _ _ _ hcall
  refine ⟨hpast, hcall, hrooted, fun later w hserves => ?_⟩
  obtain ⟨-, hfinish, -, htaken⟩ := hlater later w hserves
  exact ⟨hfinish, htaken⟩

end Engine
end TreeStream
