import TreeStream.Proofs.Holes

/-!
# The engine as an interpreter of forests

Without deferred bodies the engine does what a recursion over the forest does, although it sees one
event at a time and never the forest.

* `Engine.interpret`: what a forest shows in a scope, and the scope that it leaves.
* `Engine.opening`: what an element does when its argument is complete; `Engine.opens_element` is
  how it comes to that.
* `Engine.Means selectors spent meaning events`: absorbed event by event, the events show what the
  meaning says, where only some names are selected and holes stay empty.
* `Engine.means_forest`: the walk through a forest means its interpretation.
* `Engine.run_eq_interpret`: a whole stream is processed without a fault and has that output.
-/

namespace TreeStream
set_option autoImplicit false

/-! ## The interpreter -/

/-- What something shows in a scope, and the scope that it leaves. -/
abbrev Meaning := Scope → List Event × Scope

def Meaning.seq (first second : Meaning) : Meaning := fun scope =>
  let (shown, scope) := first scope
  let (others, scope) := second scope
  (shown ++ others, scope)

def Meaning.within (inner : Meaning) (front : List Event) : Meaning := fun scope =>
  let (shown, scope) := inner scope
  (front ++ shown ++ [.close], scope)

/-- The rounds of a loop in turn: each binds the item and its position, shows what the body shows,
and gives the bindings back. -/
def EachArgument.rounds (argument : EachArgument) (body : Meaning) : Nat → List Value → Meaning
  | _, [], scope => ([], scope)
  | round, item :: left, scope =>
    let position := argument.index.toList.map fun name => (name, Value.num (Float.ofNat round))
    let (overlay, scope) := scope.install ((argument.item, item) :: position)
    let (shown, scope) := body scope
    let (others, scope) := rounds argument body (round + 1) left (scope.release overlay)
    (shown ++ others, scope)

namespace Engine

/-- What an element shows, from what all its children show and what those after its argument
show.  Deferred bodies are left out. -/
def showElement (engine : Engine) (name argument : String) (whole body : Meaning) : Meaning :=
  fun scope =>
    match engine.options.classify name with
    | .element => whole.within [.start name] scope
    | .unknown => whole.within [.start name] scope
    | .affect =>
      let (outcome, scope) := scope.evaluate engine.evaluator argument
      let element := (Text.dropEnd? "=" name).getD name
      if element = "" then ([.text (outcomeText outcome)], scope)
      else body.within [.start element, .text (outcomeText outcome)] scope
    | .directive .eval => ([], (scope.evaluate engine.evaluator argument).2)
    | .directive .cond =>
      match scope.evaluate engine.evaluator argument with
      | (.error error, scope) => body.within [.start name, .text error.inline] scope
      | (.ok value, scope) => if value.isTruthy then body scope else ([], scope)
    | .directive .each =>
      match EachArgument.parse? argument with
      | none => body.within [.start name, .text argument] scope
      | some each =>
        match scope.evaluate engine.evaluator each.source with
        | (.error error, scope) => ([.text error.inline], scope)
        | (.ok (.list items), scope) => each.rounds body 0 items scope
        | (.ok _, scope) => ([], scope)
    | .directive .debug => ([], scope)
    | .directive .defer => ([], scope)
    | .directive .through => ([], scope)

/-- What a forest shows, from left to right. -/
def interpret (engine : Engine) : Forest → Meaning
  | .nil, scope => ([], scope)
  | .text content rest, scope =>
    let (others, scope) := interpret engine rest scope
    (.text content :: others, scope)
  | .attr name value rest, scope =>
    let (others, scope) := interpret engine rest scope
    (.attr name value :: others, scope)
  | .element name children rest, scope =>
    let (shown, scope) := engine.showElement name children.argument
      (fun scope => interpret engine children scope)
      (fun scope => interpret engine children.body scope) scope
    let (others, scope) := interpret engine rest scope
    (shown ++ others, scope)
termination_by forest => sizeOf forest
decreasing_by
  all_goals first
    | exact Forest.sizeOf_body_lt _ _ _
    | decreasing_tactic

end Engine

/-! ## What is left after the argument -/

/-- What an element does when its argument is complete, and the scope that the argument leaves. -/
inductive Opening where
  /-- It shows something and drops the rest. -/
  | dropped (shown : List Event) (scope : Scope)
  /-- It shows something, then what is inside, and then it closes. -/
  | kept (front : List Event) (scope : Scope)
  /-- It shows what is inside, and nothing of its own. -/
  | bare (scope : Scope)
  /-- It shows what is inside for every item. -/
  | looped (argument : EachArgument) (items : List Value) (scope : Scope)

namespace Opening

def shows (opening : Opening) (inside : Meaning) : List Event × Scope :=
  match opening with
  | dropped shown scope => (shown, scope)
  | kept front scope => inside.within front scope
  | bare scope => inside scope
  | looped argument items scope => argument.rounds inside 0 items scope

/-- The state in which an element of the name waits for what is inside. -/
def enter (opening : Opening) (name : String) (s : State) : State :=
  match opening with
  | dropped shown scope =>
    { s with levels := s.levels.push name, scope, output := s.output ++ shown }.discardBody
  | kept front scope => { s with levels := s.levels.push name, scope, output := s.output ++ front }
  | bare scope => { s with levels := s.levels.push name, scope }.setOnEnd .vanish
  | looped argument items scope =>
    { s with levels := s.levels.push name, scope }.captureBody false
      (.loop argument.item argument.index items)

end Opening

namespace Engine

def opening (engine : Engine) (name argument : String) (scope : Scope) : Opening :=
  match engine.options.classify name with
  | .element => .kept [.start name] scope
  | .unknown => .kept [.start name] scope
  | .affect =>
    let (outcome, scope) := scope.evaluate engine.evaluator argument
    let element := (Text.dropEnd? "=" name).getD name
    if element = "" then .dropped [.text (outcomeText outcome)] scope
    else .kept [.start element, .text (outcomeText outcome)] scope
  | .directive .eval => .dropped [] (scope.evaluate engine.evaluator argument).2
  | .directive .cond =>
    match scope.evaluate engine.evaluator argument with
    | (.error error, scope) => .kept [.start name, .text error.inline] scope
    | (.ok value, scope) => if value.isTruthy then .bare scope else .dropped [] scope
  | .directive .each =>
    match EachArgument.parse? argument with
    | none => .kept [.start name, .text argument] scope
    | some each =>
      match scope.evaluate engine.evaluator each.source with
      | (.error error, scope) => .dropped [.text error.inline] scope
      | (.ok (.list items), scope) => .looped each items scope
      | (.ok _, scope) => .dropped [] scope
  | .directive .debug => .dropped [] scope
  | .directive .defer => .dropped [] scope
  | .directive .through => .dropped [] scope

/-- What is inside an element, its argument left out. -/
def inside (engine : Engine) (name : String) (children : Forest) : Forest :=
  match engine.options.classify name with
  | .element => children
  | .unknown => children
  | .directive .debug => children
  | _ => children.body

theorem names_inside (engine : Engine) (name : String) (children : Forest) :
    (engine.inside name children).names = children.names := by
  unfold inside
  split <;> first
    | rfl
    | exact children.names_body

theorem sizeOf_inside_lt (engine : Engine) (name : String) (children rest : Forest) :
    sizeOf (engine.inside name children) < sizeOf (Forest.element name children rest) := by
  have hwhole : sizeOf children < sizeOf (Forest.element name children rest) := by
    have hsize : sizeOf (Forest.element name children rest) =
        1 + sizeOf name + sizeOf children + sizeOf rest := rfl
    omega
  unfold inside
  split <;> first
    | exact hwhole
    | exact Forest.sizeOf_body_lt name children rest

theorem showElement_eq (engine : Engine) (name : String) (children : Forest) (scope : Scope) :
    engine.showElement name children.argument (engine.interpret children)
        (engine.interpret children.body) scope =
      (engine.opening name children.argument scope).shows
        (engine.interpret (engine.inside name children)) := by
  unfold showElement opening inside
  cases engine.options.classify name with
  | element => rfl
  | unknown => rfl
  | affect =>
    dsimp only
    split <;> rfl
  | directive directive =>
    cases directive with
    | cond =>
      dsimp only
      rcases scope.evaluate engine.evaluator children.argument with ⟨error | value, scope'⟩
      · rfl
      · dsimp only
        split <;> rfl
    | each =>
      dsimp only
      rcases EachArgument.parse? children.argument with _ | argument
      · rfl
      · dsimp only
        rcases scope.evaluate engine.evaluator argument.source with ⟨error | value, scope'⟩
        · rfl
        · cases value <;> rfl
    | _ => rfl

theorem interpret_element (engine : Engine) (name : String) (children rest : Forest) :
    engine.interpret (.element name children rest) =
      Meaning.seq (fun scope => (engine.opening name children.argument scope).shows
        (engine.interpret (engine.inside name children))) (engine.interpret rest) := by
  funext scope
  rw [interpret]
  simp only [Meaning.seq, ← showElement_eq]

end Engine

/-! ## States that show something -/

def Levels.Silent (levels : Levels) : Prop :=
  ∀ keys, levels.lookup keys = none

/-- The state after something has been shown, in the scope that this leaves. -/
def State.shows (s : State) (shown : List Event × Scope) : State :=
  { s with output := s.output ++ shown.1, scope := shown.2 }

theorem State.shows_nil (s : State) (scope : Scope) : s.shows ([], scope) = { s with scope } := by
  simp [State.shows]

theorem State.shows_shows (s : State) (first second : List Event × Scope) :
    (s.shows first).shows second = s.shows (first.1 ++ second.1, second.2) := by
  simp [State.shows, List.append_assoc]

/-- Nobody waits, nothing is selected but elements of certain names, and if the element of the
innermost body is `spent`, it has been let through. -/
structure State.Ready (s : State) (selectors : List String) (spent : Prop) : Prop
    extends s.Calm selectors where
  unreserved : ∀ selector ∈ selectors, selector ∉ reservedSelectors
  claimed : spent → ∃ markers, s.markers = .claimed :: markers

namespace State.Ready

variable {s t : State} {selectors : List String} {spent : Prop}

theorem congr (h : s.Ready selectors spent) (hcaptures : t.captures = s.captures)
    (hlookup : ∀ keys, t.levels.lookup keys = s.levels.lookup keys)
    (hmarkers : t.markers = s.markers) : t.Ready selectors spent where
  captures := hcaptures.trans h.captures
  lookup keys hkeys := (hlookup keys).trans (h.lookup keys hkeys)
  unreserved := h.unreserved
  claimed := by
    rw [hmarkers]
    exact h.claimed

theorem text (h : s.Ready selectors spent) : s.levels.lookup ["TEXT"] = none :=
  h.lookup_reserved h.unreserved (by simp [reservedSelectors])

theorem attr (h : s.Ready selectors spent) : s.levels.lookup ["ATTR"] = none :=
  h.lookup_reserved h.unreserved (by simp [reservedSelectors])

theorem close (h : s.Ready selectors spent) : s.levels.lookup ["END"] = none :=
  h.lookup_reserved h.unreserved (by simp [reservedSelectors])

theorem start (h : s.Ready selectors spent) {name : String} (hname : name ∉ selectors) :
    s.levels.lookup [name, "*"] = none :=
  h.lookup_start h.unreserved hname

end State.Ready

namespace Engine

/-- Absorbed one by one where nobody waits or selects, the events show what the meaning says and
change nothing else. -/
def Realizes (engine : Engine) (meaning : Meaning) (events : List Event) : Prop :=
  ∀ s : State, s.captures = [] → s.levels.Silent →
    engine.Feeds events s (s.shows (meaning s.scope))

/-- Absorbed one by one in states that are ready for them, the events show what the meaning says and
change nothing else. -/
def Means (engine : Engine) (selectors : List String) (spent : Prop) (meaning : Meaning)
    (events : List Event) : Prop :=
  ∀ s : State, s.Ready selectors spent → engine.Feeds events s (s.shows (meaning s.scope))

variable {engine : Engine} {selectors : List String} {spent : Prop} {s : State}

theorem Means.realizes {meaning : Meaning} {events : List Event}
    (h : engine.Means [] False meaning events) : engine.Realizes meaning events := by
  intro s hcaptures hsilent
  exact h s ⟨⟨hcaptures, fun keys _ => hsilent keys⟩, by simp, False.elim⟩

theorem Means.seq {first second : Meaning} {before after : List Event}
    (h1 : engine.Means selectors spent first before)
    (h2 : engine.Means selectors spent second after) :
    engine.Means selectors spent (first.seq second) (before ++ after) := by
  intro s hs
  have hbefore := h1 s hs
  have hafter := h2 (s.shows (first s.scope)) (hs.congr rfl (fun _ => rfl) rfl)
  rw [State.shows_shows] at hafter
  exact hbefore.append hafter

/-! ## The ends of elements -/

theorem Means.within {meaning : Meaning} {events : List Event}
    (h : engine.Means selectors spent meaning events) (hs : s.Ready selectors spent)
    (name : String) (front : List Event) (scope : Scope) :
    engine.Feeds (events ++ [.close])
      { s with levels := s.levels.push name, scope, output := s.output ++ front }
      (s.shows (meaning.within front scope)) := by
  have hinner := h { s with levels := s.levels.push name, scope, output := s.output ++ front }
    (hs.congr rfl (s.levels.lookup_push name) rfl)
  have hclose := absorbs_close engine
    (s := { s with levels := s.levels.push name, scope, output := s.output ++ front }.shows
      (meaning scope)) hs.captures (s.levels.pop?_push name) rfl hs.close
  have hshows : ((s.shows (front, scope)).shows (meaning scope)).emit .close =
      s.shows (meaning.within front scope) := by
    simp [State.shows, State.emit, Meaning.within]
  rw [← hshows]
  exact hinner.append (.cons hclose (.nil engine _))

theorem Means.close_vanish {meaning : Meaning} {events : List Event}
    (h : engine.Means selectors spent meaning events) (hs : s.Ready selectors spent)
    (name : String) (scope : Scope) : engine.Feeds (events ++ [.close])
      ({ s with levels := s.levels.push name, scope }.setOnEnd .vanish)
      (s.shows (meaning scope)) := by
  have hinner := h ({ s with levels := s.levels.push name, scope }.setOnEnd .vanish)
    (hs.congr rfl (s.levels.lookup_push name) rfl)
  have hclose := absorbs_close_vanish engine
    (s := ({ s with levels := s.levels.push name, scope }.setOnEnd .vanish).shows (meaning scope))
    hs.captures rfl rfl
  exact hinner.append (.cons hclose (.nil engine _))

theorem Means.runs_play {meaning : Meaning} {body : List Event}
    (h : engine.Means selectors spent meaning body) (argument : EachArgument) (left : List Value)
    (round : Nat) (hs : s.Ready selectors spent) (queue : Queue)
    (log : List LogEntry) : ∃ n log', engine.Runs n
      (Loop.play ⟨argument.item, argument.index, body, round, left⟩ { s with queue, log })
      { s.shows (argument.rounds meaning round left s.scope) with queue, log := log' } := by
  induction left generalizing s round log with
  | nil => exact ⟨0, log, by simp [Loop.play, EachArgument.rounds, State.shows, Runs]⟩
  | cons item left ih =>
    let bindings := (argument.item, item) ::
      argument.index.toList.map fun name => (name, Value.num (Float.ofNat round))
    rcases hinstall : s.scope.install bindings with ⟨overlay, scope⟩
    rcases hshown : meaning scope with ⟨shown, scope'⟩
    let again : Loop := ⟨argument.item, argument.index, body, round + 1, left⟩
    have hplay : Loop.play ⟨argument.item, argument.index, body, round, item :: left⟩
        { s with queue, log } = { s with
          scope
          queue := body.map .event ++ .callback (.roundDone overlay again) :: queue
          log } := by
      have hscope : State.install { s with queue, log } bindings =
          (overlay, { s with queue, log, scope }) := by simp [State.install, hinstall]
      simp only [Loop.play]
      rw [hscope]
      rfl
    obtain ⟨n, log1, hbody⟩ := (h { s with scope } (hs.congr rfl (fun _ => rfl) rfl)).absorbs
      (.callback (.roundDone overlay again) :: queue) log
    rw [hshown] at hbody
    obtain ⟨m, log2, hothers⟩ := ih (s := (s.shows (shown, scope')).release overlay) (round + 1)
      (hs.congr rfl (fun _ => rfl) rfl) log1
    -- The body, then the callback that gives the bindings back, then the other rounds.
    refine ⟨n + (1 + m), log2, ?_⟩
    rw [hplay]
    refine hbody.trans ((Runs.single rfl rfl).trans ?_)
    have hrounds : argument.rounds meaning round (item :: left) s.scope =
        (shown ++ (argument.rounds meaning (round + 1) left (scope'.release overlay)).1,
          (argument.rounds meaning (round + 1) left (scope'.release overlay)).2) := by
      simp only [EachArgument.rounds]
      rw [hinstall]
      simp only [hshown]
    rw [hrounds, ← State.shows_shows s (shown, scope')]
    exact hothers

/-- What is inside an element and its close come to what the element shows. -/
theorem Means.opening {inside : Meaning} {forest : Forest}
    (h : engine.Means selectors spent inside forest.events) (hs : s.Ready selectors spent)
    (opening : Opening) (name : String) : engine.Feeds (forest.events ++ [.close])
      (opening.enter name s) (s.shows (opening.shows inside)) := by
  cases opening with
  | dropped shown scope => exact feeds_discardBody engine forest (s.shows (shown, scope)) name
  | kept front scope => exact h.within hs name front scope
  | bare scope => exact h.close_vanish hs name scope
  | looped argument items scope =>
    have hgather := feeds_subLevel engine forest { s with levels := s.levels.push name, scope } 0
      false [] (.loop argument.item argument.index items) s.captures
    have hclose := absorbs_subLevel_close engine
      (t := s.shows (argument.rounds inside 0 items scope)) (s := { s with
        levels := s.levels.push name
        scope
        captures := .subLevel 0 false ([] ++ kept false forest.events)
          (.loop argument.item argument.index items) :: s.captures })
      rfl (s.levels.pop?_push name) rfl
      (h.runs_play (s := { s with scope }) argument items 0 (hs.congr rfl (fun _ => rfl) rfl))
    exact hgather.append (.cons hclose (.nil engine _))

/-! ## The beginnings of elements -/

variable {name : String}

theorem evaluate_of_scope {outcome : Except EvalError Value} {scope : Scope} {source : String}
    (h : s.scope.evaluate engine.evaluator source = (outcome, scope)) (levels : Levels)
    (queue : Queue) (log : List LogEntry) : ∃ log',
    { s with levels, queue, log }.evaluate engine.evaluator source =
      (outcome, { s with levels, queue, scope, log := log' }) := by
  obtain ⟨log', hevaluate⟩ :=
    State.evaluate_eq { s with levels, queue, log } engine.evaluator source
  exact ⟨log', by simpa [h] using hevaluate⟩

theorem opens_affect (children : Forest) (hcaptures : s.captures = [])
    (htag : engine.options.classify name = .affect) :
    engine.Opens (.start name :: (children.events ++ [.close])) (children.body.events ++ [.close]) s
      ((engine.opening name children.argument s.scope).enter name s) := by
  have hroute : ∀ s : State, engine.route (.start name) s = _ := fun s => route_affect htag
  refine opens_argument hcaptures hroute ?_
  intro queue log
  rcases hvalue : s.scope.evaluate engine.evaluator children.argument with ⟨outcome, scope⟩
  obtain ⟨log', hevaluate⟩ := evaluate_of_scope hvalue (s.levels.push name) queue log
  refine ⟨log', ?_⟩
  by_cases hempty : (Text.dropEnd? "=" name).getD name = ""
  · simp [useText, hevaluate, hempty, opening, htag, hvalue, Opening.enter, State.emit,
      State.discardBody, State.captureBody]
  · simp [useText, hevaluate, hempty, opening, htag, hvalue, Opening.enter, State.emit]

theorem opens_eval (children : Forest) (hcaptures : s.captures = [])
    (htag : engine.options.classify name = .directive .eval) :
    engine.Opens (.start name :: (children.events ++ [.close])) (children.body.events ++ [.close]) s
      ((engine.opening name children.argument s.scope).enter name s) := by
  have hroute : ∀ s : State, engine.route (.start name) s =
      (.ok (), { s with levels := s.levels.push name }.captureText .eval) :=
    fun s => route_directive htag
  refine opens_argument hcaptures hroute ?_
  intro queue log
  rcases hvalue : s.scope.evaluate engine.evaluator children.argument with ⟨outcome, scope⟩
  obtain ⟨log', hevaluate⟩ := evaluate_of_scope hvalue (s.levels.push name) queue log
  exact ⟨log', by simp [useText, hevaluate, opening, htag, hvalue, Opening.enter,
    State.discardBody, State.captureBody]⟩

theorem opens_cond (children : Forest) (hcaptures : s.captures = [])
    (htag : engine.options.classify name = .directive .cond) :
    engine.Opens (.start name :: (children.events ++ [.close])) (children.body.events ++ [.close]) s
      ((engine.opening name children.argument s.scope).enter name s) := by
  have hroute : ∀ s : State, engine.route (.start name) s = _ := fun s => route_directive htag
  refine opens_argument hcaptures hroute ?_
  intro queue log
  rcases hvalue : s.scope.evaluate engine.evaluator children.argument
    with ⟨error | value, scope⟩ <;>
    obtain ⟨log', hevaluate⟩ := evaluate_of_scope hvalue (s.levels.push name) queue log <;>
    refine ⟨log', ?_⟩
  · simp [useText, hevaluate, opening, htag, hvalue, Opening.enter, State.emit]
  · cases htruthy : value.isTruthy with
    | true =>
      simp [useText, hevaluate, htruthy, opening, htag, hvalue, Opening.enter, State.setOnEnd]
    | false =>
      simp [useText, hevaluate, htruthy, opening, htag, hvalue, Opening.enter, State.discardBody,
        State.captureBody]

theorem opens_each (children : Forest) (hcaptures : s.captures = [])
    (htag : engine.options.classify name = .directive .each) :
    engine.Opens (.start name :: (children.events ++ [.close])) (children.body.events ++ [.close]) s
      ((engine.opening name children.argument s.scope).enter name s) := by
  have hroute : ∀ s : State, engine.route (.start name) s = _ := fun s => route_directive htag
  refine opens_argument hcaptures hroute ?_
  intro queue log
  rcases hparse : EachArgument.parse? children.argument with _ | argument
  · exact ⟨_, by simp [useText, hparse, opening, htag, Opening.enter, State.emit, State.tell]; rfl⟩
  · rcases hvalue : s.scope.evaluate engine.evaluator argument.source with
      ⟨error | value, scope⟩ <;>
      obtain ⟨log', hevaluate⟩ := evaluate_of_scope hvalue (s.levels.push name) queue log
    · exact ⟨log', by simp [useText, hparse, hevaluate, opening, htag, hvalue, Opening.enter,
        State.emit, State.discardBody, State.captureBody]⟩
    · cases value with
      | list items =>
        exact ⟨log', by simp [useText, hparse, hevaluate, opening, htag, hvalue, Opening.enter,
          State.captureBody]⟩
      | _ =>
        exact ⟨_, by simp [useText, hparse, hevaluate, opening, htag, hvalue, Opening.enter,
          State.tell, State.discardBody, State.captureBody]; rfl⟩

/-- An element that is not selected comes to its opening, and then what is inside is left of it. -/
theorem opens_element (children : Forest) (hs : s.Ready selectors spent)
    (hname : name ∉ selectors)
    (hdefer : engine.options.classify name ≠ .directive .defer)
    (hthrough : engine.options.classify name ≠ .directive .through) :
    engine.Opens (.start name :: (children.events ++ [.close]))
      ((engine.inside name children).events ++ [.close]) s
      ((engine.opening name children.argument s.scope).enter name s) := by
  have hkept : engine.options.classify name = .element ∨ engine.options.classify name = .unknown →
      engine.Opens (.start name :: (children.events ++ [.close])) (children.events ++ [.close]) s
        { s with levels := s.levels.push name, output := s.output ++ [.start name] } :=
    fun htag => ⟨[.start name], _, rfl,
      .cons (absorbs_start hs.captures htag (hs.start hname)) (.nil engine _), .inl rfl⟩
  cases htag : engine.options.classify name with
  | element => simpa [inside, opening, htag, Opening.enter] using hkept (.inl htag)
  | unknown => simpa [inside, opening, htag, Opening.enter] using hkept (.inr htag)
  | affect => simpa [inside, htag] using opens_affect children hs.captures htag
  | directive directive =>
    cases directive with
    | eval => simpa [inside, htag] using opens_eval children hs.captures htag
    | cond => simpa [inside, htag] using opens_cond children hs.captures htag
    | each => simpa [inside, htag] using opens_each children hs.captures htag
    | debug =>
      have hstart : engine.Absorbs [.event (.start name)] s
          ({ s with levels := s.levels.push name }.discardBody) :=
        absorbs_of_route hs.captures fun queue log => ⟨_, route_directive htag⟩
      have hopens : engine.Opens (.start name :: (children.events ++ [.close]))
          (children.events ++ [.close]) s ({ s with levels := s.levels.push name }.discardBody) :=
        ⟨[.start name], _, rfl, .cons hstart (.nil engine _), .inl rfl⟩
      simpa [inside, opening, htag, Opening.enter] using hopens
    | defer => exact absurd htag hdefer
    | through => exact absurd htag hthrough

/-! ## The whole walk -/

variable {children : Forest}

/-- No element of the forest defers a body or lets one through. -/
def Immediate (engine : Engine) (forest : Forest) : Prop :=
  ∀ name ∈ forest.names, engine.options.classify name ≠ .directive .defer ∧
    engine.options.classify name ≠ .directive .through

instance (engine : Engine) (forest : Forest) : Decidable (engine.Immediate forest) :=
  inferInstanceAs (Decidable (∀ name ∈ forest.names,
    engine.options.classify name ≠ .directive .defer ∧
      engine.options.classify name ≠ .directive .through))

/-- No element of the forest is selected or defers a body, and holes are there only if they stay
empty. -/
def Admits (engine : Engine) (selectors : List String) (spent : Prop) (forest : Forest) : Prop :=
  ∀ name ∈ forest.names, name ∉ selectors ∧ engine.options.classify name ≠ .directive .defer ∧
    (engine.options.classify name = .directive .through → spent)

theorem Admits.of_names {forest other : Forest} (h : engine.Admits selectors spent forest)
    (hnames : ∀ name ∈ other.names, name ∈ forest.names) : engine.Admits selectors spent other :=
  fun name hmem => h name (hnames name hmem)

theorem Admits.inside {rest : Forest}
    (h : engine.Admits selectors spent (.element name children rest)) :
    engine.Admits selectors spent (engine.inside name children) :=
  h.of_names fun name' hmem => by
    rw [names_inside] at hmem
    simp [Forest.names, hmem]

theorem Admits.rest {rest : Forest}
    (h : engine.Admits selectors spent (.element name children rest)) :
    engine.Admits selectors spent rest :=
  h.of_names fun name' hmem => by simp [Forest.names, hmem]

theorem means_element {rest : Forest}
    (h : engine.Admits selectors spent (.element name children rest))
    (hinside : engine.Means selectors spent (engine.interpret (engine.inside name children))
      (engine.inside name children).events) :
    engine.Means selectors spent (fun scope => (engine.opening name children.argument scope).shows
      (engine.interpret (engine.inside name children)))
      (.start name :: (children.events ++ [.close])) := by
  intro s hs
  obtain ⟨hname, hdefer, hspent⟩ := h name (by simp [Forest.names])
  by_cases hthrough : engine.options.classify name = .directive .through
  · obtain ⟨markers, hmarkers⟩ := hs.claimed (hspent hthrough)
    have hspare := feeds_spare_hole children hs.captures hthrough hmarkers
    simpa [opening, hthrough, Opening.shows, State.shows_nil] using hspare
  · exact (opens_element children hs hname hdefer hthrough).feeds (hinside.opening hs _ name)

theorem means_forest (forest : Forest) (h : engine.Admits selectors spent forest) :
    engine.Means selectors spent (engine.interpret forest) forest.events := by
  -- What follows an argument is smaller than the element but no part of it, so the recursion is on
  -- the size.
  match forest, h with
  | .nil, _ =>
    intro s hs
    rw [interpret, State.shows_nil]
    exact .nil engine s
  | .text content rest, h =>
    have hrest := means_forest rest h
    have hfirst : engine.Means selectors spent (fun scope => ([.text content], scope))
        [.text content] :=
      fun s hs => .cons (absorbs_text hs.captures hs.text) (.nil engine _)
    have hall := hfirst.seq hrest
    simpa [Means, interpret, Meaning.seq, Forest.events] using hall
  | .attr name value rest, h =>
    have hrest := means_forest rest h
    have hfirst : engine.Means selectors spent (fun scope => ([.attr name value], scope))
        [.attr name value] :=
      fun s hs => .cons (absorbs_attr hs.captures hs.attr) (.nil engine _)
    have hall := hfirst.seq hrest
    simpa [Means, interpret, Meaning.seq, Forest.events] using hall
  | .element name children rest, h =>
    have hinside := means_forest (engine.inside name children) h.inside
    have hall := (means_element h hinside).seq (means_forest rest h.rest)
    rw [← interpret_element] at hall
    simpa [Forest.events, List.append_assoc] using hall
termination_by sizeOf forest
decreasing_by
  all_goals first
    | exact sizeOf_inside_lt engine _ _ _
    | decreasing_tactic

theorem realizes_forest (engine : Engine) (forest : Forest) (h : engine.Immediate forest) :
    engine.Realizes (engine.interpret forest) forest.events := by
  have hadmits : engine.Admits [] False forest := fun name hmem =>
    ⟨by simp, (h name hmem).1, (h name hmem).2⟩
  exact (means_forest forest hadmits).realizes

/-- A stream without deferred bodies is processed without a fault, and what it shows and the scope
that it leaves are those of the recursion over its forest.  Nothing else is left but the log. -/
theorem run_eq_interpret (engine : Engine) (forest : Forest) (scope : Scope)
    (h : engine.Immediate forest) : ∃ enough log, ∀ steps, enough ≤ steps →
      engine.run steps forest.events { scope } =
        some (.ok (engine.interpret forest scope).1,
          { scope := (engine.interpret forest scope).2, log }) := by
  have hsilent : Levels.root.Silent := by
    intro keys
    induction keys with
    | nil => rfl
    | cons key keys ih => exact ih
  obtain ⟨enough, log, hall⟩ := (realizes_forest engine forest h { scope } rfl hsilent).submitAll
    rfl []
  refine ⟨enough, log, ?_⟩
  intro steps hsteps
  have hsubmit : engine.submitAll steps forest.events { scope } =
      some (.ok (), { State.shows { scope } (engine.interpret forest scope) with log }) :=
    hall steps hsteps
  rw [run, hsubmit]
  rfl

/-- A loop over two items, with an evaluator that looks variables up. -/
theorem run_eq_interpret_loop :
    let engine : Engine := { evaluator := fun source vars => ⟨(vars.get? source).elim
      (.error (.undefined source)) .ok, []⟩ }
    let forest : Forest := .element "ul" (.element ":each" (.text "x in xs"
      (.element "li=" (.text "x" .nil) .nil)) .nil) .nil
    let scope := Scope.ofList [("xs", .list [.str "a", .str "b"])]
    engine.Immediate forest ∧ ∃ enough, ∀ steps, enough ≤ steps → ∃ s,
      engine.run steps forest.events { scope } = some (.ok [.start "ul", .start "li", .text "a",
        .close, .start "li", .text "b", .close, .close], s) := by
  intro engine forest scope
  have hnames : engine.Immediate forest := by decide +kernel
  have hshown : (engine.interpret forest scope).1 = [.start "ul", .start "li", .text "a",
      .close, .start "li", .text "b", .close, .close] := by decide +kernel
  obtain ⟨enough, log, hrun⟩ := run_eq_interpret engine forest scope hnames
  rw [hshown] at hrun
  exact ⟨hnames, enough, fun steps hsteps => ⟨_, hrun steps hsteps⟩⟩

end Engine
end TreeStream
