import TreeStream.Proofs.Interpreter
import TreeStream.Proofs.Templates
import TreeStream.Proofs.Unclosed

/-!
# Where a released element closes

The close of an element that has been let through closes the level that its hole stands in, and from
there on every close of the body is one level further out: the last one closes the level of the
element.  Levels that are to close unseen, those of conditions, take part in this like all others.

* `Leaves depth events`: the events leave elements open.
* `Engine.firstHole`: whether the first hole that a body comes to stands directly in a condition.
* `Work`: what is to be done in front of the queue; `Engine.Turns` leads from work to work.
* `Engine.Held`: what is shown up to the first hole, what waits there, and what that shows later.
* `Engine.Meets`: work comes to its end, or to the first hole; `Engine.meets_forest` is a body.
* `Engine.release_balanced_iff`: the output is balanced unless the hole stands in a condition.
-/

namespace TreeStream
set_option autoImplicit false

/-! ## Elements that are left open -/

/-- The events leave so many elements open, wherever they stand. -/
def Leaves (depth : Nat) (events : List Event) : Prop :=
  ∀ outer after, Closes outer (events ++ after) ↔ Closes (outer + depth) after

theorem Leaves.append {first second : Nat} {before after : List Event} (h1 : Leaves first before)
    (h2 : Leaves second after) : Leaves (first + second) (before ++ after) := by
  intro outer later
  rw [List.append_assoc, h1, h2, Nat.add_assoc]

theorem Balanced.leaves {events : List Event} (h : Balanced events) : Leaves 0 events := by
  intro outer after
  have hwhole := closes_iff_unclosed (List.replicate outer "") (events ++ after)
  have hafter := closes_iff_unclosed (List.replicate outer "") after
  rw [List.length_replicate] at hwhole hafter
  rw [hwhole, unclosed_append, unclosed_balanced _ h, Option.bind_some, Nat.add_zero, hafter]

theorem leaves_start (name : String) (texts : List String) :
    Leaves 1 (.start name :: texts.map .text) := by
  intro outer after
  induction texts with
  | nil => exact Iff.rfl
  | cons text texts ih => exact ih

theorem Closes.unique {first second : Nat} {events : List Event} (h1 : Closes first events)
    (h2 : Closes second events) : first = second := by
  induction events generalizing first second with
  | nil => exact h1.trans h2.symm
  | cons event events ih =>
    cases event with
    | start name => exact Nat.succ.inj (ih h1 h2)
    | close =>
      cases first with
      | zero => exact h1.elim
      | succ first =>
        cases second with
        | zero => exact h2.elim
        | succ second => exact congrArg _ (ih h1 h2)
    | text content => exact ih h1 h2
    | attr name value => exact ih h1 h2

theorem Leaves.balanced_iff {depth closed : Nat} {before after : List Event}
    (h : Leaves depth before) (hcloses : Closes closed after) :
    Balanced (before ++ after) ↔ closed = depth := by
  rw [Balanced, h, Nat.zero_add]
  exact ⟨fun hafter => hcloses.unique hafter, fun hsame => hsame ▸ hcloses⟩

/-! ## What an interpretation shows -/

/-- What an opening shows is balanced, or leaves the element open that it is of. -/
def Opening.Shaped : Opening → Prop
  | .dropped shown _ => Balanced shown
  | .kept front _ => Leaves 1 front
  | .bare _ => True
  | .looped _ _ _ => True

namespace Engine

theorem opening_shaped (engine : Engine) (name argument : String) (scope : Scope) :
    (engine.opening name argument scope).Shaped := by
  have hnothing : Balanced [] := rfl
  have htext : ∀ content, Balanced [.text content] := fun _ => rfl
  have hstart : ∀ name, Leaves 1 [.start name] := fun name => leaves_start name []
  have hboth : ∀ name content, Leaves 1 [.start name, .text content] :=
    fun name content => leaves_start name [content]
  unfold opening
  cases engine.options.classify name with
  | element => exact hstart name
  | unknown => exact hstart name
  | affect =>
    dsimp only
    split
    · exact htext _
    · exact hboth _ _
  | directive directive =>
    cases directive with
    | cond =>
      dsimp only
      rcases scope.evaluate engine.evaluator argument with ⟨error | value, scope'⟩
      · exact hboth _ _
      · dsimp only
        split
        · trivial
        · exact hnothing
    | each =>
      dsimp only
      rcases EachArgument.parse? argument with _ | each
      · exact hboth _ _
      · dsimp only
        rcases scope.evaluate engine.evaluator each.source with ⟨error | value, scope'⟩
        · exact htext _
        · cases value with
          | list items => trivial
          | _ => exact hnothing
    | _ => exact hnothing

theorem balanced_rounds (argument : EachArgument) {inside : Meaning}
    (h : ∀ scope, Balanced (inside scope).1) (round : Nat) (items : List Value) (scope : Scope) :
    Balanced (argument.rounds inside round items scope).1 := by
  induction items generalizing round scope with
  | nil => rfl
  | cons item items ih => exact Closes.append (h _) (ih _ _)

theorem balanced_opening {opening : Opening} (hshaped : opening.Shaped) {inside : Meaning}
    (h : ∀ scope, Balanced (inside scope).1) : Balanced (opening.shows inside).1 := by
  cases opening with
  | dropped shown scope => exact hshaped
  | kept front scope =>
    have hclose : Closes (0 + 1) ((inside scope).1 ++ [.close]) := Closes.append (h scope) rfl
    have hall := (hshaped 0 ((inside scope).1 ++ [.close])).2 hclose
    rwa [← List.append_assoc] at hall
  | bare scope => exact h scope
  | looped argument items scope => exact balanced_rounds argument h 0 items scope

theorem balanced_interpret (engine : Engine) (forest : Forest) (scope : Scope) :
    Balanced (engine.interpret forest scope).1 := by
  match forest with
  | .nil => simp [interpret, Balanced]
  | .text content rest =>
    rw [interpret]
    exact balanced_interpret engine rest scope
  | .attr name value rest =>
    rw [interpret]
    exact balanced_interpret engine rest scope
  | .element name children rest =>
    rw [interpret_element]
    exact Closes.append (balanced_opening (engine.opening_shaped name children.argument scope)
      (balanced_interpret engine (engine.inside name children)))
      (balanced_interpret engine rest _)
termination_by sizeOf forest
decreasing_by
  all_goals first
    | exact sizeOf_inside_lt engine _ _ _
    | decreasing_tactic

end Engine

/-! ## The first hole -/

/-- The rounds of a loop in turn, up to one that comes to a hole. -/
def EachArgument.firstHole (argument : EachArgument) (inside : Meaning)
    (hole : Scope → Option Bool) : Nat → List Value → Scope → Option Bool
  | _, [], _ => none
  | round, item :: left, scope =>
    let position := argument.index.toList.map fun name => (name, Value.num (Float.ofNat round))
    let (overlay, scope) := scope.install ((argument.item, item) :: position)
    (hole scope).or
      (firstHole argument inside hole (round + 1) left ((inside scope).2.release overlay))

def Opening.firstHole (opening : Opening) (inside : Meaning) (hole : Bool → Scope → Option Bool)
    (hidden : Bool) : Option Bool :=
  match opening with
  | dropped _ _ => none
  | kept _ scope => hole false scope
  | bare scope => hole true scope
  | looped argument items scope => argument.firstHole inside (hole hidden) 0 items scope

namespace Engine

/-- The first hole of an element: itself, or one of those inside. -/
def elementHole (engine : Engine) (name argument : String) (inside : Meaning)
    (hole : Bool → Scope → Option Bool) (hidden : Bool) (scope : Scope) : Option Bool :=
  if engine.options.classify name = .directive .through then some hidden
  else (engine.opening name argument scope).firstHole inside hole hidden

/-- Whether the first hole that the forest comes to in a scope stands directly in a condition that
is true, when the forest itself does so if `hidden`.  There is no answer if it comes to none.  Loops
have no level of their own. -/
def firstHole (engine : Engine) : Forest → Bool → Scope → Option Bool
  | .nil, _, _ => none
  | .text _ rest, hidden, scope => firstHole engine rest hidden scope
  | .attr _ _ rest, hidden, scope => firstHole engine rest hidden scope
  | .element name children rest, hidden, scope =>
    let inside := engine.interpret (engine.inside name children)
    (engine.elementHole name children.argument inside
      (fun hidden scope => firstHole engine (engine.inside name children) hidden scope)
      hidden scope).or
      (firstHole engine rest hidden
        ((engine.opening name children.argument scope).shows inside).2)
termination_by forest => sizeOf forest
decreasing_by
  all_goals first
    | exact Engine.sizeOf_inside_lt engine _ _ _
    | decreasing_tactic

end Engine

/-! ## Levels that close unseen -/

/-- The innermost level closes to `outer`, unseen if `hidden`, and selects nothing itself. -/
structure Levels.Inner (levels outer : Levels) (hidden : Bool) : Prop where
  pop : ∃ level, levels.pop? = some (level, outer) ∧
    level.onEnd = if hidden then some .vanish else none
  lookup : ∀ keys, outer.lookup keys = levels.lookup keys

theorem Levels.inner_push (levels : Levels) (tag : String) :
    (levels.push tag).Inner levels false :=
  ⟨⟨_, levels.pop?_push tag, rfl⟩, fun keys => (levels.lookup_push tag keys).symm⟩

theorem Levels.pop?_setOnEnd (levels : Levels) (hook : EndHook) :
    (levels.setOnEnd hook).pop? = levels.pop?.map fun (level, outer) =>
      ({ level with onEnd := some hook }, outer) := by
  unfold Levels.pop? Levels.setOnEnd
  cases levels.around <;> rfl

theorem Levels.inner_vanish (levels : Levels) (tag : String) :
    ((levels.push tag).setOnEnd .vanish).Inner levels true :=
  ⟨⟨_, rfl, rfl⟩, fun keys => (levels.lookup_push tag keys).symm⟩

/-- Work to be done, whatever bodies are open, is behind in the queue and has been logged. -/
def Work := Markers → Queue → List LogEntry → State

/-- There is more work to be done, before what is behind. -/
def Work.before (work : Work) (items : List Queued) : Work := fun markers queue log =>
  work markers (items ++ queue) log

/-- The items come next. -/
def State.facing (s : State) (items : List Queued) : Work := fun markers queue log =>
  { s with markers, queue := items ++ queue, log }

/-- The body of a template begins, in the place of an element. -/
def Template.begins {engine : Engine} (template : Template engine) (s : State) : State :=
  { s with
    scope := (s.scope.install (template.bindings template.selector)).2
    levels := s.levels.push template.selector }

theorem Opening.enter_markers (opening : Opening) (name : String) (s : State) (markers : Markers) :
    opening.enter name { s with markers } = { opening.enter name s with markers } := by
  cases opening <;> rfl

/-- What the close of a level shows. -/
def closing (hidden : Bool) : List Event :=
  if hidden then [] else [.close]

theorem closes_closing (hidden : Bool) : Closes (1 - hidden.toNat) (closing hidden) := by
  cases hidden <;> rfl

namespace Engine

variable {engine : Engine} {selectors : List String} {spent : Prop} {s : State}
  {outer : Levels} {hidden crossed : Bool}

theorem absorbs_inner_close (hs : s.Ready selectors spent) (h : s.levels.Inner outer hidden) :
    engine.Absorbs [.event .close] s
      { s with levels := outer, output := s.output ++ closing hidden } := by
  obtain ⟨level, hpop, hhook⟩ := h.pop
  cases hidden with
  | false => exact absorbs_close engine hs.captures hpop hhook ((h.lookup _).trans hs.close)
  | true =>
    have hclose := absorbs_close_vanish engine hs.captures hpop hhook
    simpa [closing] using hclose

/-! ## Bodies whose element has been let through -/

/-- Once the element has been let through, the items show something balanced. -/
def Passes (engine : Engine) (selectors : List String) (items : List Queued) : Prop :=
  ∀ s : State, s.Ready selectors True → ∃ scope shown, Balanced shown ∧
    engine.Absorbs items s { s with scope, output := s.output ++ shown }

theorem passes_forest {forest : Forest} (h : engine.Admits selectors True forest) :
    engine.Passes selectors (forest.events.map .event) := by
  intro s hs
  exact ⟨_, _, engine.balanced_interpret forest s.scope, (means_forest forest h s hs).absorbs⟩

theorem passes_rounds {forest : Forest} (h : engine.Admits selectors True forest)
    (argument : EachArgument) (left : List Value) (round : Nat) (overlay : Overlay) :
    engine.Passes selectors [.callback (.roundDone overlay
      ⟨argument.item, argument.index, forest.events, round, left⟩)] := by
  intro s hs
  have hreleased : (s.release overlay).Ready selectors True := hs.congr rfl (fun _ => rfl) rfl
  let shown := argument.rounds (engine.interpret forest) round left (s.release overlay).scope
  refine ⟨shown.2, shown.1,
    balanced_rounds argument (engine.balanced_interpret forest) round left _, ?_⟩
  intro queue log
  obtain ⟨n, log', hrun⟩ :=
    (means_forest forest h).runs_play argument left round hreleased queue log
  exact ⟨1 + n, log', (Runs.single rfl rfl).trans hrun⟩

/-! ## Work in front of the queue -/

/-- Work leads to other work, whatever bodies are open, is behind in the queue and has been
logged. -/
def Turns (engine : Engine) (start finish : Work) : Prop :=
  ∀ markers queue log, ∃ n log',
    engine.Runs n (start markers queue log) (finish markers queue log')

variable {work work' : Work}

theorem turns_of_eq (h : ∀ markers queue log, work markers queue log = work' markers queue log) :
    engine.Turns work work' :=
  fun markers queue log => ⟨0, log, h markers queue log⟩

theorem Turns.trans {start between finish : Work} (h1 : engine.Turns start between)
    (h2 : engine.Turns between finish) : engine.Turns start finish := by
  intro markers queue log
  obtain ⟨n, log1, hfirst⟩ := h1 markers queue log
  obtain ⟨m, log2, hrest⟩ := h2 markers queue log1
  exact ⟨n + m, log2, hfirst.trans hrest⟩

theorem Turns.before (h : engine.Turns work work') (items : List Queued) :
    engine.Turns (work.before items) (work'.before items) :=
  fun markers queue log => h markers (items ++ queue) log

theorem turns_of_absorbs {items : List Queued} {t u : State}
    (h : ∀ markers, engine.Absorbs items { t with markers } { u with markers }) :
    engine.Turns (t.facing items) (u.facing []) :=
  fun markers queue log => h markers queue log

/-! ## Work up to the first hole -/

/-- Work that begins in the levels of `s` comes to a hole and lets the element through.  What is
left of the work then waits where the hole stands, and resumes one level further out, so that it
closes the innermost level of `s` in the end.  If the hole stands at a level that would have closed
unseen, one element more is closed than has been left open, and one less if that is so for the
innermost level of `s`. -/
structure Held (engine : Engine) (selectors : List String) (work : Work) (s : State)
    (outer : Levels) (hidden crossed : Bool) where
  scope : Scope
  levels : Levels
  outside : Levels
  shown : List Event
  depth : Nat
  after : List Queued
  lookup : ∀ keys, levels.lookup keys = s.levels.lookup keys
  pop : ∃ level, levels.pop? = some (level, outside)
  lookup_outside : ∀ keys, outside.lookup keys = s.levels.lookup keys
  leaves : Leaves depth shown
  runs : ∀ markers behind rest log, ∃ n log',
    engine.Runs n (work (.opened behind.length :: markers) (rest ++ behind) log)
      { s with
        scope
        queue := behind
        levels := levels.setOnEnd (.resume (after ++ rest))
        markers := .claimed :: markers
        output := s.output ++ shown
        log := log' }
  resumes : ∀ u : State, u.Ready selectors True → u.levels = outside → ∃ scope' later closed,
    Closes closed later ∧ closed + hidden.toNat = depth + crossed.toNat ∧
      engine.Absorbs after u
        { u with scope := scope', levels := outer, output := u.output ++ later }

/-- Something balanced is shown before. -/
def Held.shift {front : List Event} {scope : Scope}
    (held : engine.Held selectors work' (s.shows (front, scope)) outer hidden crossed)
    (hfront : Balanced front) (hwork : engine.Turns work work') :
    engine.Held selectors work s outer hidden crossed :=
  { held with
    shown := front ++ held.shown
    leaves := by simpa using hfront.leaves.append held.leaves
    runs := fun markers behind rest log => by
      obtain ⟨n, log1, hfirst⟩ := hwork (.opened behind.length :: markers) (rest ++ behind) log
      obtain ⟨m, log2, hrun⟩ := held.runs markers behind rest log1
      refine ⟨n + m, log2, hfirst.trans ?_⟩
      simpa [State.shows] using hrun }

/-- There is more work, which waits with the rest. -/
def Held.append (held : engine.Held selectors work s outer hidden crossed) {items : List Queued}
    (hitems : engine.Passes selectors items) (houter : s.levels.Inner outer hidden) :
    engine.Held selectors (work.before items) s outer hidden crossed :=
  { held with
    after := held.after ++ items
    runs := fun markers behind rest log => by
      obtain ⟨n, log', hrun⟩ := held.runs markers behind (items ++ rest) log
      exact ⟨n, log', by simpa only [Work.before, List.append_assoc] using hrun⟩
    resumes := fun u hu hlevels => by
      obtain ⟨scope1, later, closed, hcloses, hcount, hafter⟩ := held.resumes u hu hlevels
      have hready : ({ u with scope := scope1, levels := outer, output := u.output ++ later } :
          State).Ready selectors True := by
        refine hu.congr rfl (fun keys => ?_) rfl
        rw [hlevels, held.lookup_outside, houter.lookup]
      obtain ⟨scope2, more, hmore, hpasses⟩ := hitems _ hready
      refine ⟨scope2, later ++ more, closed, ?_, hcount, ?_⟩
      · have hboth : Closes (closed + 0) (later ++ more) := Closes.append hcloses hmore
        exact hboth
      · have hall := hafter.append hpasses
        simpa using hall }

/-- The work is inside an element, whose close comes last. -/
def Held.within {front : List Event} {scope : Scope} {levels : Levels} {inner : Bool}
    (held : engine.Held selectors work'
      { s with levels, scope, output := s.output ++ front } s.levels inner crossed)
    (hlevels : levels.Inner s.levels inner) (hfront : Leaves (1 - inner.toNat) front)
    (houter : s.levels.Inner outer hidden)
    (hwork : engine.Turns work (work'.before [.event .close])) :
    engine.Held selectors work s outer hidden crossed where
  scope := held.scope
  levels := held.levels
  outside := held.outside
  shown := front ++ held.shown
  depth := (1 - inner.toNat) + held.depth
  after := held.after ++ [.event .close]
  lookup keys := (held.lookup keys).trans (hlevels.lookup keys).symm
  pop := held.pop
  lookup_outside keys := (held.lookup_outside keys).trans (hlevels.lookup keys).symm
  leaves := hfront.append held.leaves
  runs markers behind rest log := by
    obtain ⟨n, log1, hfirst⟩ := hwork (.opened behind.length :: markers) (rest ++ behind) log
    obtain ⟨m, log2, hrun⟩ := held.runs markers behind (.event .close :: rest) log1
    refine ⟨n + m, log2, hfirst.trans ?_⟩
    simpa [Work.before] using hrun
  resumes u hu houtside := by
    obtain ⟨scope', later, closed, hcloses, hcount, hafter⟩ := held.resumes u hu houtside
    have hready : ({ u with scope := scope', levels := s.levels, output := u.output ++ later } :
        State).Ready selectors True := by
      refine hu.congr rfl (fun keys => ?_) rfl
      rw [houtside, held.lookup_outside, hlevels.lookup]
    -- The work inside has closed the element already, so its own close goes to the level around.
    have hclose : engine.Absorbs [.event .close] _ _ := absorbs_inner_close hready houter
    refine ⟨scope', later ++ closing hidden, closed + (1 - hidden.toNat), ?_, ?_, ?_⟩
    · exact Closes.append hcloses (closes_closing hidden)
    · have hinner := inner.toNat_le
      have hhidden := hidden.toNat_le
      omega
    · have hall := hafter.append hclose
      simpa using hall

/-- The hole itself. -/
def Held.here {name : String} (children : Forest) (hs : s.Ready selectors spent)
    (hlevels : s.levels.Inner outer hidden)
    (hthrough : engine.options.classify name = .directive .through) :
    engine.Held selectors
      (s.facing ((Event.start name :: (children.events ++ [Event.close])).map .event)) s outer
      hidden hidden where
  scope := s.scope
  levels := s.levels
  outside := outer
  shown := []
  depth := 0
  after := []
  lookup _ := rfl
  pop := hlevels.pop.imp fun level hlevel => hlevel.1
  lookup_outside := hlevels.lookup
  leaves := Balanced.leaves rfl
  runs markers behind rest log := by
    let opened : State := { s with markers := .opened behind.length :: markers }
    have hhole := feeds_hole engine (s := opened) children hs.captures hthrough
    obtain ⟨n, log', hrun⟩ := hhole.absorbs (.event .close :: (rest ++ behind)) log
    have hclose := step_hole_close engine
      { opened with queue := rest ++ behind, log := log' } name
    have hclaim := State.letThrough_opened
      (s := { opened with queue := rest ++ behind, log := log' }) rfl rfl
    rw [hclaim] at hclose
    have hall := hrun.trans (Runs.single rfl hclose)
    exact ⟨n + 1, log', by simpa [opened, State.facing, State.setOnEnd] using hall⟩
  resumes u hu houtside :=
    ⟨u.scope, [], 0, rfl, rfl, by simpa [← houtside] using Absorbs.nil engine u⟩

/-- Work comes to its end with a result, or to a hole. -/
def Meets (engine : Engine) (selectors : List String) (work : Work) (s : State) (outer : Levels)
    (hidden : Bool) (result : List Event × Scope) : Option Bool → Prop
  | none => engine.Turns work ((s.shows result).facing [])
  | some crossed => Nonempty (engine.Held selectors work s outer hidden crossed)

theorem Meets.shift {front : List Event} {scope : Scope} {result : List Event × Scope}
    {hole : Option Bool}
    (h : engine.Meets selectors work' (s.shows (front, scope)) outer hidden result hole)
    (hfront : Balanced front) (hwork : engine.Turns work work') :
    engine.Meets selectors work s outer hidden (front ++ result.1, result.2) hole := by
  cases hole with
  | none =>
    have hall := hwork.trans h
    rwa [State.shows_shows] at hall
  | some crossed =>
    obtain ⟨held⟩ := h
    exact ⟨held.shift hfront hwork⟩

/-- Nothing is shown before. -/
theorem Meets.back {result : List Event × Scope} {hole : Option Bool}
    (h : engine.Meets selectors work' s outer hidden result hole)
    (hwork : engine.Turns work work') :
    engine.Meets selectors work s outer hidden result hole := by
  have hnothing : s.shows ([], s.scope) = s := by simp [State.shows]
  rw [← hnothing] at h
  exact h.shift rfl hwork

/-- First some work, and then some items. -/
theorem Meets.seq {first second : List Event × Scope} {hole hole' : Option Bool}
    {items : List Queued} (h1 : engine.Meets selectors work s outer hidden first hole)
    (hfirst : Balanced first.1) (hitems : engine.Passes selectors items)
    (houter : s.levels.Inner outer hidden)
    (h2 : engine.Meets selectors ((s.shows first).facing items) (s.shows first) outer hidden second
      hole') :
    engine.Meets selectors (work.before items) s outer hidden (first.1 ++ second.1, second.2)
      (hole.or hole') := by
  cases hole with
  | none => exact Meets.shift h2 hfirst (Turns.before h1 items)
  | some crossed =>
    obtain ⟨held⟩ := h1
    exact ⟨held.append hitems houter⟩

/-- The work is inside an element, whose close comes last. -/
theorem Meets.within {front : List Event} {scope : Scope} {levels : Levels} {inner : Bool}
    {result : List Event × Scope} {hole : Option Bool}
    (h : engine.Meets selectors work' { s with levels, scope, output := s.output ++ front } s.levels
      inner result hole)
    (hlevels : levels.Inner s.levels inner) (hfront : Leaves (1 - inner.toNat) front)
    (hs : s.Ready selectors False) (houter : s.levels.Inner outer hidden)
    (hwork : engine.Turns work (work'.before [.event .close])) :
    engine.Meets selectors work s outer hidden (front ++ result.1 ++ closing inner, result.2)
      hole := by
  cases hole with
  | none =>
    let ended : State := { s with levels, scope, output := s.output ++ front }.shows result
    have hready : ∀ markers, ({ ended with markers } : State).Ready selectors False :=
      fun markers => ⟨⟨hs.captures, fun keys hkeys =>
        (hlevels.lookup keys).symm.trans (hs.lookup keys hkeys)⟩, hs.unreserved, False.elim⟩
    have hclose : engine.Turns (ended.facing [.event .close])
        (({ ended with levels := s.levels, output := ended.output ++ closing inner } :
          State).facing []) :=
      turns_of_absorbs fun markers => absorbs_inner_close (hready markers) hlevels
    have hall := hwork.trans ((Turns.before h [.event .close]).trans hclose)
    simpa [Meets, ended, State.shows] using hall
  | some crossed =>
    obtain ⟨held⟩ := h
    exact ⟨held.within hlevels hfront houter hwork⟩

/-! ## Loops -/

theorem meets_rounds {forest : Forest} (hadmits : engine.Admits selectors True forest)
    {hole : Scope → Option Bool}
    (h : ∀ s : State, s.Ready selectors False → s.levels.Inner outer hidden →
      engine.Meets selectors (s.facing (forest.events.map .event)) s outer hidden
        (engine.interpret forest s.scope) (hole s.scope))
    (argument : EachArgument) (left : List Value) (round : Nat) (hs : s.Ready selectors False)
    (hlevels : s.levels.Inner outer hidden) : engine.Meets selectors
      (fun markers queue log => Loop.play
        ⟨argument.item, argument.index, forest.events, round, left⟩
        { s with markers, queue, log }) s outer hidden
      (argument.rounds (engine.interpret forest) round left s.scope)
      (argument.firstHole (engine.interpret forest) hole round left s.scope) := by
  induction left generalizing s round with
  | nil =>
    refine turns_of_eq fun markers queue log => ?_
    simp [Loop.play, EachArgument.rounds, State.shows, State.facing]
  | cons item left ih =>
    -- A round, and then the callback that gives the bindings back and goes on with the others.
    let bindings := (argument.item, item) ::
      argument.index.toList.map fun name => (name, Value.num (Float.ofNat round))
    rcases hinstall : s.scope.install bindings with ⟨overlay, scope⟩
    let again : Loop := ⟨argument.item, argument.index, forest.events, round + 1, left⟩
    let bound := s.shows ([], scope)
    let shown := engine.interpret forest scope
    let freed := (bound.shows shown).shows ([], shown.2.release overlay)
    have hbody := h bound (hs.congr rfl (fun _ => rfl) rfl) hlevels
    have hothers := ih (s := freed) (round + 1) (hs.congr rfl (fun _ => rfl) rfl) hlevels
    have hcallback : engine.Meets selectors
        ((bound.shows shown).facing [.callback (.roundDone overlay again)]) (bound.shows shown)
        outer hidden _ _ := hothers.shift rfl fun markers queue log => by
      refine ⟨1, log, Runs.single rfl ?_⟩
      simp [step, Callback.run, again, freed, State.shows, State.facing, State.release]
    have hrounds := hbody.seq (engine.balanced_interpret forest scope)
      (passes_rounds hadmits argument left (round + 1) overlay) hlevels hcallback
    have hall : engine.Meets selectors (fun markers queue log => Loop.play
        ⟨argument.item, argument.index, forest.events, round, item :: left⟩
        { s with markers, queue, log }) s outer hidden _ _ :=
      hrounds.shift rfl <| turns_of_eq fun markers queue log => by
        have hscope : State.install { s with markers, queue, log } bindings =
            (overlay, { s with markers, queue, log, scope }) := by simp [State.install, hinstall]
        simp only [Loop.play]
        rw [hscope]
        simp [State.playBuffer, Queue.replay, bound, State.shows, State.facing, Work.before]
    simp only [EachArgument.rounds, EachArgument.firstHole]
    rw [hinstall]
    simpa [bound, freed, shown, State.shows] using hall

/-! ## Bodies -/

theorem meets_opening {forest : Forest} (hadmits : engine.Admits selectors True forest)
    {hole : Bool → Scope → Option Bool}
    (h : ∀ (s : State) (outer : Levels) (hidden : Bool), s.Ready selectors False →
      s.levels.Inner outer hidden → engine.Meets selectors (s.facing (forest.events.map .event)) s
        outer hidden (engine.interpret forest s.scope) (hole hidden s.scope))
    (hs : s.Ready selectors False) (hlevels : s.levels.Inner outer hidden) {opening : Opening}
    (hshaped : opening.Shaped) (name : String) : engine.Meets selectors
      ((opening.enter name s).facing ((forest.events ++ [Event.close]).map .event)) s outer hidden
      (opening.shows (engine.interpret forest))
      (opening.firstHole (engine.interpret forest) hole hidden) := by
  cases opening with
  | dropped shown scope =>
    exact turns_of_absorbs fun markers =>
      (feeds_discardBody engine forest { s.shows (shown, scope) with markers } name).absorbs
  | kept front scope =>
    have hpushed := s.levels.inner_push name
    have hinner := h { s with levels := s.levels.push name, scope, output := s.output ++ front }
      s.levels false (hs.congr rfl (s.levels.lookup_push name) rfl) hpushed
    exact hinner.within hpushed hshaped hs hlevels <| turns_of_eq fun markers queue log => by
      simp [Opening.enter, State.facing, Work.before]
  | bare scope =>
    have hpushed := s.levels.inner_vanish name
    have hinner := h { s with
        levels := (s.levels.push name).setOnEnd .vanish
        scope
        output := s.output ++ [] }
      s.levels true (hs.congr rfl (s.levels.lookup_push name) rfl) hpushed
    have hall : engine.Meets selectors (((Opening.bare scope).enter name s).facing
        ((forest.events ++ [Event.close]).map .event)) s outer hidden _ _ :=
      hinner.within hpushed (Balanced.leaves rfl) hs hlevels <|
        turns_of_eq fun markers queue log => by
          simp [Opening.enter, State.facing, Work.before, State.setOnEnd]
    simp only [closing, reduceIte, List.nil_append, List.append_nil] at hall
    exact hall
  | looped argument items scope =>
    have hrounds := meets_rounds hadmits (fun s => h s outer hidden) argument items 0
      (s := s.shows ([], scope)) (hs.congr rfl (fun _ => rfl) rfl) hlevels
    have hall : engine.Meets selectors (((Opening.looped argument items scope).enter name s).facing
        ((forest.events ++ [Event.close]).map .event)) s outer hidden _ _ :=
      hrounds.shift rfl fun markers queue log => by
        obtain ⟨n, log', hrun⟩ := (feeds_subLevel engine forest
          { s with levels := s.levels.push name, scope, markers } 0 false []
          (.loop argument.item argument.index items) s.captures).absorbs
          (.event .close :: queue) log
        have hclose := step_subLevel_close engine (s := { s with
          levels := s.levels.push name
          scope
          markers
          captures := .subLevel 0 false ([] ++ kept false forest.events)
            (.loop argument.item argument.index items) :: s.captures })
          rfl (s.levels.pop?_push name) rfl queue log'
        refine ⟨n + 1, log', ?_⟩
        have hboth := hrun.trans (Runs.single rfl hclose)
        simpa [Opening.enter, State.captureBody, State.shows, State.facing, BodyUse.run, kept]
          using hboth
    exact hall

theorem meets_element {name : String} {children rest : Forest}
    (hadmits : engine.Admits selectors True (.element name children rest))
    (h : ∀ (s : State) (outer : Levels) (hidden : Bool), s.Ready selectors False →
      s.levels.Inner outer hidden → engine.Meets selectors
        (s.facing ((engine.inside name children).events.map .event)) s outer hidden
        (engine.interpret (engine.inside name children) s.scope)
        (engine.firstHole (engine.inside name children) hidden s.scope))
    (hs : s.Ready selectors False) (hlevels : s.levels.Inner outer hidden) : engine.Meets selectors
      (s.facing ((Event.start name :: (children.events ++ [Event.close])).map .event)) s outer
      hidden
      ((engine.opening name children.argument s.scope).shows
        (engine.interpret (engine.inside name children)))
      (engine.elementHole name children.argument (engine.interpret (engine.inside name children))
        (fun hidden scope => engine.firstHole (engine.inside name children) hidden scope) hidden
        s.scope) := by
  obtain ⟨hname, hdefer, -⟩ := hadmits name (by simp [Forest.names])
  unfold elementHole
  split
  case isTrue hthrough => exact ⟨Held.here children hs hlevels hthrough⟩
  case isFalse hthrough =>
    have hinside := meets_opening hadmits.inside h hs hlevels
      (opening_shaped engine name children.argument s.scope) name
    refine hinside.back fun markers queue log => ?_
    have hready : ({ s with markers } : State).Ready selectors False :=
      ⟨hs.toCalm.congr rfl rfl, hs.unreserved, False.elim⟩
    have hopens := opens_element children hready hname hdefer hthrough
    rw [Opening.enter_markers] at hopens
    exact hopens.runs queue log

theorem meets_forest (forest : Forest) (h : engine.Admits selectors True forest) (s : State)
    (outer : Levels) (hidden : Bool) (hs : s.Ready selectors False)
    (hlevels : s.levels.Inner outer hidden) : engine.Meets selectors
      (s.facing (forest.events.map .event)) s outer hidden
      (engine.interpret forest s.scope) (engine.firstHole forest hidden s.scope) := by
  match forest, h with
  | .nil, _ =>
    rw [interpret, firstHole]
    refine turns_of_eq fun markers queue log => ?_
    simp [State.shows, State.facing, Forest.events]
  | .text content rest, h =>
    have hrest := meets_forest rest h (s.shows ([.text content], s.scope)) outer hidden
      (hs.congr rfl (fun _ => rfl) rfl) hlevels
    rw [interpret, firstHole]
    have htext : ∀ markers, engine.Absorbs [.event (.text content)] { s with markers } _ :=
      fun markers => absorbs_text hs.captures hs.text
    exact hrest.shift rfl fun markers queue log =>
      htext markers (rest.events.map Queued.event ++ queue) log
  | .attr name value rest, h =>
    have hrest := meets_forest rest h (s.shows ([.attr name value], s.scope)) outer hidden
      (hs.congr rfl (fun _ => rfl) rfl) hlevels
    rw [interpret, firstHole]
    have hattr : ∀ markers, engine.Absorbs [.event (.attr name value)] { s with markers } _ :=
      fun markers => absorbs_attr hs.captures hs.attr
    exact hrest.shift rfl fun markers queue log =>
      hattr markers (rest.events.map Queued.event ++ queue) log
  | .element name children rest, h =>
    let shown := (engine.opening name children.argument s.scope).shows
      (engine.interpret (engine.inside name children))
    have hshown : Balanced shown.1 := balanced_opening (opening_shaped engine _ _ _)
      (balanced_interpret engine (engine.inside name children))
    have hrest := meets_forest rest h.rest (s.shows shown) outer hidden
      (hs.congr rfl (fun _ => rfl) rfl) hlevels
    have hwhole := (meets_element h (meets_forest _ h.inside) hs hlevels).seq hshown
      (passes_forest h.rest) hlevels hrest
    rw [interpret_element, firstHole]
    refine hwhole.back (turns_of_eq fun markers queue log => ?_)
    simp [Forest.events, State.facing, Work.before]
termination_by sizeOf forest
decreasing_by
  all_goals first
    | exact sizeOf_inside_lt engine _ _ _
    | decreasing_tactic

/-! ## Released elements -/

/-- The state of an element that has been let through, until it closes. -/
def Held.waiting (held : engine.Held selectors work s outer hidden crossed) (markers : Markers)
    (rest : Queue) : State :=
  { s with
    scope := held.scope
    levels := held.levels.setOnEnd (.resume (held.after ++ rest))
    markers := .claimed :: markers
    output := s.output ++ held.shown }

/-- The close of the element resumes what is left of the body, which ends with the callback. -/
theorem Held.absorbs_close (held : engine.Held selectors work s outer hidden crossed)
    {overlay : Overlay} {markers : Markers} {t : State} (ht : t.Ready selectors True)
    (hlevels : t.levels = held.levels.setOnEnd
      (.resume (held.after ++ [.callback (.bodyDone overlay true)])))
    (hmarkers : t.markers = .claimed :: markers) : ∃ scope later closed,
    Closes closed later ∧ closed + hidden.toNat = held.depth + crossed.toNat ∧
      engine.Absorbs [.event .close] t
        { t with scope, levels := outer, markers, output := t.output ++ later } := by
  let resumed : State := { t with levels := held.outside }
  have hready : resumed.Ready selectors True := by
    refine ht.congr rfl (fun keys => ?_) rfl
    rw [hlevels, Levels.lookup_setOnEnd, held.lookup, ← held.lookup_outside]
  obtain ⟨scope, later, closed, hcloses, hcount, hafter⟩ := held.resumes resumed hready rfl
  refine ⟨scope.release overlay, later, closed, hcloses, hcount, ?_⟩
  obtain ⟨level, hpop⟩ := held.pop
  have hpopped : t.levels.pop? = some ({ level with
      onEnd := some (.resume (held.after ++ [.callback (.bodyDone overlay true)])) },
      held.outside) := by
    rw [hlevels, Levels.pop?_setOnEnd, hpop]
    rfl
  have hdone := absorbs_bodyDone engine
    (s := { resumed with scope, levels := outer, output := t.output ++ later }) overlay true
    hmarkers
  exact absorbs_close_resume ht.captures hpopped rfl (hafter.append hdone)

section Fired

variable {template : Template engine} {children : Forest}

theorem ready_begins (hs : s.Stocked [template]) :
    (template.begins s).Ready [template.selector] False :=
  ⟨(hs.toCalm.push template.selector).congr rfl rfl, by simpa using template.unreserved,
    False.elim⟩

theorem runs_begins (hs : s.Stocked [template])
    (htag : engine.options.classify template.selector = .element) (queue : Queue)
    (log : List LogEntry) :
    engine.Runs 1 { s with queue := .event (.start template.selector) :: queue, log }
      ((template.begins s).facing (template.body.events.map .event)
        (.opened queue.length :: s.markers) (template.done s.scope template.selector :: queue)
        log) := by
  have hfind : Template.find? [template] template.selector = some template := by
    simp [Template.find?]
  exact runs_fire hs htag hfind queue log

/-- Nothing has been let through, so the callback drops what is inside the element. -/
theorem feeds_replaced (hs : s.Stocked [template])
    (htag : engine.options.classify template.selector = .element) (children : Forest)
    {shown : List Event × Scope}
    (hbody : engine.Turns ((template.begins s).facing (template.body.events.map .event))
      (((template.begins s).shows shown).facing [])) :
    ∃ scope, engine.Feeds (.start template.selector :: (children.events ++ [.close])) s
      { s with scope, output := s.output ++ shown.1 } := by
  let left : State := { s with
    scope := shown.2.release (s.scope.install (template.bindings template.selector)).1
    output := s.output ++ shown.1 }
  have hdropped : engine.Absorbs [.event (.start template.selector)] s
      ({ left with levels := s.levels.push template.selector }.discardBody) := by
    intro queue log
    obtain ⟨n, log1, hrun⟩ := hbody (.opened queue.length :: s.markers)
      (template.done s.scope template.selector :: queue) log
    refine ⟨1 + (n + 1), log1,
      (runs_begins hs htag queue log).trans (hrun.trans (Runs.single rfl ?_))⟩
    rw [Template.done, step, Callback.run_bodyDone_dropped rfl]
    rfl
  exact ⟨_, .cons hdropped (feeds_discardBody engine children left template.selector)⟩

/-- The close of the element closes the level of its hole, and what is left of the body then closes
that of the element. -/
theorem feeds_held (hs : s.Stocked [template])
    (htag : engine.options.classify template.selector = .element)
    (hchildren : engine.Admits [template.selector] True children)
    (held : engine.Held [template.selector]
      ((template.begins s).facing (template.body.events.map .event)) (template.begins s) s.levels
      false crossed) : ∃ scope shown,
    engine.Feeds (.start template.selector :: (children.events ++ [.close])) s
        { s with scope, output := s.output ++ shown } ∧ (Balanced shown ↔ crossed = false) := by
  let waiting := held.waiting s.markers [template.done s.scope template.selector]
  let inner := engine.interpret children waiting.scope
  have hready := ready_begins hs
  have hwaiting : waiting.Ready [template.selector] True :=
    ⟨⟨hs.captures, fun keys hkeys => (held.lookup keys).trans (hready.lookup keys hkeys)⟩,
      hready.unreserved, fun _ => ⟨_, rfl⟩⟩
  have hstart : engine.Absorbs [.event (.start template.selector)] s waiting := by
    intro queue log
    obtain ⟨n, log1, hrun⟩ :=
      held.runs s.markers queue [template.done s.scope template.selector] log
    exact ⟨1 + n, log1, (runs_begins hs htag queue log).trans hrun⟩
  have hinner := means_forest children hchildren waiting hwaiting
  obtain ⟨scope, later, closed, hcloses, hcount, hclose⟩ := held.absorbs_close
    (t := waiting.shows inner) (hwaiting.congr rfl (fun _ => rfl) rfl) rfl rfl
  have hall := Feeds.cons hstart (hinner.append (.cons hclose (.nil engine _)))
  refine ⟨scope, held.shown ++ inner.1 ++ later, ?_, ?_⟩
  · simpa [waiting, Held.waiting, Template.begins, State.shows] using hall
  · have hleaves := held.leaves.append (engine.balanced_interpret children waiting.scope).leaves
    rw [hleaves.balanced_iff hcloses]
    cases crossed <;> simp at hcount ⊢ <;> omega

end Fired

/-- The body that stands for an element, and the element in its hole, show something that is
balanced unless the hole stands in a condition. -/
theorem feeds_released {template : Template engine} {children : Forest} (hs : s.Stocked [template])
    (htag : engine.options.classify template.selector = .element)
    (hbody : engine.Admits [template.selector] True template.body)
    (hchildren : engine.Admits [template.selector] True children) : ∃ scope shown,
    engine.Feeds (.start template.selector :: (children.events ++ [.close])) s
        { s with scope, output := s.output ++ shown } ∧
      (Balanced shown ↔ engine.firstHole template.body false
        (s.scope.install (template.bindings template.selector)).2 ≠ some true) := by
  have hmeets := meets_forest template.body hbody (template.begins s) s.levels false
    (ready_begins hs) (s.levels.inner_push template.selector)
  change engine.Meets _ _ _ _ _ _ (engine.firstHole template.body false
    (s.scope.install (template.bindings template.selector)).2) at hmeets
  generalize engine.firstHole template.body false _ = hole at hmeets ⊢
  cases hole with
  | none =>
    obtain ⟨scope, hfeeds⟩ := feeds_replaced hs htag children hmeets
    exact ⟨scope, _, hfeeds, by simpa using engine.balanced_interpret template.body _⟩
  | some crossed =>
    obtain ⟨held⟩ := hmeets
    simpa using feeds_held hs htag hchildren held

/-- A template and one element that it selects are processed without a fault, and nothing is left
open.  The output is balanced, unless the first hole that the body comes to stands directly in a
condition that is true. -/
theorem release_balanced_iff (engine : Engine) (template : Template engine) (children : Forest)
    (scope : Scope) (htag : engine.options.classify template.selector = .element)
    (hbody : engine.Admits [template.selector] True template.body)
    (hchildren : engine.Admits [template.selector] True children) : ∃ enough t,
    (∀ steps, enough ≤ steps → engine.submitAll steps
      (template.events ++ .start template.selector :: (children.events ++ [.close])) { scope } =
        some (.ok (), t)) ∧
    t.finish = (.ok (), t) ∧
    (Balanced t.output ↔ engine.firstHole template.body false
      (scope.install (template.bindings template.selector)).2 ≠ some true) := by
  have hregister := feeds_template (s := { scope }) template rfl
  obtain ⟨scope', shown, helement, hbalanced⟩ :=
    feeds_released (stocked_registerAll [template] scope) htag hbody hchildren
  obtain ⟨enough, log, hall⟩ := (hregister.append helement).submitAll rfl []
  refine ⟨enough, _, hall, rfl, hbalanced⟩

/-- A hole in an element, and that in a condition. -/
theorem release_balanced_iff_wrapped :
    let engine : Engine := { evaluator := fun source _ => ⟨.ok (.str source), []⟩ }
    let template : Template engine := {
      name := "::"
      content := .text "x" (.element ":if" (.text "1" (.element "b" (.element ":through" .nil .nil)
        .nil)) .nil)
      selector := "x"
      defers := by decide +kernel
      selects := by decide +kernel
      unreserved := by decide }
    let children : Forest := .text "c" .nil
    engine.options.classify template.selector = .element ∧
      engine.Admits [template.selector] True template.body ∧
      engine.Admits [template.selector] True children ∧
      ∃ enough t, (∀ steps, enough ≤ steps → engine.submitAll steps
        (template.events ++ .start template.selector :: (children.events ++ [.close])) {} =
          some (.ok (), t)) ∧ t.finish = (.ok (), t) ∧ Balanced t.output := by
  intro engine template children
  have htag : engine.options.classify template.selector = .element := by decide +kernel
  have hbody : engine.Admits [template.selector] True template.body := by
    simp only [Admits]
    decide +kernel
  have hchildren : engine.Admits [template.selector] True children := by
    simp [Admits, children, Forest.names]
  have hhole : engine.firstHole template.body false
      (Scope.empty.install (template.bindings template.selector)).2 = some false := by
    decide +kernel
  obtain ⟨enough, t, hall, hfinish, hbalanced⟩ :=
    release_balanced_iff engine template children Scope.empty htag hbody hchildren
  refine ⟨htag, hbody, hchildren, enough, t, hall, hfinish, hbalanced.2 ?_⟩
  rw [hhole]
  decide

/-- A hole that stands directly in a condition: the condition does not keep its own close to itself,
and the output ends with a close too many. -/
theorem release_unbalanced_condition :
    let engine : Engine := { evaluator := fun source _ => ⟨.ok (.str source), []⟩ }
    let template : Template engine := {
      name := "::"
      content := .text "x" (.element ":if" (.text "1" (.element ":through" .nil .nil)) .nil)
      selector := "x"
      defers := by decide +kernel
      selects := by decide +kernel
      unreserved := by decide }
    let children : Forest := .text "c" .nil
    engine.options.classify template.selector = .element ∧
      engine.Admits [template.selector] True template.body ∧
      engine.Admits [template.selector] True children ∧
      ∃ t, engine.submitAll 20
        (template.events ++ .start template.selector :: (children.events ++ [.close])) {} =
          some (.ok (), t) ∧ t.output = [.text "c", .close] ∧ ¬ Balanced t.output := by
  intro engine template children
  have htag : engine.options.classify template.selector = .element := by decide +kernel
  have hbody : engine.Admits [template.selector] True template.body := by
    simp only [Admits]
    decide +kernel
  have hchildren : engine.Admits [template.selector] True children := by
    simp [Admits, children, Forest.names]
  have hshown : (engine.submitAll 20
      (template.events ++ .start template.selector :: (children.events ++ [.close])) {}).any
        (fun answer => answer.1.isOk && answer.2.output = [.text "c", .close]) = true := by
    decide +kernel
  refine ⟨htag, hbody, hchildren, ?_⟩
  rcases hsubmit : engine.submitAll 20
      (template.events ++ .start template.selector :: (children.events ++ [.close])) {} with
    _ | ⟨fault | ⟨⟩, t⟩ <;> rw [hsubmit] at hshown <;>
    simp only [Option.any_none, Option.any_some, Except.isOk, Except.toBool, Bool.true_and,
      Bool.false_and, decide_eq_true_eq, Bool.false_eq_true] at hshown
  refine ⟨t, hsubmit, hshown, ?_⟩
  rw [hshown]
  exact id

end Engine
end TreeStream
