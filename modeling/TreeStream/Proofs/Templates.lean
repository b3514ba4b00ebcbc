import TreeStream.Proofs.Holes
import TreeStream.Proofs.Overlays

/-!
# Deferred bodies as templates

A stream that begins with deferred bodies rewrites the elements that they select: each becomes the
body, with its own children, rewritten in turn, in the place of the first hole.

* `Template`: an element that defers a body, with a name that it selects.
* `Template.find?` gives the template for a name, and `Template.replace` rewrites a forest.
* `Engine.absorbs_fire_whole`, `Engine.absorbs_fire_split`: the start of a selected element, up to
  the first hole of the body; `Engine.absorbs_close_split` is its close, which resumes the body.
* `Engine.run_eq_replace`: a whole stream is processed without a fault, shows the rewritten forest
  and leaves nothing open.
-/

namespace TreeStream
set_option autoImplicit false

/-- An element that defers a body for the elements of a name. -/
structure Template (engine : Engine) where
  name : String
  content : Forest
  selector : String
  defers : engine.options.classify name = .directive .defer
  selects : (Selection.parse content.argument).selector = some selector
  unreserved : selector ∉ reservedSelectors

namespace Template

variable {engine : Engine}

def body (template : Template engine) : Forest :=
  template.content.body

/-- The name under which the body sees the selected element, besides `_`. -/
def binding (template : Template engine) : Option String :=
  (Selection.parse template.content.argument).binding

def events (template : Template engine) : List Event :=
  .start template.name :: (template.content.events ++ [.close])

def handler (template : Template engine) : Handler :=
  .deferred template.body.events template.binding

def bindings (template : Template engine) (name : String) : List (String × Value) :=
  let value := (Event.start name).selected
  ("_", value) :: template.binding.toList.map fun binding => (binding, value)

/-- What comes after a body that stands for the element of a name. -/
def done (template : Template engine) (scope : Scope) (name : String) : Queued :=
  .callback (.bodyDone (scope.install (template.bindings name)).1 true)

def selectors (templates : List (Template engine)) : List String :=
  templates.map selector

/-- The template for a name: the last one that selects it. -/
def find? (templates : List (Template engine)) (name : String) : Option (Template engine) :=
  templates.reverse.find? fun template => template.selector = name

/-- Rewrites a forest from the inside out. -/
def replace (templates : List (Template engine)) : Forest → List Event
  | .nil => []
  | .text content rest => .text content :: replace templates rest
  | .attr name value rest => .attr name value :: replace templates rest
  | .element name children rest =>
    let inside := replace templates children
    (match find? templates name with
      | some template => (engine.fill template.body (some inside)).1
      | none => .start name :: (inside ++ [.close])) ++ replace templates rest

theorem selectors_unreserved (templates : List (Template engine)) :
    ∀ selector ∈ selectors templates, selector ∉ reservedSelectors := by
  intro selector hmem
  obtain ⟨template, -, rfl⟩ := List.mem_map.1 hmem
  exact template.unreserved

theorem find?_eq_none (templates : List (Template engine)) {name : String}
    (h : find? templates name = none) : name ∉ selectors templates := by
  intro hmem
  obtain ⟨template, htemplate, rfl⟩ := List.mem_map.1 hmem
  have hnone := List.find?_eq_none.1 h template (List.mem_reverse.2 htemplate)
  simp at hnone

theorem mem_of_find?_eq_some {templates : List (Template engine)} {name : String}
    {template : Template engine} (h : find? templates name = some template) :
    template ∈ templates :=
  List.mem_reverse.1 (List.mem_of_find?_eq_some h)

theorem selector_of_find?_eq_some {templates : List (Template engine)} {name : String}
    {template : Template engine} (h : find? templates name = some template) :
    template.selector = name := by
  have hselector := List.find?_some h
  simpa using hselector

theorem find?_reserved (templates : List (Template engine)) {name : String}
    (h : name ∈ reservedSelectors) : find? templates name = none := by
  cases hfind : find? templates name with
  | none => rfl
  | some template =>
    rw [← selector_of_find?_eq_some hfind] at h
    exact absurd h template.unreserved

theorem find?_cons (template : Template engine) (templates : List (Template engine))
    (name : String) : find? (template :: templates) name =
      (find? templates name).or (if template.selector = name then some template else none) := by
  by_cases hname : template.selector = name <;> simp [find?, hname]

end Template

/-! ## What is registered -/

def Levels.registerAll {engine : Engine} (levels : Levels) (templates : List (Template engine)) :
    Levels :=
  templates.foldl (fun levels template => levels.register template.selector template.handler)
    levels

theorem Levels.registerAll_around {engine : Engine} (levels : Levels)
    (templates : List (Template engine)) :
    (levels.registerAll templates).around = levels.around := by
  induction templates generalizing levels with
  | nil => rfl
  | cons template templates ih => exact ih (levels.register template.selector template.handler)

theorem Levels.get?_registerAll {engine : Engine} (levels : Levels)
    (templates : List (Template engine)) (name : String) :
    (levels.registerAll templates).current.handlers.get? name =
      ((Template.find? templates name).map Template.handler).or
        (levels.current.handlers.get? name) := by
  induction templates generalizing levels with
  | nil => rfl
  | cons template templates ih =>
    have hrest := ih (levels.register template.selector template.handler)
    have hput : (levels.register template.selector template.handler).current.handlers.get? name =
        if template.selector = name then some template.handler
        else levels.current.handlers.get? name :=
      Table.get?_put levels.current.handlers template.selector name template.handler
    rw [hput] at hrest
    rw [Template.find?_cons]
    refine hrest.trans ?_
    by_cases hname : template.selector = name <;>
      cases Template.find? templates name <;> simp [hname]

theorem Levels.lookup_registerAll {engine : Engine} (templates : List (Template engine))
    (keys : List String) : (Levels.root.registerAll templates).lookup keys =
      keys.findSome? fun key => (Template.find? templates key).map Template.handler := by
  have haround : (Levels.root.registerAll templates).around = [] :=
    Levels.registerAll_around _ _
  unfold Levels.lookup Levels.toList
  rw [haround]
  congr 1
  funext key
  have hkey := Levels.get?_registerAll Levels.root templates key
  have hroot : Levels.root.current.handlers.get? key = none := rfl
  rw [hroot, Option.or_none] at hkey
  simp [hkey]

/-- Nobody waits, and the templates are what selects elements. -/
structure State.Stocked {engine : Engine} (s : State) (templates : List (Template engine)) :
    Prop extends s.Calm (Template.selectors templates) where
  lookup_start : ∀ name, s.levels.lookup [name, "*"] =
    (Template.find? templates name).map Template.handler

theorem State.Stocked.congr {engine : Engine} {templates : List (Template engine)} {s t : State}
    (h : s.Stocked templates) (hcaptures : t.captures = s.captures)
    (hlookup : ∀ keys, t.levels.lookup keys = s.levels.lookup keys) : t.Stocked templates where
  captures := hcaptures.trans h.captures
  lookup keys hkeys := (hlookup keys).trans (h.lookup keys hkeys)
  lookup_start name := (hlookup _).trans (h.lookup_start name)

namespace Engine

variable {engine : Engine} {templates : List (Template engine)} {template : Template engine}
  {s : State}

theorem feeds_template (template : Template engine) (hcaptures : s.captures = []) :
    engine.Feeds template.events s
      { s with levels := s.levels.register template.selector template.handler } :=
  feeds_defer hcaptures template.defers template.selects

theorem feeds_templates (templates : List (Template engine)) (hcaptures : s.captures = []) :
    engine.Feeds (templates.flatMap Template.events) s
      { s with levels := s.levels.registerAll templates } := by
  induction templates generalizing s with
  | nil => exact .nil engine s
  | cons template templates ih =>
    have hrest := ih
      (s := { s with levels := s.levels.register template.selector template.handler }) hcaptures
    exact (feeds_template template hcaptures).append hrest

/-! ## Selected elements -/

theorem runs_fire {name : String} (hs : s.Stocked templates)
    (htag : engine.options.classify name = .element)
    (hfind : Template.find? templates name = some template) (queue : Queue) (log : List LogEntry) :
    engine.Runs 1 { s with queue := .event (.start name) :: queue, log } { s with
      scope := (s.scope.install (template.bindings name)).2
      levels := s.levels.push name
      markers := .opened queue.length :: s.markers
      queue := template.body.events.map .event ++ template.done s.scope name :: queue
      log } := by
  have hlookup : (s.levels.push name).lookup [name, "*"] = some template.handler := by
    rw [Levels.lookup_push, hs.lookup_start, hfind]
    rfl
  have hdeliver : engine.deliver (.start name) { s with queue, log } =
      engine.route (.start name) { s with queue, log } := deliver_of_nil hs.captures
  refine Runs.single rfl (hdeliver.trans ((route_element htag).trans ?_))
  unfold State.forward
  rw [hlookup]
  rfl

theorem absorbs_fire_whole {name : String} (hs : s.Stocked templates)
    (htag : engine.options.classify name = .element)
    (hfind : Template.find? templates name = some template)
    (hwhole : engine.Whole (Template.selectors templates) template.body) :
    engine.Absorbs [.event (.start name)] s
      ({ s with
        levels := s.levels.push name
        output := s.output ++ template.body.events }.discardBody) := by
  intro queue log
  let scope := (s.scope.install (template.bindings name)).2
  let begun : State := { s with
    scope
    levels := s.levels.push name
    markers := .opened queue.length :: s.markers }
  have hfire := runs_fire hs htag hfind queue log
  have hcalm : begun.Calm (Template.selectors templates) :=
    (hs.toCalm.push name).congr rfl rfl
  obtain ⟨n, log1, hbody⟩ := (hwhole.feeds begun hcalm).absorbs
    (template.done s.scope name :: queue) log
  have hdone : engine.step (template.done s.scope name)
      { begun with queue, output := s.output ++ template.body.events, log := log1 } =
      (.ok (), { { s with
        levels := s.levels.push name
        output := s.output ++ template.body.events }.discardBody with queue, log := log1 }) := by
    have hscope : scope.release (s.scope.install (template.bindings name)).1 = s.scope :=
      s.scope.release_install (template.bindings name)
    rw [Template.done, step, Callback.run_bodyDone_dropped rfl, State.release, hscope]
    rfl
  exact ⟨1 + (n + 1), log1, hfire.trans (hbody.trans (Runs.single rfl hdone))⟩

/-- What is open and suspended between the start and the close of a selected element whose body has
a hole. -/
def suspended (s : State) (name : String) (template : Template engine)
    (cut : engine.Split (Template.selectors templates) template.body) : State :=
  { s with
    scope := (s.scope.install (template.bindings name)).2
    levels := (s.levels.pushAll (name :: cut.wrappers)).setOnEnd
      (.resume (cut.after.map .event ++ [template.done s.scope name]))
    markers := .claimed :: s.markers
    output := s.output ++ cut.before }

/-- A body with a hole is shown up to the hole, and what is left of it waits for the next close. -/
theorem absorbs_fire_split {name : String} (hs : s.Stocked templates)
    (htag : engine.options.classify name = .element)
    (hfind : Template.find? templates name = some template)
    (cut : engine.Split (Template.selectors templates) template.body) :
    engine.Absorbs [.event (.start name)] s (suspended s name template cut) := by
  intro queue log
  let scope := (s.scope.install (template.bindings name)).2
  let begun : State := { s with
    scope
    levels := s.levels.push name
    markers := .opened queue.length :: s.markers }
  let waiting : Queue := cut.after.map .event ++ [template.done s.scope name]
  have hfire := runs_fire hs htag hfind queue log
  have hcalm : begun.Calm (Template.selectors templates) :=
    (hs.toCalm.push name).congr rfl rfl
  have hbefore := cut.feeds_before begun hcalm
  have hhole := feeds_hole engine (s := { begun with
    levels := begun.levels.pushAll cut.wrappers
    output := s.output ++ cut.before }) cut.inside hs.captures cut.hole_through
  -- When the hole closes, `waiting` is all that stands in front of the length that was recorded.
  have hqueue : template.body.events.map Queued.event ++ template.done s.scope name :: queue =
      (cut.before ++ .start cut.hole :: cut.inside.events).map .event ++
        .event .close :: (waiting ++ queue) := by
    simp [cut.events_eq, waiting]
  obtain ⟨n, log1, hbody⟩ := (hbefore.append hhole).absorbs
    (.event .close :: (waiting ++ queue)) log
  have hclose := step_hole_close engine { begun with
    levels := begun.levels.pushAll cut.wrappers
    output := s.output ++ cut.before
    queue := waiting ++ queue
    log := log1 } cut.hole
  rw [State.letThrough_opened rfl rfl] at hclose
  rw [hqueue] at hfire
  exact ⟨1 + (n + 1), log1, hfire.trans (hbody.trans (Runs.single rfl hclose))⟩

/-- The close of a selected element resumes its body after the hole. -/
theorem absorbs_close_split (name : String) (output : List Event) (hs : s.Stocked templates)
    (cut : engine.Split (Template.selectors templates) template.body) :
    engine.Absorbs [.event .close] { suspended s name template cut with output }
      { s with output := output ++ cut.shown } := by
  -- The close of the element closes the innermost wrapper.  What is left of the body closes the
  -- other wrappers and the element, which are as many as the wrappers.
  obtain ⟨tags, tag, htags, hpushed⟩ := s.levels.exists_pushAll_eq_push name cut.wrappers
  let resumed : State := { s with
    scope := (s.scope.install (template.bindings name)).2
    markers := .claimed :: s.markers
    output }
  have hafter := cut.feeds_after resumed tags s.markers (hs.toCalm.congr rfl rfl) rfl htags
  have hdone : engine.Absorbs [template.done s.scope name]
      { resumed with output := output ++ cut.shown } { s with output := output ++ cut.shown } := by
    have hscope : resumed.scope.release (s.scope.install (template.bindings name)).1 = s.scope :=
      s.scope.release_install (template.bindings name)
    have hreleased := absorbs_bodyDone engine (s := { resumed with output := output ++ cut.shown })
      (s.scope.install (template.bindings name)).1 true rfl
    rwa [hscope] at hreleased
  have hpop : { suspended s name template cut with output }.levels.pop? = some (⟨some tag, {},
      some (.resume (cut.after.map .event ++ [template.done s.scope name]))⟩,
      s.levels.pushAll tags) := by
    simp only [suspended, hpushed]
    rfl
  exact absorbs_close_resume hs.captures hpop rfl (hafter.absorbs.append hdone)

theorem feeds_selected {name : String} {children : Forest} {inside : List Event}
    (hs : s.Stocked templates) (htag : engine.options.classify name = .element)
    (hfind : Template.find? templates name = some template)
    (hbody : engine.Fillable (Template.selectors templates) template.body)
    (hchildren : ∀ s : State, s.Stocked templates →
      engine.Feeds children.events s { s with output := s.output ++ inside }) :
    engine.Feeds (.start name :: (children.events ++ [.close])) s
      { s with output := s.output ++ (engine.fill template.body (some inside)).1 } := by
  rcases whole_or_split template.body hbody (Template.selectors_unreserved templates) with
    hwhole | ⟨⟨cut⟩⟩
  · rw [hwhole.fill_eq]
    exact .cons (absorbs_fire_whole hs htag hfind hwhole) (feeds_discardBody engine children
      { s with output := s.output ++ template.body.events } name)
  · rw [cut.fill_eq]
    have hfire := absorbs_fire_split hs htag hfind cut
    have hinner := hchildren (suspended s name template cut)
      (hs.congr rfl (s.levels.lookup_pushAll _))
    have hclose := absorbs_close_split name (s.output ++ cut.before ++ inside) hs cut
    have hall := Feeds.cons hfire (hinner.append (.cons hclose (.nil engine _)))
    simpa using hall

theorem feeds_unselected {name : String} {children : Forest} {inside : List Event}
    (hs : s.Stocked templates) (htag : engine.options.classify name = .element)
    (hfind : Template.find? templates name = none)
    (hchildren : ∀ s : State, s.Stocked templates →
      engine.Feeds children.events s { s with output := s.output ++ inside }) :
    engine.Feeds (.start name :: (children.events ++ [.close])) s
      { s with output := s.output ++ .start name :: (inside ++ [.close]) } := by
  have hreserved := Template.selectors_unreserved templates
  have hinner := hchildren
    { s with levels := s.levels.push name, output := s.output ++ [.start name] }
    (hs.congr rfl (s.levels.lookup_push name))
  have hclose := absorbs_plain_close engine name
    (s := { s with output := s.output ++ [.start name] ++ inside })
    (hs.toCalm.congr rfl rfl) hreserved
  have hall := feeds_plain hs.toCalm hreserved htag (Template.find?_eq_none templates hfind)
    (hinner.append (.cons hclose (.nil engine _)))
  simpa using hall

/-! ## Whole documents -/

theorem feeds_replace (document : Forest) (hs : s.Stocked templates)
    (hbodies : ∀ template ∈ templates,
      engine.Fillable (Template.selectors templates) template.body)
    (hplain : ∀ name ∈ document.names, engine.options.classify name = .element) :
    engine.Feeds document.events s
      { s with output := s.output ++ Template.replace templates document } := by
  induction document generalizing s with
  | nil =>
    have hsame : s.output ++ Template.replace templates .nil = s.output := List.append_nil _
    rw [hsame]
    exact .nil engine s
  | text content rest ih =>
    have hrest := ih (s := { s with output := s.output ++ [.text content] })
      (hs.congr rfl fun _ => rfl) hplain
    refine feeds_text hs.toCalm (Template.selectors_unreserved templates) ?_
    simpa [Template.replace] using hrest
  | attr name value rest ih =>
    have hrest := ih (s := { s with output := s.output ++ [.attr name value] })
      (hs.congr rfl fun _ => rfl) hplain
    refine feeds_attr hs.toCalm (Template.selectors_unreserved templates) ?_
    simpa [Template.replace] using hrest
  | element name children rest ihchildren ihrest =>
    have htag := hplain name (by simp [Forest.names])
    have hinside : ∀ name ∈ children.names, engine.options.classify name = .element :=
      fun name hmem => hplain name (by simp [Forest.names, hmem])
    have hothers : ∀ name ∈ rest.names, engine.options.classify name = .element :=
      fun name hmem => hplain name (by simp [Forest.names, hmem])
    have hchildren := fun (s : State) (hs : s.Stocked templates) => ihchildren hs hinside
    cases hfind : Template.find? templates name with
    | none =>
      have helement := feeds_unselected hs htag hfind hchildren
      have hall := helement.append (ihrest (hs.congr rfl fun _ => rfl) hothers)
      simpa [Forest.events, Template.replace, hfind] using hall
    | some template =>
      have hbody := hbodies template (Template.mem_of_find?_eq_some hfind)
      have helement := feeds_selected hs htag hfind hbody hchildren
      have hall := helement.append (ihrest (hs.congr rfl fun _ => rfl) hothers)
      simpa [Forest.events, Template.replace, hfind] using hall

theorem stocked_registerAll (templates : List (Template engine)) (scope : Scope) :
    ({ scope, levels := Levels.root.registerAll templates } : State).Stocked templates where
  captures := rfl
  lookup keys hkeys := by
    refine (Levels.lookup_registerAll templates keys).trans ?_
    refine List.findSome?_eq_none_iff.2 ?_
    intro key hkey
    cases hfind : Template.find? templates key with
    | none => rfl
    | some template =>
      have hselector : template.selector = key := Template.selector_of_find?_eq_some hfind
      have hmem := List.mem_map_of_mem (f := Template.selector)
        (Template.mem_of_find?_eq_some hfind)
      rw [hselector] at hmem
      exact absurd hmem (hkeys key hkey)
  lookup_start name := by
    have hstar : Template.find? templates "*" = none :=
      Template.find?_reserved templates (by simp [reservedSelectors])
    refine (Levels.lookup_registerAll templates _).trans ?_
    cases hfind : Template.find? templates name <;> simp [hstar, hfind]

/-- A stream of templates and a forest of plain elements is processed without a fault and shows the
rewritten forest.  Nothing else is left but the templates and the log: no capture and no marker is
pending, no level is open, and the scope is what it was. -/
theorem run_eq_replace (templates : List (Template engine)) (document : Forest) (scope : Scope)
    (hbodies : ∀ template ∈ templates,
      engine.Fillable (Template.selectors templates) template.body)
    (hplain : ∀ name ∈ document.names, engine.options.classify name = .element) :
    ∃ enough log, ∀ steps, enough ≤ steps →
      engine.run steps (templates.flatMap Template.events ++ document.events) { scope } =
        some (.ok (Template.replace templates document),
          { scope, levels := Levels.root.registerAll templates, log }) := by
  have hregister := feeds_templates (s := { scope }) templates rfl
  have hreplace := feeds_replace document (stocked_registerAll templates scope) hbodies hplain
  obtain ⟨enough, log, hall⟩ := (hregister.append hreplace).submitAll rfl []
  refine ⟨enough, log, ?_⟩
  intro steps hsteps
  have hsubmit : engine.submitAll steps (templates.flatMap Template.events ++ document.events)
      { scope } = some (.ok (), {
        scope
        levels := Levels.root.registerAll templates
        output := Template.replace templates document
        log }) := hall steps hsteps
  have hdepth : (Levels.root.registerAll templates).depth - 1 = 0 := by
    rw [Levels.depth, Levels.registerAll_around]
    rfl
  rw [run, hsubmit]
  simp [State.finish, State.takeOutput, hdepth]

/-- A template with a wrapper around its hole, for elements that stand in each other. -/
theorem run_eq_replace_nested :
    let template : Template {} := {
      name := "::"
      content := .text "b" (.element "i" (.element ":through" .nil .nil) .nil)
      selector := "b"
      defers := by decide +kernel
      selects := by decide +kernel
      unreserved := by decide }
    let document : Forest := .element "b" (.text "x" (.element "b" .nil .nil)) .nil
    (∀ t ∈ [template], ({} : Engine).Fillable (Template.selectors [template]) t.body) ∧
      (∀ name ∈ document.names, ({} : Engine).options.classify name = .element) ∧
      ∃ enough log, ∀ steps, enough ≤ steps → ({} : Engine).run steps
          ([template].flatMap Template.events ++ document.events) {} =
        some (.ok [.start "i", .text "x", .start "i", .close, .close],
          { levels := Levels.root.registerAll [template], log }) := by
  intro template document
  have hbodies : ∀ t ∈ [template],
      ({} : Engine).Fillable (Template.selectors [template]) t.body := by
    intro t ht
    rw [List.mem_singleton.1 ht]
    have hhole : ({} : Engine).options.classify ":through" = .directive .through := by
      decide +kernel
    have hwrapper : ({} : Engine).options.classify "i" = .element := by decide +kernel
    exact ⟨.inr ⟨hwrapper, by decide, .inl hhole, trivial⟩, trivial⟩
  have hplain : ∀ name ∈ document.names, ({} : Engine).options.classify name = .element := by
    decide +kernel
  have hshown : Template.replace [template] document =
      [.start "i", .text "x", .start "i", .close, .close] := by decide +kernel
  obtain ⟨enough, log, hrun⟩ := run_eq_replace [template] document Scope.empty hbodies hplain
  rw [hshown] at hrun
  exact ⟨hbodies, hplain, enough, log, hrun⟩

end Engine
end TreeStream
