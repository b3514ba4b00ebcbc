import TreeStream.Proofs.Elements

/-!
# Bodies with holes

A deferred body lets the element that it stands for through at a hole.  The first hole in document
order is filled; all others stay empty.

* `Engine.fill`: what a body shows when its first hole is filled with something.
* `State.Calm`: nobody waits, and only certain names are selected.
* `Engine.Whole`, `Engine.Split`: a body without a hole, and a body that is cut at its first hole.
* `Engine.whole_or_split`: every body of plain elements and holes is one or the other.
* `Engine.feeds_filled`: what a body does after its first hole has been passed.
-/

namespace TreeStream
set_option autoImplicit false

/-- Nobody waits, and what selects an event selects it by one of these names. -/
structure State.Calm (s : State) (selectors : List String) : Prop where
  captures : s.captures = []
  lookup : ∀ keys : List String, (∀ key ∈ keys, key ∉ selectors) → s.levels.lookup keys = none

/-- The names that select events of a kind, and not elements of that name. -/
def reservedSelectors : List String :=
  ["*", "TEXT", "ATTR", "END"]

theorem State.Calm.congr {s t : State} {selectors : List String} (h : s.Calm selectors)
    (hcaptures : t.captures = s.captures) (hlevels : t.levels = s.levels) : t.Calm selectors :=
  ⟨hcaptures.trans h.captures, fun keys hkeys => hlevels ▸ h.lookup keys hkeys⟩

theorem State.Calm.push {s : State} {selectors : List String} (h : s.Calm selectors)
    (tag : String) : ({ s with levels := s.levels.push tag } : State).Calm selectors :=
  ⟨h.captures, fun keys hkeys => (s.levels.lookup_push tag keys).trans (h.lookup keys hkeys)⟩

theorem State.Calm.lookup_reserved {s : State} {selectors : List String} (h : s.Calm selectors)
    (hreserved : ∀ selector ∈ selectors, selector ∉ reservedSelectors) {key : String}
    (hkey : key ∈ reservedSelectors) : s.levels.lookup [key] = none := by
  refine h.lookup [key] ?_
  intro other hother hmem
  rw [List.mem_singleton.1 hother] at hmem
  exact hreserved key hmem hkey

theorem State.Calm.lookup_start {s : State} {selectors : List String} (h : s.Calm selectors)
    (hreserved : ∀ selector ∈ selectors, selector ∉ reservedSelectors) {name : String}
    (hname : name ∉ selectors) : s.levels.lookup [name, "*"] = none := by
  refine h.lookup [name, "*"] ?_
  intro other hother hmem
  rcases List.mem_cons.1 hother with rfl | hstar
  · exact hname hmem
  · rw [List.mem_singleton.1 hstar] at hmem
    exact hreserved "*" hmem (by simp [reservedSelectors])

def Levels.pushAll (levels : Levels) (tags : List String) : Levels :=
  tags.foldl Levels.push levels

theorem Levels.lookup_pushAll (levels : Levels) (tags keys : List String) :
    (levels.pushAll tags).lookup keys = levels.lookup keys := by
  induction tags generalizing levels with
  | nil => rfl
  | cons tag tags ih => exact (ih (levels.push tag)).trans (levels.lookup_push tag keys)

theorem Levels.exists_pushAll_eq_push (levels : Levels) (tag : String) (tags : List String) :
    ∃ others last, others.length = tags.length ∧
      levels.pushAll (tag :: tags) = (levels.pushAll others).push last := by
  induction tags generalizing levels tag with
  | nil => exact ⟨[], tag, rfl, rfl⟩
  | cons next tags ih =>
    obtain ⟨others, last, hlength, hpushed⟩ := ih (levels.push tag) next
    exact ⟨tag :: others, last, by simp [hlength], hpushed⟩

namespace Engine

/-! ## Bodies -/

/-- What a body shows when its first hole is filled, and what is then left to fill in.  Holes that
come when nothing is left stay empty. -/
def fill (engine : Engine) : Forest → Option (List Event) → List Event × Option (List Event)
  | .nil, filling => ([], filling)
  | .text content rest, filling =>
    let (others, filling) := fill engine rest filling
    (.text content :: others, filling)
  | .attr name value rest, filling =>
    let (others, filling) := fill engine rest filling
    (.attr name value :: others, filling)
  | .element name children rest, filling =>
    if engine.options.classify name = .directive .through then
      let (others, left) := fill engine rest none
      (filling.getD [] ++ others, left)
    else
      let (inside, filling) := fill engine children filling
      let (others, filling) := fill engine rest filling
      (.start name :: (inside ++ .close :: others), filling)

/-- A body consists of holes and of elements that are not selected.  What stands inside a hole does
not matter. -/
def Fillable (engine : Engine) (selectors : List String) : Forest → Prop
  | .nil => True
  | .text _ rest => Fillable engine selectors rest
  | .attr _ _ rest => Fillable engine selectors rest
  | .element name children rest =>
    (engine.options.classify name = .directive .through ∨
      engine.options.classify name = .element ∧ name ∉ selectors ∧
        Fillable engine selectors children) ∧ Fillable engine selectors rest

/-- A body without a hole shows itself. -/
structure Whole (engine : Engine) (selectors : List String) (body : Forest) : Prop where
  fill_eq : ∀ filling, engine.fill body filling = (body.events, filling)
  feeds : ∀ s : State, s.Calm selectors →
    engine.Feeds body.events s { s with output := s.output ++ body.events }

/-- A body that is cut at its first hole: the events before it, which leave the wrappers open, and
those after it, which show something and close as many levels. -/
structure Split (engine : Engine) (selectors : List String) (body : Forest) where
  before : List Event
  wrappers : List String
  hole : String
  inside : Forest
  after : List Event
  shown : List Event
  events_eq : body.events = before ++ .start hole :: (inside.events ++ .close :: after)
  hole_through : engine.options.classify hole = .directive .through
  fill_eq : ∀ filling, engine.fill body (some filling) = (before ++ (filling ++ shown), none)
  feeds_before : ∀ s : State, s.Calm selectors → engine.Feeds before s
    { s with levels := s.levels.pushAll wrappers, output := s.output ++ before }
  feeds_after : ∀ (s : State) (tags : List String) (markers : Markers), s.Calm selectors →
    s.markers = .claimed :: markers → tags.length = wrappers.length →
    engine.Feeds after { s with levels := s.levels.pushAll tags }
      { s with output := s.output ++ shown }

variable {engine : Engine} {selectors : List String} {s : State}

/-! ## One node -/

theorem feeds_plain {name : String} {inside : List Event} {t : State} (hs : s.Calm selectors)
    (hreserved : ∀ selector ∈ selectors, selector ∉ reservedSelectors)
    (htag : engine.options.classify name = .element) (hname : name ∉ selectors)
    (h : engine.Feeds inside
      { s with levels := s.levels.push name, output := s.output ++ [.start name] } t) :
    engine.Feeds (.start name :: inside) s t :=
  .cons (absorbs_start hs.captures (.inl htag) (hs.lookup_start hreserved hname)) h

theorem absorbs_plain_close (engine : Engine) (tag : String) (hs : s.Calm selectors)
    (hreserved : ∀ selector ∈ selectors, selector ∉ reservedSelectors) :
    engine.Absorbs [.event .close] { s with levels := s.levels.push tag }
      { s with output := s.output ++ [.close] } :=
  absorbs_close engine hs.captures (s.levels.pop?_push tag) rfl
    (hs.lookup_reserved hreserved (by simp [reservedSelectors]))

theorem feeds_text {content : String} {events : List Event} {t : State} (hs : s.Calm selectors)
    (hreserved : ∀ selector ∈ selectors, selector ∉ reservedSelectors)
    (h : engine.Feeds events { s with output := s.output ++ [.text content] } t) :
    engine.Feeds (.text content :: events) s t :=
  .cons (absorbs_text hs.captures (hs.lookup_reserved hreserved (by simp [reservedSelectors]))) h

theorem feeds_attr {name value : String} {events : List Event} {t : State}
    (hs : s.Calm selectors)
    (hreserved : ∀ selector ∈ selectors, selector ∉ reservedSelectors)
    (h : engine.Feeds events { s with output := s.output ++ [.attr name value] } t) :
    engine.Feeds (.attr name value :: events) s t :=
  .cons (absorbs_attr hs.captures (hs.lookup_reserved hreserved (by simp [reservedSelectors]))) h

theorem feeds_hole (engine : Engine) {name : String} (inside : Forest)
    (hcaptures : s.captures = [])
    (htag : engine.options.classify name = .directive .through) :
    engine.Feeds (.start name :: inside.events) s
      ({ s with levels := s.levels.push name }.captureBody true .through) := by
  have hstart : engine.Absorbs [.event (.start name)] s
      ({ s with levels := s.levels.push name }.captureBody true .through) :=
    absorbs_of_route hcaptures fun queue log => ⟨log, route_directive htag⟩
  exact .cons hstart (feeds_subLevel engine inside { s with levels := s.levels.push name } 0 true []
    .through s.captures)

theorem step_hole_close (engine : Engine) (s : State) (name : String) :
    engine.step (.event .close)
      ({ s with levels := s.levels.push name }.captureBody true .through) =
      (.ok (), s.letThrough) := by
  have hdone : engine.deliver .close
      ({ s with levels := s.levels.push name }.captureBody true .through) =
      engine.complete (.subLevel (-1) true [] .through) .close
        { s with levels := s.levels.push name } := deliver_done rfl rfl
  have hshift : ({ s with levels := s.levels.push name } : State).shiftLevel =
      .ok (.forward, s) := by
    simp [State.shiftLevel, s.levels.pop?_push name]
  exact hdone.trans (complete_subLevel hshift)

/-- A hole that comes when the element has been let through stays empty. -/
theorem feeds_spare_hole {name : String} (inside : Forest) {markers : Markers}
    (hcaptures : s.captures = [])
    (htag : engine.options.classify name = .directive .through)
    (hmarkers : s.markers = .claimed :: markers) :
    engine.Feeds (.start name :: (inside.events ++ [.close])) s s := by
  have hclose : engine.Absorbs [.event .close]
      ({ s with levels := s.levels.push name }.captureBody true .through) s := by
    refine Absorbs.single ?_
    intro queue log
    have hclaim : ({ s with queue, log } : State).letThrough =
        { s with queue, log := log ++ [.misuse .throughTwice] } := by
      simp [State.letThrough, hmarkers, Markers.claim, State.tell]
    exact ⟨_, (step_hole_close engine { s with queue, log } name).trans (congrArg _ hclaim)⟩
  exact (feeds_hole engine inside hcaptures htag).append (.cons hclose (.nil engine s))

/-! ## After the first hole -/

theorem fill_none_snd (engine : Engine) (body : Forest) : (engine.fill body none).2 = none := by
  induction body with
  | nil => rfl
  | text content rest ih => exact ih
  | attr name value rest ih => exact ih
  | element name children rest ihchildren ihrest =>
    by_cases hthrough : engine.options.classify name = .directive .through
    · simpa [fill, hthrough] using ihrest
    · simpa [fill, hthrough, ihchildren] using ihrest

theorem feeds_filled (body : Forest) {markers : Markers} (hbody : engine.Fillable selectors body)
    (hreserved : ∀ selector ∈ selectors, selector ∉ reservedSelectors) (hs : s.Calm selectors)
    (hmarkers : s.markers = .claimed :: markers) : engine.Feeds body.events s
      { s with output := s.output ++ (engine.fill body none).1 } := by
  induction body generalizing s with
  | nil =>
    have hsame : s.output ++ (engine.fill .nil none).1 = s.output := List.append_nil _
    rw [hsame]
    exact .nil engine s
  | text content rest ih =>
    have hrest := ih (s := { s with output := s.output ++ [.text content] }) hbody
      (hs.congr rfl rfl) hmarkers
    refine feeds_text hs hreserved ?_
    simpa [fill] using hrest
  | attr name value rest ih =>
    have hrest := ih (s := { s with output := s.output ++ [.attr name value] }) hbody
      (hs.congr rfl rfl) hmarkers
    refine feeds_attr hs hreserved ?_
    simpa [fill] using hrest
  | element name children rest ihchildren ihrest =>
    obtain ⟨hname, hrest⟩ := hbody
    by_cases hthrough : engine.options.classify name = .directive .through
    · have hhole := feeds_spare_hole children hs.captures hthrough hmarkers
      have hall := hhole.append (ihrest hrest hs hmarkers)
      simpa [Forest.events, fill, hthrough] using hall
    · obtain ⟨htag, hunselected, hchildren⟩ := hname.resolve_left hthrough
      have hinner := ihchildren
        (s := { s with levels := s.levels.push name, output := s.output ++ [.start name] })
        hchildren ((hs.push name).congr rfl rfl) hmarkers
      have hclose := absorbs_plain_close engine name
        (s := { s with output := s.output ++ [.start name] ++ (engine.fill children none).1 })
        (hs.congr rfl rfl) hreserved
      have hothers := ihrest (s := { s with
        output := s.output ++ [.start name] ++ (engine.fill children none).1 ++ [.close] })
        hrest (hs.congr rfl rfl) hmarkers
      have hall := feeds_plain hs hreserved htag hunselected
        (hinner.append (.cons hclose hothers))
      simpa [Forest.events, fill, hthrough, fill_none_snd] using hall

/-! ## Bodies without a hole -/

theorem Whole.nil (engine : Engine) (selectors : List String) : engine.Whole selectors .nil where
  fill_eq _ := rfl
  feeds s _ := by
    have hsame : s.output ++ Forest.nil.events = s.output := List.append_nil _
    rw [hsame]
    exact .nil engine s

theorem Whole.text {rest : Forest} (h : engine.Whole selectors rest)
    (hreserved : ∀ selector ∈ selectors, selector ∉ reservedSelectors) (content : String) :
    engine.Whole selectors (.text content rest) where
  fill_eq filling := by simp [fill, h.fill_eq, Forest.events]
  feeds s hs := by
    have hrest := h.feeds { s with output := s.output ++ [.text content] } (hs.congr rfl rfl)
    refine feeds_text hs hreserved ?_
    simpa [Forest.events] using hrest

theorem Whole.attr {rest : Forest} (h : engine.Whole selectors rest)
    (hreserved : ∀ selector ∈ selectors, selector ∉ reservedSelectors) (name value : String) :
    engine.Whole selectors (.attr name value rest) where
  fill_eq filling := by simp [fill, h.fill_eq, Forest.events]
  feeds s hs := by
    have hrest := h.feeds { s with output := s.output ++ [.attr name value] } (hs.congr rfl rfl)
    refine feeds_attr hs hreserved ?_
    simpa [Forest.events] using hrest

theorem Whole.feeds_element {name : String} {children : Forest}
    (h : engine.Whole selectors children)
    (hreserved : ∀ selector ∈ selectors, selector ∉ reservedSelectors)
    (htag : engine.options.classify name = .element) (hname : name ∉ selectors)
    (hs : s.Calm selectors) : engine.Feeds (.start name :: (children.events ++ [.close])) s
      { s with output := s.output ++ .start name :: (children.events ++ [.close]) } := by
  have hinner := h.feeds
    { s with levels := s.levels.push name, output := s.output ++ [.start name] }
    ((hs.push name).congr rfl rfl)
  have hclose := absorbs_plain_close engine name
    (s := { s with output := s.output ++ [.start name] ++ children.events })
    (hs.congr rfl rfl) hreserved
  have hall := feeds_plain hs hreserved htag hname (hinner.append (.cons hclose (.nil engine _)))
  simpa using hall

theorem Whole.element {name : String} {children rest : Forest}
    (hchildren : engine.Whole selectors children) (hrest : engine.Whole selectors rest)
    (hreserved : ∀ selector ∈ selectors, selector ∉ reservedSelectors)
    (htag : engine.options.classify name = .element) (hname : name ∉ selectors) :
    engine.Whole selectors (.element name children rest) where
  fill_eq filling := by
    simp [fill, htag, hchildren.fill_eq, hrest.fill_eq, Forest.events]
  feeds s hs := by
    have helement := hchildren.feeds_element hreserved htag hname hs
    have hothers := hrest.feeds
      { s with output := s.output ++ .start name :: (children.events ++ [.close]) }
      (hs.congr rfl rfl)
    have hall := helement.append hothers
    simpa [Forest.events] using hall

/-! ## Bodies that are cut at a hole -/

def Split.here {name : String} {children rest : Forest}
    (hreserved : ∀ selector ∈ selectors, selector ∉ reservedSelectors)
    (hthrough : engine.options.classify name = .directive .through)
    (hrest : engine.Fillable selectors rest) :
    engine.Split selectors (.element name children rest) where
  before := []
  wrappers := []
  hole := name
  inside := children
  after := rest.events
  shown := (engine.fill rest none).1
  events_eq := rfl
  hole_through := hthrough
  fill_eq filling := by simp [fill, hthrough, fill_none_snd]
  feeds_before s _ := by
    rw [List.append_nil]
    exact .nil engine s
  feeds_after s tags markers hs hmarkers htags := by
    rw [List.length_eq_zero_iff.1 htags]
    exact feeds_filled rest hrest hreserved hs hmarkers

def Split.text {rest : Forest} (cut : engine.Split selectors rest)
    (hreserved : ∀ selector ∈ selectors, selector ∉ reservedSelectors) (content : String) :
    engine.Split selectors (.text content rest) :=
  { cut with
    before := .text content :: cut.before
    events_eq := by simp [Forest.events, cut.events_eq]
    fill_eq := fun filling => by simp [fill, cut.fill_eq]
    feeds_before := fun s hs => by
      have hbefore := cut.feeds_before { s with output := s.output ++ [.text content] }
        (hs.congr rfl rfl)
      refine feeds_text hs hreserved ?_
      simpa using hbefore }

def Split.attr {rest : Forest} (cut : engine.Split selectors rest)
    (hreserved : ∀ selector ∈ selectors, selector ∉ reservedSelectors) (name value : String) :
    engine.Split selectors (.attr name value rest) :=
  { cut with
    before := .attr name value :: cut.before
    events_eq := by simp [Forest.events, cut.events_eq]
    fill_eq := fun filling => by simp [fill, cut.fill_eq]
    feeds_before := fun s hs => by
      have hbefore := cut.feeds_before { s with output := s.output ++ [.attr name value] }
        (hs.congr rfl rfl)
      refine feeds_attr hs hreserved ?_
      simpa using hbefore }

def Split.next {name : String} {children rest : Forest} (cut : engine.Split selectors rest)
    (hchildren : engine.Whole selectors children)
    (hreserved : ∀ selector ∈ selectors, selector ∉ reservedSelectors)
    (htag : engine.options.classify name = .element) (hname : name ∉ selectors) :
    engine.Split selectors (.element name children rest) :=
  { cut with
    before := .start name :: (children.events ++ .close :: cut.before)
    events_eq := by simp [Forest.events, cut.events_eq]
    fill_eq := fun filling => by simp [fill, htag, hchildren.fill_eq, cut.fill_eq]
    feeds_before := fun s hs => by
      have helement := hchildren.feeds_element hreserved htag hname hs
      have hbefore := cut.feeds_before
        { s with output := s.output ++ .start name :: (children.events ++ [.close]) }
        (hs.congr rfl rfl)
      have hall := helement.append hbefore
      simpa using hall }

def Split.within {name : String} {children rest : Forest}
    (cut : engine.Split selectors children)
    (hreserved : ∀ selector ∈ selectors, selector ∉ reservedSelectors)
    (htag : engine.options.classify name = .element) (hname : name ∉ selectors)
    (hrest : engine.Fillable selectors rest) :
    engine.Split selectors (.element name children rest) :=
  { cut with
    before := .start name :: cut.before
    wrappers := name :: cut.wrappers
    after := cut.after ++ .close :: rest.events
    shown := cut.shown ++ .close :: (engine.fill rest none).1
    events_eq := by simp [Forest.events, cut.events_eq]
    fill_eq := fun filling => by simp [fill, htag, cut.fill_eq, fill_none_snd]
    feeds_before := fun s hs => by
      have hbefore := cut.feeds_before
        { s with levels := s.levels.push name, output := s.output ++ [.start name] }
        ((hs.push name).congr rfl rfl)
      refine feeds_plain hs hreserved htag hname ?_
      simpa [Levels.pushAll] using hbefore
    feeds_after := fun s tags markers hs hmarkers htags => by
      obtain ⟨tag, tags, rfl⟩ := List.exists_cons_of_length_eq_add_one htags
      have hinner := cut.feeds_after { s with levels := s.levels.push tag } tags markers
        (hs.push tag) hmarkers (by simpa using htags)
      have hclose := absorbs_plain_close engine tag
        (s := { s with output := s.output ++ cut.shown }) (hs.congr rfl rfl) hreserved
      have hothers := feeds_filled rest hrest hreserved
        (s := { s with output := s.output ++ cut.shown ++ [.close] }) (hs.congr rfl rfl) hmarkers
      have hall := hinner.append (.cons hclose hothers)
      simpa [Levels.pushAll] using hall }

theorem whole_or_split (body : Forest) (hbody : engine.Fillable selectors body)
    (hreserved : ∀ selector ∈ selectors, selector ∉ reservedSelectors) :
    engine.Whole selectors body ∨ Nonempty (engine.Split selectors body) := by
  induction body with
  | nil => exact .inl (.nil engine selectors)
  | text content rest ih =>
    rcases ih hbody with hwhole | ⟨⟨cut⟩⟩
    · exact .inl (hwhole.text hreserved content)
    · exact .inr ⟨cut.text hreserved content⟩
  | attr name value rest ih =>
    rcases ih hbody with hwhole | ⟨⟨cut⟩⟩
    · exact .inl (hwhole.attr hreserved name value)
    · exact .inr ⟨cut.attr hreserved name value⟩
  | element name children rest ihchildren ihrest =>
    obtain ⟨hthrough | ⟨htag, hname, hchildren⟩, hrest⟩ := hbody
    · exact .inr ⟨.here hreserved hthrough hrest⟩
    · rcases ihchildren hchildren with hwhole | ⟨⟨cut⟩⟩
      · rcases ihrest hrest with hothers | ⟨⟨cut⟩⟩
        · exact .inl (hwhole.element hothers hreserved htag hname)
        · exact .inr ⟨cut.next hwhole hreserved htag hname⟩
      · exact .inr ⟨cut.within hreserved htag hname hrest⟩

end Engine
end TreeStream
