import TreeStream.Proofs.Provenance
import TreeStream.Proofs.Suspension

/-!
# What is open belongs to what is pending

While nothing is let through, the queue closes what is open in a fixed order.  Elements that opened
since a certain state lie over the levels of that state, which stay as they are.

* `Slot`: an open element, and what has become of its start.
* `Levels.Over base slots levels`: the slots are open over the levels `base`.
* `Queue.Settles names opened queue`: working off the queue leaves elements of these names open.
* `Queue.markers` and `Queue.rewind`: the markers and overlays of the bodies and rounds that the
  queue ends.
* `Engine.Framed start quiet names slots inner queue s`: how the state `s`, with this queue, lies
  over the state `start`.
* `Engine.Moves.frames` and `Engine.Frames.step`: what a step makes of the frame, move by move, if no
  body is let through.
-/

namespace TreeStream
set_option autoImplicit false

/-! ## Open elements -/

/-- What has become of the start of an open element. -/
inductive Standing where
  /-- It was shown, and so will its close be. -/
  | shown
  /-- Its close will vanish. -/
  | hidden
  /-- A capture takes its close. -/
  | held
  /-- A body runs in its place. -/
  | replaced
deriving Repr, DecidableEq, Inhabited

structure Slot where
  name : String
  standing : Standing
deriving Repr, DecidableEq, Inhabited

namespace Slot

def onEnd (slot : Slot) : Option EndHook :=
  match slot.standing with
  | .hidden => some .vanish
  | _ => none

/-- The name of the element, and whether a body runs in its place. -/
def entry (slot : Slot) : String × Bool :=
  (slot.name, slot.standing = .replaced)

def isShown (slot : Slot) : Bool :=
  slot.standing = .shown

end Slot

namespace Levels

/-- The slots are open over the levels `base`, of which the innermost may have got handlers. -/
def Over (base : Levels) : List Slot → Levels → Prop
  | [], levels => levels.around = base.around ∧ levels.current.tag = base.current.tag ∧
      levels.current.onEnd = base.current.onEnd
  | slot :: slots, levels => levels.current.tag = some slot.name ∧
      levels.current.onEnd = slot.onEnd ∧
        ∃ outer, levels.pop? = some (levels.current, outer) ∧ Over base slots outer

namespace Over

variable {base levels : Levels} {slot : Slot} {slots : List Slot}

theorem refl (base : Levels) : base.Over [] base :=
  ⟨rfl, rfl, rfl⟩

theorem push (h : base.Over slots levels) (name : String) {standing : Standing}
    (hstanding : standing ≠ .hidden) :
    base.Over (⟨name, standing⟩ :: slots) (levels.push name) := by
  refine ⟨rfl, ?_, levels, rfl, h⟩
  cases standing with
  | hidden => exact absurd rfl hstanding
  | _ => rfl

theorem pop? (h : base.Over (slot :: slots) levels) {level : Level} {outer : Levels}
    (hpop : levels.pop? = some (level, outer)) :
    level.onEnd = slot.onEnd ∧ base.Over slots outer := by
  obtain ⟨-, hhook, outer', hpop', hrest⟩ := h
  obtain ⟨rfl, rfl⟩ := Prod.mk.inj (Option.some.inj (hpop'.symm.trans hpop))
  exact ⟨hhook, hrest⟩

theorem around_ne_nil (h : base.Over (slot :: slots) levels) : levels.around ≠ [] := by
  obtain ⟨-, -, outer, hpop, -⟩ := h
  intro hnil
  simp [Levels.pop?, hnil] at hpop

theorem vanish (h : base.Over (slot :: slots) levels) :
    base.Over (⟨slot.name, .hidden⟩ :: slots) (levels.setOnEnd .vanish) := by
  obtain ⟨htag, -, outer, hpop, hrest⟩ := h
  refine ⟨htag, rfl, outer, ?_, hrest⟩
  rcases levels with ⟨current, _ | ⟨next, around⟩⟩
  · simp [Levels.pop?] at hpop
  · obtain ⟨-, rfl⟩ := Prod.mk.inj (Option.some.inj hpop)
    rfl

theorem register (h : base.Over slots levels) (key : String) (handler : Handler) :
    base.Over slots (levels.register key handler) := by
  cases slots with
  | nil => exact h
  | cons slot slots =>
    obtain ⟨htag, hhook, outer, hpop, hrest⟩ := h
    refine ⟨htag, hhook, outer, ?_, hrest⟩
    rcases levels with ⟨current, _ | ⟨next, around⟩⟩
    · simp [Levels.pop?] at hpop
    · obtain ⟨-, rfl⟩ := Prod.mk.inj (Option.some.inj hpop)
      rfl

theorem tags (h : base.Over slots levels) :
    levels.tags = base.tags ++ (slots.map Slot.name).reverse := by
  induction slots generalizing levels with
  | nil =>
    obtain ⟨haround, htag, -⟩ := h
    simp [Levels.tags, Levels.toList, haround, htag]
  | cons slot slots ih =>
    obtain ⟨htag, -, outer, hpop, hrest⟩ := h
    rcases levels with ⟨current, _ | ⟨next, around⟩⟩
    · simp [Levels.pop?] at hpop
    · obtain ⟨-, rfl⟩ := Prod.mk.inj (Option.some.inj hpop)
      have hlast : (⟨current, next :: around⟩ : Levels).tags =
          (⟨next, around⟩ : Levels).tags ++ [current.tag.getD "(root)"] := by
        simp [Levels.tags, Levels.toList]
      have hname : current.tag.getD "(root)" = slot.name := by
        rw [show current.tag = some slot.name from htag]
        rfl
      rw [hlast, ih hrest, hname]
      simp

end Over

theorem lookup_eq_none {levels : Levels} {key : String}
    (h : levels.All fun level => level.handlers.get? key = none) : levels.lookup [key] = none := by
  refine List.findSome?_eq_none_iff.2 ?_
  intro other hother
  rw [List.mem_singleton.1 hother]
  exact List.findSome?_eq_none_iff.2 h

theorem all_of_lookup_eq_none {levels : Levels} {key : String} (h : levels.lookup [key] = none) :
    levels.All fun level => level.handlers.get? key = none :=
  List.findSome?_eq_none_iff.1 (List.findSome?_eq_none_iff.1 h key (List.mem_singleton.2 rfl))

end Levels

/-! ## What the queue does to them -/

namespace Queue

/-- Working off the queue closes all that is open, and opens and leaves open elements of these
names.  An element for which a body runs becomes one like the others when the body is over, and
closes before any other callback runs. -/
def Settles (names : List String) : List (String × Bool) → Queue → Prop
  | opened, [] => opened = names.map fun name => (name, false)
  | opened, .event (.start name) :: queue =>
    closesFirst 0 queue = true ∧ Settles names ((name, false) :: opened) queue
  | opened, .event .close :: queue =>
    ∃ name outer, opened = (name, false) :: outer ∧ Settles names outer queue
  | opened, .event (.text _) :: queue => Settles names opened queue
  | opened, .event (.attr _ _) :: queue => Settles names opened queue
  | opened, .callback (.bodyDone _ true) :: queue =>
    closesFirst 0 queue = true ∧
      ∃ name outer, opened = (name, true) :: outer ∧ Settles names ((name, false) :: outer) queue
  | opened, .callback (.bodyDone _ false) :: queue => Settles names opened queue
  | opened, .callback (.roundDone _ _) :: queue => Settles names opened queue
  | opened, .callback (.announce _) :: queue => Settles names opened queue

theorem settles_forest {names : List String} (forest : Forest) {opened : List (String × Bool)}
    {queue : Queue} (h : Settles names opened queue) :
    Settles names opened (forest.events.map .event ++ queue) := by
  induction forest generalizing opened queue with
  | nil => exact h
  | text content rest ih => exact ih h
  | attr name value rest ih => exact ih h
  | element name children rest ihchildren ihrest =>
    have hclose : Settles names ((name, false) :: opened)
        (.event .close :: (rest.events.map .event ++ queue)) := ⟨name, opened, rfl, ihrest h⟩
    have hfirst := closesFirst_events children.balanced_events 0
      (.event .close :: (rest.events.map .event ++ queue))
    rw [Forest.events]
    simp only [List.map_cons, List.map_append, List.append_assoc, List.cons_append]
    exact ⟨hfirst, ihchildren hclose⟩

theorem settles_balanced {names : List String} {events : List Event} (hevents : Balanced events)
    {opened : List (String × Bool)} {queue : Queue} (h : Settles names opened queue) :
    Settles names opened (events.map .event ++ queue) := by
  obtain ⟨forest, rfl⟩ := exists_forest_of_balanced events hevents
  exact settles_forest forest h

/-- An event arrives when the queue has been worked off. -/
theorem settles_take {names names' : List String} {opened : List (String × Bool)} {event : Event}
    (h : Settles names opened []) (hnames : unclosed names [event] = some names') :
    Settles names' opened [.event event] := by
  obtain rfl : opened = names.map fun name => (name, false) := h
  cases event with
  | start name =>
    obtain rfl := Option.some.inj hnames
    exact ⟨rfl, rfl⟩
  | close =>
    cases names with
    | nil => simp [unclosed] at hnames
    | cons name names =>
      obtain rfl := Option.some.inj hnames
      exact ⟨name, _, rfl, rfl⟩
  | text content =>
    obtain rfl := Option.some.inj hnames
    rfl
  | attr name value =>
    obtain rfl := Option.some.inj hnames
    rfl

theorem settles_plain {names : List String} {opened : List (String × Bool)} {event : Event}
    {queue : Queue} (hevent : Capture.shift event = 0) :
    Settles names opened (.event event :: queue) ↔ Settles names opened queue := by
  cases event <;> simp [Capture.shift] at hevent <;> rfl

theorem closesFirst_plain {depth : Nat} {event : Event} {queue : Queue}
    (hevent : Capture.shift event = 0) :
    closesFirst depth (.event event :: queue) = closesFirst depth queue := by
  cases event <;> simp [Capture.shift] at hevent <;> simp [closesFirst]

/-- The markers of the bodies that end in the queue. -/
def markers : Queue → Markers
  | [] => []
  | .event _ :: queue => markers queue
  | .callback (.bodyDone _ _) :: queue => .opened queue.length :: markers queue
  | .callback (.roundDone _ _) :: queue => markers queue
  | .callback (.announce _) :: queue => markers queue

/-- What the scope becomes when all overlays of the bodies and rounds in the queue are released. -/
def rewind : Queue → Scope → Scope
  | [], scope => scope
  | .event _ :: queue, scope => rewind queue scope
  | .callback (.bodyDone overlay _) :: queue, scope => rewind queue (scope.release overlay)
  | .callback (.roundDone overlay _) :: queue, scope => rewind queue (scope.release overlay)
  | .callback (.announce _) :: queue, scope => rewind queue scope

theorem markers_events (events : List Event) (queue : Queue) :
    markers (events.map .event ++ queue) = markers queue := by
  induction events with
  | nil => rfl
  | cons event events ih => exact ih

theorem rewind_events (events : List Event) (queue : Queue) (scope : Scope) :
    rewind (events.map .event ++ queue) scope = rewind queue scope := by
  induction events with
  | nil => rfl
  | cons event events ih => exact ih

/-- How many overlays are left does not depend on the variables. -/
theorem overlays_rewind (queue : Queue) {first second : Scope}
    (h : first.overlays = second.overlays) :
    (rewind queue first).overlays = (rewind queue second).overlays := by
  induction queue generalizing first second with
  | nil => exact h
  | cons item queue ih =>
    have hreleased : ∀ overlay, (first.release overlay).overlays =
        (second.release overlay).overlays := fun overlay => congrArg (· - 1) h
    rcases item with event | ⟨overlay, loop⟩ | ⟨overlay, selectedStart⟩ | event
    · exact ih h
    · exact ih (hreleased overlay)
    · exact ih (hreleased overlay)
    · exact ih h

end Queue

/-! ## What is shown -/

theorem unclosed_plain (opened : List String) {events : List Event}
    (h : ∀ event ∈ events, Capture.shift event = 0) : unclosed opened events = some opened := by
  induction events with
  | nil => rfl
  | cons event events ih =>
    obtain ⟨hevent, hrest⟩ := List.forall_mem_cons.1 h
    cases event <;> simp [Capture.shift] at hevent <;> exact ih hrest

/-- Between the outputs, as many elements are opened and not closed as there are slots shown. -/
def Shows (before after : List Event) (slots : List Slot) : Prop :=
  ∃ shown names, after = before ++ shown ∧ unclosed [] shown = some names ∧
    names.length = slots.countP Slot.isShown

namespace Shows

variable {before after : List Event} {slots : List Slot} {slot : Slot}

theorem refl (output : List Event) : Shows output output [] :=
  ⟨[], [], by simp, rfl, rfl⟩

theorem append {shown : List Event} {slots' : List Slot} (h : Shows before after slots)
    (hshown : ∀ names : List String, names.length = slots.countP Slot.isShown →
      ∃ names', unclosed names shown = some names' ∧
        names'.length = slots'.countP Slot.isShown) : Shows before (after ++ shown) slots' := by
  obtain ⟨already, names, rfl, hnames, hlength⟩ := h
  obtain ⟨names', hnames', hlength'⟩ := hshown names hlength
  refine ⟨already ++ shown, names', by simp, ?_, hlength'⟩
  rw [unclosed_append, hnames]
  exact hnames'

theorem restand (h : Shows before after slots) {slots' : List Slot}
    (hcount : slots'.countP Slot.isShown = slots.countP Slot.isShown) :
    Shows before after slots' := by
  obtain ⟨shown, names, rfl, hnames, hlength⟩ := h
  exact ⟨shown, names, rfl, hnames, hlength.trans hcount.symm⟩

theorem balanced (h : Shows before after []) :
    ∃ shown, after = before ++ shown ∧ Balanced shown := by
  obtain ⟨shown, names, hafter, hnames, hlength⟩ := h
  rw [List.length_eq_zero_iff.1 hlength] at hnames
  exact ⟨shown, hafter, (balanced_iff_unclosed shown).2 hnames⟩

end Shows

/-! ## Frames -/

/-- What waits for events, if anything: the argument of the innermost element, or its body, of which
elements of the names `inner` are open. -/
inductive Waiting (queue : Queue) : List Slot → List String → List Capture → Prop
  | nobody {slots : List Slot} (hfree : ∀ slot ∈ slots, slot.standing ≠ .held) :
      Waiting queue slots [] []
  | argument {name : String} {slots : List Slot} {text : String} {use : TextUse}
      (hfree : ∀ slot ∈ slots, slot.standing ≠ .held)
      (hcloses : Queue.closesFirst 0 queue = true) :
      Waiting queue (⟨name, .held⟩ :: slots) [] [.firstText text use]
  | body {name : String} {slots : List Slot} {inner : List String} {discard : Bool}
      {buffer : List Event} {use : BodyUse} (hfree : ∀ slot ∈ slots, slot.standing ≠ .held)
      (hcloses : Queue.closesFirst inner.length queue = true) :
      Waiting queue (⟨name, .held⟩ :: slots) inner [.subLevel inner.length discard buffer use]

theorem Waiting.of_nil {queue : Queue} {inner : List String} {captures : List Capture}
    (h : Waiting queue [] inner captures) : captures = [] ∧ inner = [] := by
  cases h with
  | nobody hfree => exact ⟨rfl, rfl⟩

/-- Whoever waits for events closes its element before any callback runs. -/
theorem Waiting.of_callback {callback : Callback} {queue : Queue} {slots : List Slot}
    {inner : List String} {captures : List Capture}
    (h : Waiting (.callback callback :: queue) slots inner captures) :
    captures = [] ∧ inner = [] ∧ ∀ slot ∈ slots, slot.standing ≠ .held := by
  cases h with
  | nobody hfree => exact ⟨rfl, rfl, hfree⟩
  | argument hfree hcloses => simp [Queue.closesFirst] at hcloses
  | body hfree hcloses => simp [Queue.closesFirst] at hcloses

namespace Engine

/-- The overlays are those of an earlier scope, and all variables, unless expressions set some. -/
def Restores (engine : Engine) (after before : Scope) : Prop :=
  after.overlays = before.overlays ∧ (engine.evaluator.ReadsOnly → after = before)

/-- The state lies over an earlier one: the slots are open over its levels, and the queue settles
them, together with those that are open in a body that is gathered; it ends the bodies and rounds
that began since, takes back their overlays, and what has been put out is what the slots show.  For
the output, no close may be selected; then the frame is `quiet`. -/
structure Framed (engine : Engine) (start : State) (quiet : Prop) (names : List String)
    (slots : List Slot) (inner : List String) (queue : Queue) (s : State) : Prop where
  levels : start.levels.Over slots s.levels
  settles :
    Queue.Settles names ((inner.map fun name => (name, false)) ++ slots.map Slot.entry) queue
  markers : s.markers = Queue.markers queue ++ start.markers
  scope : engine.Restores (Queue.rewind queue s.scope) start.scope
  silent : quiet → s.levels.All fun level => level.handlers.get? "END" = none
  output : quiet → Shows start.output s.output slots

namespace Framed

variable {engine : Engine} {start s t : State} {quiet : Prop} {names : List String}
  {slot : Slot} {slots : List Slot} {inner : List String} {queue : Queue}

theorem congr (h : engine.Framed start quiet names slots inner queue s)
    (hscope : t.scope = s.scope) (hlevels : t.levels = s.levels) (hmarkers : t.markers = s.markers)
    (houtput : t.output = s.output) : engine.Framed start quiet names slots inner queue t :=
  ⟨hlevels ▸ h.levels, h.settles, hmarkers ▸ h.markers, hscope ▸ h.scope, hlevels ▸ h.silent,
    houtput ▸ h.output⟩

theorem evaluated (h : engine.Framed start quiet names slots inner queue s) {scope : Scope}
    (hscope : engine.Evaluated s.scope scope) (log : List LogEntry) :
    engine.Framed start quiet names slots inner queue { s with scope, log } := by
  refine { h with scope := ?_ }
  obtain ⟨hoverlays, hsame⟩ := h.scope
  refine ⟨(queue.overlays_rewind hscope.overlays).trans hoverlays, ?_⟩
  intro hreads
  rw [hscope.eq_of_readsOnly hreads]
  exact hsame hreads

theorem withCaptures (h : engine.Framed start quiet names slots inner queue s)
    (captures : List Capture) :
    engine.Framed start quiet names slots inner queue { s with captures } :=
  h.congr rfl rfl rfl rfl

theorem skip {event : Event}
    (h : engine.Framed start quiet names slots inner (.event event :: queue) s)
    (hevent : Capture.shift event = 0) : engine.Framed start quiet names slots inner queue s :=
  { h with settles := (Queue.settles_plain hevent).1 h.settles }

/-! ### What is shown in place of a start -/

theorem push {name : String}
    (h : engine.Framed start quiet names slots [] (.event (.start name) :: queue) s) :
    Queue.closesFirst 0 queue = true ∧
      engine.Framed start quiet names (⟨name, .held⟩ :: slots) [] queue
        { s with levels := s.levels.push name } := by
  obtain ⟨hcloses, hsettles⟩ := h.settles
  refine ⟨hcloses, h.levels.push name (by simp), hsettles, h.markers, h.scope, ?_, ?_⟩
  · exact fun hquiet => (h.silent hquiet).push rfl
  · exact h.output

/-- The start of the element, or another, is shown, perhaps with texts behind it. -/
theorem shows {name : String}
    (h : engine.Framed start quiet names (⟨name, .held⟩ :: slots) inner queue s) (other : String)
    (contents : List String) :
    engine.Framed start quiet names (⟨name, .shown⟩ :: slots) inner queue
      { s with output := s.output ++ .start other :: contents.map .text } where
  levels := ⟨h.levels.1, h.levels.2.1, h.levels.2.2⟩
  settles := h.settles
  markers := h.markers
  scope := h.scope
  silent := h.silent
  output hquiet := (h.output hquiet).append fun opened hopened => by
    have hplain : ∀ event ∈ contents.map Event.text, Capture.shift event = 0 := by
      simp [Capture.shift]
    refine ⟨other :: opened, unclosed_plain _ hplain, ?_⟩
    simpa [List.countP_cons, Slot.isShown] using hopened

theorem plain (h : engine.Framed start quiet names slots inner queue s) {shown : List Event}
    (hshown : ∀ event ∈ shown, Capture.shift event = 0) :
    engine.Framed start quiet names slots inner queue { s with output := s.output ++ shown } :=
  { h with output := fun hquiet => (h.output hquiet).append fun opened hopened =>
      ⟨opened, unclosed_plain opened hshown, hopened⟩ }

theorem vanish {name : String}
    (h : engine.Framed start quiet names (⟨name, .held⟩ :: slots) inner queue s) :
    engine.Framed start quiet names (⟨name, .hidden⟩ :: slots) inner queue
      (s.setOnEnd .vanish) where
  levels := h.levels.vanish
  settles := h.settles
  markers := h.markers
  scope := h.scope
  silent hquiet :=
    (h.silent hquiet).withCurrent (h.silent hquiet s.levels.current List.mem_cons_self)
  output := h.output

/-! ### What a close does -/

/-- A close finds an element open and no body in its place; it vanishes or is forwarded, and closes
the level of the element. -/
theorem pop (h : engine.Framed start quiet names slots [] (.event .close :: queue) s)
    {close : LevelClose} (hshift : s.shiftLevel = .ok (close, t)) :
    ∃ slot outer, slots = slot :: outer ∧ slot.standing ≠ .replaced ∧
      (slot.standing = .hidden ↔ close = .suppress) ∧
      t.queue = s.queue ∧ t.captures = s.captures ∧
      (slot.standing ≠ .shown → engine.Framed start quiet names outer [] queue t) ∧
      (slot.standing = .shown →
        engine.Framed start quiet names outer [] queue (t.emit .close)) := by
  obtain ⟨name, others, hentries, hsettles⟩ := h.settles
  rcases slots with _ | ⟨slot, outer⟩
  · simp at hentries
  obtain ⟨hentry, rfl⟩ := List.cons.inj hentries
  have hstanding : slot.standing ≠ .replaced := by
    intro hreplaced
    simp [Slot.entry, hreplaced] at hentry
  obtain ⟨level, around, hpop, hcases⟩ := State.shiftLevel_cases hshift
  obtain ⟨hhook, hover⟩ := h.levels.pop? hpop
  have hclosed : t = { s with levels := around } ∧
      (slot.standing = .hidden ↔ close = .suppress) := by
    rcases hcases with ⟨hnone, rfl, rfl⟩ | ⟨hook, hsome, hrun⟩
    · refine ⟨rfl, ?_⟩
      rw [hnone] at hhook
      cases hkind : slot.standing <;> simp [Slot.onEnd, hkind] at hhook ⊢
    · rw [hsome] at hhook
      cases hkind : slot.standing <;> simp [Slot.onEnd, hkind] at hhook ⊢
      subst hhook
      exact Prod.mk.inj hrun |>.symm
  obtain ⟨rfl, hclose⟩ := hclosed
  have hsilent : quiet → around.All fun level => level.handlers.get? "END" = none :=
    fun hquiet => ((h.silent hquiet).of_pop? hpop).2
  refine ⟨slot, outer, rfl, hstanding, hclose, rfl, rfl, ?_, ?_⟩
  · intro hshown
    refine ⟨hover, hsettles, h.markers, h.scope, hsilent, ?_⟩
    exact fun hquiet => (h.output hquiet).restand (by simp [Slot.isShown, hshown])
  · intro hshown
    refine ⟨hover, hsettles, h.markers, h.scope, hsilent, ?_⟩
    refine fun hquiet => (h.output hquiet).append fun opened hopened => ?_
    rcases opened with _ | ⟨name, opened⟩
    · simp [Slot.isShown, hshown] at hopened
    · refine ⟨opened, rfl, ?_⟩
      simpa [List.countP_cons, Slot.isShown, hshown] using hopened

/-! ### What runs in between -/

/-- A body is replayed, with a callback behind it. -/
theorem replay (h : engine.Framed start quiet names slots [] queue s) {slots' : List Slot}
    {body : List Event} {callback : Callback} (hbody : Balanced body)
    (hlevels : start.levels.Over slots' s.levels)
    (hsettles : Queue.Settles names (slots'.map Slot.entry) (.callback callback :: queue))
    (hmarkers : t.markers = Queue.markers (.callback callback :: queue) ++ start.markers)
    (hscope : Queue.rewind (.callback callback :: queue) t.scope = Queue.rewind queue s.scope)
    (hcount : slots'.countP Slot.isShown = slots.countP Slot.isShown)
    (hsame : t.levels = s.levels) (houtput : t.output = s.output) :
    engine.Framed start quiet names slots' []
      (body.map .event ++ .callback callback :: queue) t where
  levels := hsame ▸ hlevels
  settles := Queue.settles_balanced hbody hsettles
  markers := by rw [Queue.markers_events, hmarkers]
  scope := by
    rw [Queue.rewind_events, hscope]
    exact h.scope
  silent := hsame ▸ h.silent
  output hquiet := houtput ▸ (h.output hquiet).restand hcount

theorem play (h : engine.Framed start quiet names slots [] s.queue s) (loop : Loop)
    (hbody : Balanced loop.body) :
    engine.Framed start quiet names slots [] (loop.play s).queue (loop.play s) := by
  unfold Loop.play
  cases loop.left with
  | nil => exact h
  | cons item left =>
    have hscope := s.scope.release_install ((loop.item, item) ::
      loop.index.toList.map fun name => (name, Value.num (Float.ofNat loop.round)))
    exact h.replay hbody h.levels h.settles h.markers (congrArg (Queue.rewind s.queue) hscope) rfl
      rfl rfl

/-- A body runs in the place of an event. -/
theorem fire (h : engine.Framed start quiet names slots [] s.queue s) {slots' : List Slot}
    {body : List Event} (hbody : Balanced body) (binding : Option String) (event : Event)
    (hlevels : start.levels.Over slots' s.levels)
    (hsettles : ∀ overlay, Queue.Settles names (slots'.map Slot.entry)
      (.callback (.bodyDone overlay event.isStart) :: s.queue))
    (hcount : slots'.countP Slot.isShown = slots.countP Slot.isShown) :
    engine.Framed start quiet names slots' []
      ((Handler.deferred body binding).run event s).queue
      ((Handler.deferred body binding).run event s) := by
  have hscope := s.scope.release_install
    (("_", event.selected) :: binding.toList.map fun name => (name, event.selected))
  exact h.replay hbody hlevels (hsettles _)
    (congrArg (Marker.opened s.queue.length :: ·) h.markers)
    (congrArg (Queue.rewind s.queue) hscope) hcount rfl rfl

theorem fire_beside (h : engine.Framed start quiet names slots [] s.queue s) {body : List Event}
    (hbody : Balanced body) (binding : Option String) {event : Event}
    (hevent : event.isStart = false) :
    engine.Framed start quiet names slots []
      ((Handler.deferred body binding).run event s).queue
      ((Handler.deferred body binding).run event s) :=
  h.fire hbody binding event h.levels (fun _ => hevent ▸ h.settles) rfl

theorem fire_around {name : String}
    (h : engine.Framed start quiet names (⟨name, .held⟩ :: slots) [] s.queue s)
    (hcloses : Queue.closesFirst 0 s.queue = true) {body : List Event} (hbody : Balanced body)
    (binding : Option String) (other : String) :
    engine.Framed start quiet names (⟨name, .replaced⟩ :: slots) []
      ((Handler.deferred body binding).run (.start other) s).queue
      ((Handler.deferred body binding).run (.start other) s) :=
  h.fire hbody binding (.start other) ⟨h.levels.1, h.levels.2.1, h.levels.2.2⟩
    (fun _ => ⟨hcloses, name, _, rfl, h.settles⟩) rfl

theorem register (h : engine.Framed start quiet names slots inner queue s) {selector : String}
    (handler : Handler) (hselector : quiet → selector ≠ "END") :
    engine.Framed start quiet names slots inner queue
      { s with levels := s.levels.register selector handler } where
  levels := h.levels.register selector handler
  settles := h.settles
  markers := h.markers
  scope := h.scope
  silent hquiet := by
    refine (h.silent hquiet).withCurrent ?_
    have hput : (s.levels.current.handlers.put selector handler).get? "END" =
        s.levels.current.handlers.get? "END" := by
      rw [Table.get?_put, if_neg (hselector hquiet)]
    exact hput.trans (h.silent hquiet s.levels.current List.mem_cons_self)
  output := h.output

end Framed

/-- The state lies over an earlier one, with its own queue and captures. -/
def Frames (engine : Engine) (start : State) (quiet : Prop) (names : List String) (s : State) :
    Prop :=
  ∃ slots inner, engine.Framed start quiet names slots inner s.queue s ∧
    Waiting s.queue slots inner s.captures

/-- The selector under which the work registers a body, if it does. -/
def Worked.registers? (worked : Worked) : Option String :=
  match worked.item, worked.before.captures with
  | .event event, capture :: _ =>
    match capture.feed event with
    | (.subLevel _ _ _ (.register selector _), some _) => some selector
    | _ => none
  | _, _ => none

section Steps

variable {engine : Engine} {start s t : State} {quiet : Prop} {names : List String}
  {slots : List Slot} {inner : List String} {P : Event → Prop}

namespace Framed

theorem free (h : engine.Framed start quiet names slots [] s.queue s) (hcaptures : s.captures = [])
    (hfree : ∀ slot ∈ slots, slot.standing ≠ .held) : engine.Frames start quiet names s :=
  ⟨slots, [], h, hcaptures ▸ .nobody hfree⟩

theorem forward_start {name other : String}
    (h : engine.Framed start quiet names (⟨name, .held⟩ :: slots) [] s.queue s)
    (hcaptures : s.captures = []) (hfree : ∀ slot ∈ slots, slot.standing ≠ .held)
    (hcloses : Queue.closesFirst 0 s.queue = true) (hkeeps : engine.Keeps P s)
    (keys : List String) : engine.Frames start quiet names (s.forward keys (.start other)) := by
  unfold State.forward
  rcases hlookup : s.levels.lookup keys with _ | (⟨body, binding⟩ | first)
  · exact (h.shows other []).free hcaptures (List.forall_mem_cons.2 ⟨by simp, hfree⟩)
  · have hbody : Kept P body := hkeeps.levels.lookup hlookup
    exact (h.fire_around hcloses hbody.1 binding other).free hcaptures
      (List.forall_mem_cons.2 ⟨by simp, hfree⟩)
  · exact (hkeeps.levels.lookup hlookup).elim

theorem forward_plain (h : engine.Framed start quiet names slots [] s.queue s)
    (hcaptures : s.captures = []) (hfree : ∀ slot ∈ slots, slot.standing ≠ .held)
    (hkeeps : engine.Keeps P s) {event : Event} (hevent : Capture.shift event = 0)
    (keys : List String) : engine.Frames start quiet names (s.forward keys event) := by
  unfold State.forward
  rcases hlookup : s.levels.lookup keys with _ | (⟨body, binding⟩ | first)
  · exact (h.plain (by simpa using hevent)).free hcaptures hfree
  · have hbody : Kept P body := hkeeps.levels.lookup hlookup
    have hstart : event.isStart = false := by
      cases event <;> simp [Capture.shift] at hevent <;> rfl
    exact (h.fire_beside hbody.1 binding hstart).free hcaptures hfree
  · exact (hkeeps.levels.lookup hlookup).elim

/-- A close that is selected is not quiet. -/
theorem forward_close (h : engine.Framed start quiet names slots [] s.queue (s.emit .close))
    (hcaptures : s.captures = []) (hfree : ∀ slot ∈ slots, slot.standing ≠ .held)
    (hkeeps : engine.Keeps P s) : engine.Frames start quiet names (s.forward ["END"] .close) := by
  unfold State.forward
  rcases hlookup : s.levels.lookup ["END"] with _ | (⟨body, binding⟩ | first)
  · exact free h hcaptures hfree
  · have hbody : Kept P body := hkeeps.levels.lookup hlookup
    have hloud : ¬ quiet := by
      intro hquiet
      have hnone : s.levels.lookup ["END"] = none := Levels.lookup_eq_none (h.silent hquiet)
      simp [hnone] at hlookup
    have hsame : engine.Framed start quiet names slots [] s.queue s :=
      ⟨h.levels, h.settles, h.markers, h.scope, h.silent, fun hquiet => absurd hquiet hloud⟩
    exact (hsame.fire_beside hbody.1 binding rfl).free hcaptures hfree
  · exact (hkeeps.levels.lookup hlookup).elim

theorem forwarded {event : Event} {keys : List String}
    (h : engine.Framed start quiet names slots [] (.event event :: s.queue) s)
    (hcaptures : s.captures = []) (hfree : ∀ slot ∈ slots, slot.standing ≠ .held)
    (hkeeps : engine.Keeps P s) (hforwards : engine.Forwards event s keys t) :
    engine.Frames start quiet names (t.forward keys event) := by
  have hkept := hkeeps.forwards hforwards
  cases hforwards with
  | @element name _ htag =>
    obtain ⟨hcloses, hpushed⟩ := h.push
    exact forward_start (s := { s with levels := s.levels.push name }) hpushed hcaptures hfree
      hcloses hkept _
  | @unknown name _ htag =>
    obtain ⟨hcloses, hpushed⟩ := h.push
    exact forward_start (s := ({ s with levels := s.levels.push name } : State).tell
      (.misuse (.unknownDirective name))) (hpushed.congr rfl rfl rfl rfl) hcaptures hfree hcloses
      hkept _
  | close hshift =>
    obtain ⟨slot, outer, rfl, hreplaced, hhidden, hqueue, hsame, -, hshown⟩ := h.pop hshift
    obtain ⟨hheld, houter⟩ := List.forall_mem_cons.1 hfree
    have hstanding : slot.standing = .shown := by
      cases hkind : slot.standing <;> simp [hkind] at hreplaced hhidden hheld ⊢
    have hclosed := hshown hstanding
    rw [← hqueue] at hclosed
    exact hclosed.forward_close (hsame.trans hcaptures) houter hkept
  | text => exact (h.skip rfl).forward_plain hcaptures hfree hkept rfl _
  | attr => exact (h.skip rfl).forward_plain hcaptures hfree hkept rfl _

/-- An argument is complete. -/
theorem continues {name : String} {use : TextUse}
    (h : engine.Framed start quiet names (⟨name, .held⟩ :: slots) [] s.queue s)
    (hcaptures : s.captures = []) (hfree : ∀ slot ∈ slots, slot.standing ≠ .held)
    (hcloses : Queue.closesFirst 0 s.queue = true) (huse : use.Directs)
    (hcontinues : engine.Continues use s t) : engine.Frames start quiet names t := by
  cases hcontinues with
  | done scope log shown hscope hshown =>
    obtain ⟨other, content, rfl⟩ := huse.shows hshown
    exact ((h.evaluated hscope log).shows other [content]).free hcaptures
      (List.forall_mem_cons.2 ⟨by simp, hfree⟩)
  | vanish scope log hscope =>
    exact (h.evaluated hscope log).vanish.free hcaptures (List.forall_mem_cons.2 ⟨by simp, hfree⟩)
  | dropped scope log contents hscope =>
    have hplain : ∀ event ∈ contents.map Event.text, Capture.shift event = 0 := by
      simp [Capture.shift]
    refine ⟨_, [], ((h.evaluated hscope log).plain hplain).withCaptures _, ?_⟩
    simp only [State.discardBody, State.captureBody, hcaptures]
    exact .body hfree hcloses
  | loop scope log item index items hscope =>
    refine ⟨_, [], (h.evaluated hscope log).withCaptures _, ?_⟩
    simp only [State.captureBody, hcaptures]
    exact .body hfree hcloses
  | register selector binding =>
    refine ⟨_, [], h.withCaptures _, ?_⟩
    simp only [State.captureBody, hcaptures]
    exact .body hfree hcloses

/-- An event stands in a body. -/
theorem gather {name : String} {discard : Bool} {buffer : List Event} {use : BodyUse}
    {event : Event}
    (h : engine.Framed start quiet names (⟨name, .held⟩ :: slots) inner (.event event :: s.queue) s)
    (hfree : ∀ slot ∈ slots, slot.standing ≠ .held)
    (hcloses : Queue.closesFirst inner.length (.event event :: s.queue) = true)
    (hdepth : 0 ≤ inner.length + Capture.shift event) :
    engine.Frames start quiet names { s with
      captures := [.subLevel (inner.length + Capture.shift event) discard buffer use] } := by
  have hgathered : ∀ inner' : List String,
      (inner'.length : Int) = inner.length + Capture.shift event →
      Queue.closesFirst inner'.length s.queue = true →
      Queue.Settles names ((inner'.map fun name => (name, false)) ++
        (⟨name, .held⟩ :: slots).map Slot.entry) s.queue →
      engine.Frames start quiet names { s with
        captures := [.subLevel (inner.length + Capture.shift event) discard buffer use] } := by
    intro inner' hlength hcloses' hsettles
    rw [← hlength]
    exact ⟨_, inner', ⟨h.levels, hsettles, h.markers, h.scope, h.silent, h.output⟩,
      .body hfree hcloses'⟩
  have hsettles := h.settles
  cases event with
  | start other =>
    exact hgathered (other :: inner) (by simp [Capture.shift]) hcloses hsettles.2
  | close =>
    rcases inner with _ | ⟨first, inner⟩
    · simp [Capture.shift] at hdepth
    · obtain ⟨_, _, hentries, hrest⟩ := hsettles
      obtain ⟨-, rfl⟩ := List.cons.inj hentries
      exact hgathered inner (by simp only [Capture.shift, List.length_cons]; omega) hcloses hrest
  | text content => exact hgathered inner (by simp [Capture.shift]) hcloses hsettles
  | attr name value => exact hgathered inner (by simp [Capture.shift]) hcloses hsettles

/-- A body is complete. -/
theorem completed {use : BodyUse} {discard : Bool} {buffer : List Event}
    (h : engine.Framed start quiet names slots [] s.queue s) (hcaptures : s.captures = [])
    (hfree : ∀ slot ∈ slots, slot.standing ≠ .held) (hthrough : use ≠ .through)
    (hbody : (Capture.subLevel 0 discard buffer use).Keeps engine P)
    (hselector : ∀ selector binding, use = .register selector binding → quiet → selector ≠ "END") :
    engine.Frames start quiet names (use.run buffer s) := by
  have hbalanced : (∃ opened, unclosed [] buffer = some opened ∧ (opened.length : Int) = 0) →
      Balanced buffer := by
    rintro ⟨opened, hopened, hlength⟩
    rw [List.length_eq_zero_iff.1 (Int.natCast_eq_zero.1 hlength)] at hopened
    exact (balanced_iff_unclosed buffer).2 hopened
  cases use with
  | drop => exact h.free hcaptures hfree
  | loop item index items =>
    refine (h.play ⟨item, index, buffer, 0, items⟩ (hbalanced hbody.2.2)).free ?_ hfree
    exact (play_captures _ s).trans hcaptures
  | register selector binding =>
    exact (h.register _ (hselector selector binding rfl)).free hcaptures hfree
  | through => exact absurd rfl hthrough
  | report tag => exact hbody.elim

/-! ### One lemma for each move -/

theorem suppressed (h : engine.Framed start quiet names slots [] (.event .close :: s.queue) s)
    (hcaptures : s.captures = []) (hfree : ∀ slot ∈ slots, slot.standing ≠ .held)
    (hshift : s.shiftLevel = .ok (.suppress, t)) : engine.Frames start quiet names t := by
  obtain ⟨slot, outer, rfl, -, hhidden, hqueue, hsame, hclosed, -⟩ := h.pop hshift
  have hstanding : slot.standing = .hidden := hhidden.2 rfl
  have houter := hclosed (by simp [hstanding])
  rw [← hqueue] at houter
  exact houter.free (hsame.trans hcaptures) (List.forall_mem_cons.1 hfree).2

theorem asked {name : String}
    (h : engine.Framed start quiet names slots [] (.event (.start name) :: s.queue) s)
    (hcaptures : s.captures = []) (hfree : ∀ slot ∈ slots, slot.standing ≠ .held) (use : TextUse) :
    engine.Frames start quiet names
      ({ s with levels := s.levels.push name }.captureText use) := by
  obtain ⟨hcloses, hpushed⟩ := h.push
  refine ⟨_, [], hpushed.withCaptures _, ?_⟩
  simp only [State.captureText, hcaptures]
  exact .argument hfree hcloses

theorem skipped {name : String}
    (h : engine.Framed start quiet names slots [] (.event (.start name) :: s.queue) s)
    (hcaptures : s.captures = []) (hfree : ∀ slot ∈ slots, slot.standing ≠ .held) (use : BodyUse)
    (log : List LogEntry) : engine.Frames start quiet names
      ({ s with levels := s.levels.push name, log }.captureBody true use) := by
  obtain ⟨hcloses, hpushed⟩ := h.push
  refine ⟨_, [], hpushed.congr rfl rfl rfl rfl, ?_⟩
  simp only [State.captureBody, hcaptures]
  exact .body hfree hcloses

theorem heard {name : String} {event : Event} {use : TextUse}
    (h : engine.Framed start quiet names (⟨name, .held⟩ :: slots) [] (.event event :: s.queue) s)
    (hfree : ∀ slot ∈ slots, slot.standing ≠ .held)
    (hcloses : Queue.closesFirst 0 (.event event :: s.queue) = true)
    (hevent : Capture.shift event = 0) (text : String) :
    engine.Frames start quiet names { s with captures := [.firstText text use] } := by
  rw [Queue.closesFirst_plain hevent] at hcloses
  exact ⟨_, [], (h.skip hevent).withCaptures _, .argument hfree hcloses⟩

/-- The event that ends an argument is looked at again. -/
theorem continued {name : String} {event : Event} {use : TextUse}
    (h : engine.Framed start quiet names (⟨name, .held⟩ :: slots) [] (.event event :: s.queue) s)
    (hfree : ∀ slot ∈ slots, slot.standing ≠ .held)
    (hcloses : Queue.closesFirst 0 (.event event :: s.queue) = true) (huse : use.Directs)
    (text : String) : engine.Frames start quiet names
      (engine.useText use text { s with captures := [], queue := s.queue.pushFront event }) := by
  have hcontinues := useText_continues engine use text
    { s with captures := [], queue := s.queue.pushFront event }
  exact continues (s := { s with captures := [], queue := s.queue.pushFront event })
    (h.congr rfl rfl rfl rfl) rfl hfree hcloses huse hcontinues

/-- The close of the element ends its body. -/
theorem ended {name : String} {use : BodyUse} {discard : Bool} {buffer : List Event}
    {close : LevelClose}
    (h : engine.Framed start quiet names (⟨name, .held⟩ :: slots) [] (.event .close :: s.queue) s)
    (hfree : ∀ slot ∈ slots, slot.standing ≠ .held) (hthrough : use ≠ .through)
    (hbody : (Capture.subLevel 0 discard buffer use).Keeps engine P)
    (hselector : ∀ selector binding, use = .register selector binding → quiet → selector ≠ "END")
    (hshift : { s with captures := [] }.shiftLevel = .ok (close, t)) :
    engine.Frames start quiet names (use.run buffer t) := by
  obtain ⟨slot, outer, hslots, -, -, hqueue, hsame, hclosed, -⟩ :=
    pop (s := { s with captures := [] }) (h.congr rfl rfl rfl rfl) hshift
  obtain ⟨rfl, rfl⟩ := List.cons.inj hslots
  have houter := hclosed (by simp)
  rw [← hqueue] at houter
  exact houter.completed hsame hfree hthrough hbody hselector

end Framed

/-- An event keeps the frame, if no body is let through. -/
theorem Moves.frames {event : Event} {slots : List Slot} {inner : List String}
    (hmoves : engine.Moves event s t)
    (h : engine.Framed start quiet names slots inner (.event event :: s.queue) s)
    (hwaiting : Waiting (.event event :: s.queue) slots inner s.captures)
    (hkeeps : engine.Keeps P s)
    (hnone : ∀ name, P (.start name) → engine.options.classify name ≠ .directive .through)
    (hregisters : quiet → (⟨s, .event event⟩ : Worked).registers? ≠ some "END") :
    engine.Frames start quiet names t := by
  cases hmoves with
  | forwarded hcaptures hforwards =>
    rw [hcaptures] at hwaiting
    cases hwaiting with
    | nobody hfree => exact h.forwarded hcaptures hfree hkeeps hforwards
  | suppressed hcaptures hshift =>
    rw [hcaptures] at hwaiting
    cases hwaiting with
    | nobody hfree => exact h.suppressed hcaptures hfree hshift
  | @asked name use _ hcaptures huse =>
    rw [hcaptures] at hwaiting
    cases hwaiting with
    | nobody hfree => exact h.asked hcaptures hfree use
  | @skipped name use log _ hcaptures huse =>
    rw [hcaptures] at hwaiting
    cases hwaiting with
    | nobody hfree => exact h.skipped hcaptures hfree use log
  | heard hcaptures hshift text' =>
    rw [hcaptures] at hwaiting
    cases hwaiting with
    | argument hfree hcloses => exact h.heard hfree hcloses hshift text'
  | @continued event text use captures _ hcaptures hshift =>
    have huse : use.Directs := hkeeps.captures (.firstText text use) (by simp [hcaptures])
    rw [hcaptures] at hwaiting
    cases hwaiting with
    | argument hfree hcloses => exact h.continued hfree hcloses huse text
  | @gathered event depth discard buffer use captures _ hcaptures hdepth =>
    rw [hcaptures] at hwaiting
    cases hwaiting with
    | body hfree hcloses => exact h.gather hfree hcloses hdepth
  | @completed event depth discard buffer use captures close _ closed hcaptures hdepth hshift =>
    have hmem : .subLevel depth discard buffer use ∈ s.captures := by simp [hcaptures]
    have hthrough := hkeeps.without_through hnone hmem
    have hbody := hkeeps.captures _ hmem
    rw [hcaptures] at hwaiting
    cases hwaiting with
    | body hfree hcloses =>
      have hends : inner = [] ∧ event = .close := by
        cases event <;> simp only [Capture.shift] at hdepth <;>
          first | omega | exact ⟨List.length_eq_zero_iff.1 (by omega), rfl⟩
      obtain ⟨rfl, rfl⟩ := hends
      refine h.ended hfree hthrough hbody ?_ hshift
      rintro selector binding rfl hquiet rfl
      refine hregisters hquiet ?_
      simp [Worked.registers?, hcaptures, Capture.feed, Capture.shift]

/-- Where a close would be a fault, an element is open. -/
theorem Framed.around_ne_nil {event : Event} {slots : List Slot} {inner : List String}
    {queue : Queue} (h : engine.Framed start quiet names slots inner (.event event :: queue) s)
    (hwaiting : Waiting (.event event :: queue) slots inner s.captures)
    (hcases : s.captures = [] ∧ event = .close ∨ ∃ depth discard buffer use captures,
      s.captures = .subLevel depth discard buffer use :: captures ∧
        depth + Capture.shift event < 0) : s.levels.around ≠ [] := by
  rcases hcases with ⟨hcaptures, rfl⟩ | ⟨depth, discard, buffer, use, captures, hcaptures, -⟩ <;>
    rw [hcaptures] at hwaiting
  · cases hwaiting with
    | nobody hfree =>
      obtain ⟨name, outer, hentries, -⟩ := h.settles
      rcases slots with _ | ⟨slot, slots⟩
      · simp at hentries
      · exact h.levels.around_ne_nil
  · cases hwaiting with
    | body hfree hcloses => exact h.levels.around_ne_nil

/-- The rest of an element is dropped when the body in its place has ended. -/
theorem Framed.replaced {overlay : Overlay} {slots : List Slot}
    (h : engine.Framed start quiet names slots [] (.callback (.bodyDone overlay true) :: s.queue) s)
    (hcaptures : s.captures = []) (hfree : ∀ slot ∈ slots, slot.standing ≠ .held) :
    engine.Frames start quiet names ((Callback.bodyDone overlay true).run s) := by
  have hmarkers : s.markers = .opened s.queue.length :: (s.queue.markers ++ start.markers) :=
    h.markers
  rw [Callback.run_bodyDone_dropped hmarkers]
  obtain ⟨hcloses, name, others, hentries, hsettles⟩ := h.settles
  rcases slots with _ | ⟨⟨other, standing⟩, outer⟩
  · simp at hentries
  obtain ⟨hentry, rfl⟩ := List.cons.inj hentries
  obtain ⟨rfl, hstanding⟩ := Prod.mk.inj hentry
  obtain rfl : standing = .replaced := by simpa using hstanding
  have hdropped : engine.Framed start quiet names (⟨other, .held⟩ :: outer) [] s.queue
      ({ s.release overlay with markers := s.queue.markers ++ start.markers }.discardBody) :=
    ⟨⟨h.levels.1, h.levels.2.1, h.levels.2.2⟩, hsettles, rfl, h.scope, h.silent, h.output⟩
  refine ⟨_, [], hdropped, ?_⟩
  simp only [State.discardBody, State.captureBody, State.release, hcaptures]
  exact .body (List.forall_mem_cons.1 hfree).2 hcloses

theorem Framed.callback {callback : Callback} {slots : List Slot} {inner : List String}
    (h : engine.Framed start quiet names slots inner (.callback callback :: s.queue) s)
    (hwaiting : Waiting (.callback callback :: s.queue) slots inner s.captures)
    (hcallback : (Queued.callback callback).Keeps P) :
    engine.Frames start quiet names (callback.run s) := by
  obtain ⟨hcaptures, rfl, hfree⟩ := hwaiting.of_callback
  cases callback with
  | roundDone overlay loop =>
    have hreleased : engine.Framed start quiet names slots [] s.queue (s.release overlay) :=
      ⟨h.levels, h.settles, h.markers, h.scope, h.silent, h.output⟩
    exact (play (s := s.release overlay) hreleased loop hcallback.1).free
      ((play_captures loop _).trans hcaptures) hfree
  | bodyDone overlay selectedStart =>
    cases selectedStart with
    | false =>
      rw [Callback.run_bodyDone_beside h.markers]
      have hdone : engine.Framed start quiet names slots [] s.queue
          { s.release overlay with markers := s.queue.markers ++ start.markers } :=
        ⟨h.levels, h.settles, rfl, h.scope, h.silent, h.output⟩
      exact free (s := { s.release overlay with markers := _ }) hdone hcaptures hfree
    | true => exact h.replaced hcaptures hfree
  | announce event => exact hcallback.elim

namespace Frames

theorem not_fault {item : Queued} {queue : Queue} {fault : Fault}
    (h : engine.Frames start quiet names s) (hqueue : s.queue = item :: queue) :
    engine.step item { s with queue } ≠ (.error fault, t) := by
  intro hstep
  obtain ⟨slots, inner, hframed, hwaiting⟩ := h
  rw [hqueue] at hframed hwaiting
  obtain ⟨-, -, haround, event, rfl, hcases⟩ := step_fault hstep
  exact hframed.around_ne_nil hwaiting hcases haround

/-- Every step keeps the frame, if no body is let through. -/
theorem step {item : Queued} {queue : Queue} (h : engine.Frames start quiet names s)
    (hkeeps : engine.Keeps P s)
    (hnone : ∀ name, P (.start name) → engine.options.classify name ≠ .directive .through)
    (hqueue : s.queue = item :: queue)
    (hregisters : quiet → (⟨{ s with queue }, item⟩ : Worked).registers? ≠ some "END")
    (hstep : engine.step item { s with queue } = (.ok (), t)) :
    engine.Frames start quiet names t := by
  obtain ⟨slots, inner, hframed, hwaiting⟩ := h
  rw [hqueue] at hframed hwaiting
  have hpopped : engine.Framed start quiet names slots inner (item :: queue) { s with queue } :=
    hframed.congr rfl rfl rfl rfl
  obtain ⟨hitem, hothers⟩ := List.forall_mem_cons.1 (hqueue ▸ hkeeps.queue)
  have hkept : engine.Keeps P { s with queue } := hkeeps.withQueue hothers
  cases item with
  | callback callback =>
    obtain ⟨-, rfl⟩ := Prod.mk.inj hstep
    exact hpopped.callback hwaiting hitem
  | event event =>
    exact (moves_of_step hstep).frames hpopped hwaiting hkept hnone hregisters

end Frames

end Steps

end Engine
end TreeStream
