import TreeStream.Proofs.Moves
import TreeStream.Proofs.Unclosed

/-!
# Where stored events come from

An engine keeps events in its queue, in captures, in handlers, in loops and in stashes.  It makes
none of them up: what holds of all events of a stream holds of all that are stored.  The bodies that
it keeps to replay them are balanced, whether the stream is or not.

* `Kept P body`: a body that may be replayed.
* `Level.Keeps`, `Queued.Keeps`, `Capture.Keeps`, `Engine.Keeps`: what is stored, from parts to the
  whole state.
* `Engine.step_keeps`: every step keeps that.
* `Engine.Keeps.without_through`: where no element lets anything through, no capture waits to do so.
-/

namespace TreeStream
set_option autoImplicit false

variable {P : Event → Prop}

/-- A body that may be replayed. -/
def Kept (P : Event → Prop) (body : List Event) : Prop :=
  Balanced body ∧ ∀ event ∈ body, P event

def Handler.Keeps (P : Event → Prop) : Handler → Prop
  | .deferred body _ => Kept P body
  | .announce _ => False

def Queued.Keeps (P : Event → Prop) : Queued → Prop
  | .event e => P e
  | .callback (.roundDone _ loop) => Kept P loop.body
  | .callback (.bodyDone _ _) => True
  | .callback (.announce _) => False

def EndHook.Keeps (P : Event → Prop) : EndHook → Prop
  | .vanish => True
  | .resume stash => ∀ item ∈ stash, item.Keeps P
  | .announce _ _ => False

structure Level.Keeps (P : Event → Prop) (level : Level) : Prop where
  handlers : ∀ key handler, level.handlers.get? key = some handler → handler.Keeps P
  onEnd : ∀ hook, level.onEnd = some hook → hook.Keeps P

/-- What a capture gathers is a body as far as it has come. -/
def Capture.Keeps (engine : Engine) (P : Event → Prop) : Capture → Prop
  | .firstText _ use => use.Directs
  | .subLevel _ _ _ .drop => True
  | .subLevel depth discard buffer (.loop _ _ _) =>
    discard = false ∧ (∀ event ∈ buffer, P event) ∧
      ∃ names, unclosed [] buffer = some names ∧ names.length = depth
  | .subLevel depth discard buffer (.register _ _) =>
    discard = false ∧ (∀ event ∈ buffer, P event) ∧
      ∃ names, unclosed [] buffer = some names ∧ names.length = depth
  | .subLevel _ _ _ .through =>
    ∃ name, P (.start name) ∧ engine.options.classify name = .directive .through
  | .subLevel _ _ _ (.report _) => False

/-! ## Levels -/

/-- All levels have a property. -/
def Levels.All (Q : Level → Prop) (levels : Levels) : Prop :=
  ∀ level ∈ levels.toList, Q level

namespace Levels.All

variable {Q : Level → Prop} {levels : Levels}

theorem push (h : levels.All Q) {tag : String} (hnew : Q ⟨some tag, {}, none⟩) :
    (levels.push tag).All Q := by
  intro level hlevel
  rcases List.mem_cons.1 hlevel with rfl | houter
  · exact hnew
  · exact h level houter

theorem of_pop? (h : levels.All Q) {level : Level} {outer : Levels}
    (hpop : levels.pop? = some (level, outer)) : Q level ∧ outer.All Q := by
  rcases levels with ⟨current, _ | ⟨next, around⟩⟩
  · simp [Levels.pop?] at hpop
  · obtain ⟨rfl, rfl⟩ := Prod.mk.inj (Option.some.inj hpop)
    exact ⟨h _ List.mem_cons_self, fun other hother => h other (List.mem_cons_of_mem _ hother)⟩

theorem withCurrent (h : levels.All Q) {level : Level} (hlevel : Q level) :
    ({ levels with current := level } : Levels).All Q := by
  intro other hother
  rcases List.mem_cons.1 hother with rfl | houter
  · exact hlevel
  · exact h other (List.mem_cons_of_mem _ houter)

end Levels.All

theorem Level.Keeps.fresh (tag : Option String) : Level.Keeps P ⟨tag, {}, none⟩ := by
  refine ⟨?_, fun hook hhook => by simp at hhook⟩
  intro key handler hhandler
  have hnone : (Table.empty : Table Handler).get? key = some handler := hhandler
  simp at hnone

theorem Level.Keeps.put {level : Level} (h : level.Keeps P) (key : String) {handler : Handler}
    (hhandler : handler.Keeps P) :
    Level.Keeps P { level with handlers := level.handlers.put key handler } := by
  refine ⟨?_, h.onEnd⟩
  intro other found hfound
  have hput : (level.handlers.put key handler).get? other = some found := hfound
  rw [Table.get?_put] at hput
  split at hput
  · exact Option.some.inj hput ▸ hhandler
  · exact h.handlers other found hput

theorem Levels.All.lookup {levels : Levels} (h : levels.All (Level.Keeps P)) {keys : List String}
    {handler : Handler} (hlookup : levels.lookup keys = some handler) : handler.Keeps P := by
  obtain ⟨key, -, hkey⟩ := List.exists_of_findSome?_eq_some hlookup
  obtain ⟨level, hlevel, hget⟩ := List.exists_of_findSome?_eq_some hkey
  exact (h level hlevel).handlers key handler hget

/-! ## States -/

/-- All that is stored in the state comes from a stream of such events. -/
structure Engine.Keeps (engine : Engine) (P : Event → Prop) (s : State) : Prop where
  queue : ∀ item ∈ s.queue, item.Keeps P
  levels : s.levels.All (Level.Keeps P)
  captures : ∀ capture ∈ s.captures, capture.Keeps engine P

namespace Engine

variable {engine : Engine} {s t : State}

theorem Keeps.fresh (engine : Engine) (P : Event → Prop) (scope : Scope) :
    engine.Keeps P { scope } := by
  refine ⟨by simp, ?_, by simp⟩
  intro level hlevel
  rw [List.mem_singleton.1 hlevel]
  exact .fresh none

namespace Keeps

theorem congr (h : engine.Keeps P s) (hqueue : t.queue = s.queue) (hlevels : t.levels = s.levels)
    (hcaptures : t.captures = s.captures) : engine.Keeps P t :=
  ⟨hqueue ▸ h.queue, hlevels ▸ h.levels, hcaptures ▸ h.captures⟩

theorem withQueue (h : engine.Keeps P s) {queue : Queue}
    (hqueue : ∀ item ∈ queue, item.Keeps P) : engine.Keeps P { s with queue } :=
  { h with queue := hqueue }

theorem withLevels (h : engine.Keeps P s) {levels : Levels}
    (hlevels : levels.All (Level.Keeps P)) : engine.Keeps P { s with levels } :=
  { h with levels := hlevels }

theorem push (h : engine.Keeps P s) (tag : String) :
    engine.Keeps P { s with levels := s.levels.push tag } :=
  h.withLevels (h.levels.push (.fresh (some tag)))

theorem withCaptures (h : engine.Keeps P s) {captures : List Capture}
    (hcaptures : ∀ capture ∈ captures, capture.Keeps engine P) :
    engine.Keeps P { s with captures } :=
  { h with captures := hcaptures }

theorem capture (h : engine.Keeps P s) (capture : Capture) (hcapture : capture.Keeps engine P) :
    engine.Keeps P { s with captures := capture :: s.captures } :=
  h.withCaptures (List.forall_mem_cons.2 ⟨hcapture, h.captures⟩)

theorem setOnEnd (h : engine.Keeps P s) {hook : EndHook} (hhook : hook.Keeps P) :
    engine.Keeps P (s.setOnEnd hook) := by
  refine h.withLevels (h.levels.withCurrent ⟨(h.levels _ List.mem_cons_self).handlers, ?_⟩)
  rintro other hother
  exact Option.some.inj hother ▸ hhook

theorem playBuffer (h : engine.Keeps P s) {body : List Event} (hbody : Kept P body)
    (callback : Callback) (hcallback : (Queued.callback callback).Keeps P) :
    engine.Keeps P (s.playBuffer body callback) := by
  refine h.withQueue ?_
  intro item hitem
  rcases List.mem_append.1 hitem with hevent | hrest
  · obtain ⟨event, hmem, rfl⟩ := List.mem_map.1 hevent
    exact hbody.2 event hmem
  · rcases List.mem_cons.1 hrest with rfl | hbehind
    · exact hcallback
    · exact h.queue item hbehind

theorem play (h : engine.Keeps P s) (loop : Loop) (hbody : Kept P loop.body) :
    engine.Keeps P (loop.play s) := by
  unfold Loop.play
  cases loop.left with
  | nil => exact h
  | cons item left =>
    have hinstalled : engine.Keeps P (s.install ((loop.item, item) ::
        loop.index.toList.map fun name => (name, Value.num (Float.ofNat loop.round)))).2 :=
      h.congr rfl rfl rfl
    exact hinstalled.playBuffer hbody _ hbody

theorem forward (h : engine.Keeps P s) (keys : List String) (event : Event) :
    engine.Keeps P (s.forward keys event) := by
  unfold State.forward
  rcases hlookup : s.levels.lookup keys with _ | (⟨body, binding⟩ | first)
  · exact h.congr rfl rfl rfl
  · have hbody : Kept P body := h.levels.lookup hlookup
    have hinstalled : engine.Keeps P ({ s with markers := s.markers.push s.queue.length }.install
        (("_", event.selected) :: binding.toList.map fun name => (name, event.selected))).2 :=
      h.congr rfl rfl rfl
    exact hinstalled.playBuffer hbody (.bodyDone _ event.isStart) trivial
  · exact (h.levels.lookup hlookup).elim

theorem letThrough (h : engine.Keeps P s) : engine.Keeps P s.letThrough := by
  unfold State.letThrough
  rcases s.markers.claim with misuse | ⟨queueLength, markers⟩
  · exact h.congr rfl rfl rfl
  · refine setOnEnd (s := { s with queue := _, markers }) ?_ ?_
    · refine (h.congr (t := { s with markers }) rfl rfl rfl).withQueue ?_
      exact fun item hitem => h.queue item (List.mem_of_mem_drop hitem)
    · exact fun item hitem => h.queue item (List.mem_of_mem_take hitem)

theorem shiftLevel (h : engine.Keeps P s) {close : LevelClose}
    (hshift : s.shiftLevel = .ok (close, t)) : engine.Keeps P t := by
  obtain ⟨level, outer, hpop, hcases⟩ := State.shiftLevel_cases hshift
  obtain ⟨hlevel, houter⟩ := h.levels.of_pop? hpop
  rcases hcases with ⟨-, -, rfl⟩ | ⟨hook, hhook, hrun⟩
  · exact h.withLevels houter
  · have hkept := hlevel.onEnd hook hhook
    cases hook with
    | vanish =>
      obtain ⟨-, rfl⟩ := Prod.mk.inj hrun
      exact h.withLevels houter
    | resume stash =>
      obtain ⟨-, rfl⟩ := Prod.mk.inj hrun
      refine (h.withLevels houter).withQueue ?_
      exact fun item hitem => (List.mem_append.1 hitem).elim (hkept item) (h.queue item)
    | announce event close' => exact hkept.elim

theorem run_body (h : engine.Keeps P s) {depth : Int} {discard : Bool} {buffer : List Event}
    {use : BodyUse} {event : Event} (hcapture : (Capture.subLevel depth discard buffer use).Keeps
      engine P) (hdepth : depth + Capture.shift event < 0) : engine.Keeps P (use.run buffer s) := by
  have hbody : (∃ names, unclosed [] buffer = some names ∧ (names.length : Int) = depth) →
      Balanced buffer := by
    rintro ⟨names, hnames, rfl⟩
    have hnil : names.length = 0 := by
      cases event <;> simp only [Capture.shift] at hdepth <;> omega
    rw [List.length_eq_zero_iff.1 hnil] at hnames
    exact (balanced_iff_unclosed buffer).2 hnames
  cases use with
  | drop => exact h
  | loop item index items =>
    have hkept : Kept P buffer := ⟨hbody hcapture.2.2, hcapture.2.1⟩
    exact h.play ⟨item, index, buffer, 0, items⟩ hkept
  | register selector binding =>
    refine h.withLevels (h.levels.withCurrent ?_)
    exact (h.levels _ List.mem_cons_self).put _ ⟨hbody hcapture.2.2, hcapture.2.1⟩
  | through => exact h.letThrough
  | report tag => exact hcapture.elim

theorem callback (h : engine.Keeps P s) {callback : Callback}
    (hcallback : (Queued.callback callback).Keeps P) : engine.Keeps P (callback.run s) := by
  cases callback with
  | roundDone overlay loop =>
    exact play (s := s.release overlay) (h.congr rfl rfl rfl) loop hcallback
  | bodyDone overlay selectedStart =>
    simp only [Callback.run]
    split
    · exact capture (s := { s.release overlay with markers := _ }) (h.congr rfl rfl rfl)
        (.subLevel 0 true [] .drop) trivial
    · exact h.congr rfl rfl rfl
  | announce event => exact hcallback.elim

theorem continues (h : engine.Keeps P s) {use : TextUse} (hcontinues : engine.Continues use s t) :
    engine.Keeps P t := by
  cases hcontinues with
  | done scope log shown hscope hshown => exact h.congr rfl rfl rfl
  | vanish scope log hscope =>
    exact setOnEnd (s := { s with scope, log }) (h.congr rfl rfl rfl) trivial
  | dropped scope log contents hscope =>
    exact capture (s := { s with scope, log, output := _ }) (h.congr rfl rfl rfl)
      (.subLevel 0 true [] .drop) trivial
  | loop scope log item index items hscope =>
    exact capture (s := { s with scope, log }) (h.congr rfl rfl rfl)
      (.subLevel 0 false [] (.loop item index items)) ⟨rfl, by simp, [], rfl, rfl⟩
  | register selector binding =>
    exact h.capture (.subLevel 0 false [] (.register selector binding))
      ⟨rfl, by simp, [], rfl, rfl⟩

theorem gather {depth : Int} {discard : Bool} {buffer : List Event} {use : BodyUse} {event : Event}
    (h : (Capture.subLevel depth discard buffer use).Keeps engine P) (hevent : P event)
    (hdepth : 0 ≤ depth + Capture.shift event) :
    (Capture.subLevel (depth + Capture.shift event) discard
      (if discard then buffer else buffer ++ [event]) use).Keeps engine P := by
  have hmore : (discard = false ∧ (∀ event ∈ buffer, P event) ∧
        ∃ names, unclosed [] buffer = some names ∧ (names.length : Int) = depth) →
      discard = false ∧ (∀ event' ∈ if discard then buffer else buffer ++ [event], P event') ∧
        ∃ names, unclosed [] (if discard then buffer else buffer ++ [event]) = some names ∧
          (names.length : Int) = depth + Capture.shift event := by
    rintro ⟨rfl, hbuffer, names, hnames, rfl⟩
    refine ⟨rfl, ?_, ?_⟩
    · simpa [or_imp, forall_and] using ⟨hbuffer, hevent⟩
    · simp only [Bool.false_eq_true, if_false, unclosed_append, hnames, Option.bind_some]
      cases event with
      | start name => exact ⟨name :: names, rfl, by simp [Capture.shift]⟩
      | close =>
        cases names with
        | nil => simp [Capture.shift] at hdepth
        | cons name names =>
          exact ⟨names, rfl, by simp only [Capture.shift, List.length_cons]; omega⟩
      | text content => exact ⟨names, rfl, by simp [Capture.shift]⟩
      | attr name value => exact ⟨names, rfl, by simp [Capture.shift]⟩
  cases use with
  | drop => trivial
  | loop item index items => exact hmore h
  | register selector binding => exact hmore h
  | through => exact h
  | report tag => exact h.elim

theorem forwards (h : engine.Keeps P s) {event : Event} {keys : List String}
    (hforwards : engine.Forwards event s keys t) : engine.Keeps P t := by
  cases hforwards with
  | @element name _ htag => exact h.push name
  | @unknown name _ htag => exact (h.push name).congr rfl rfl rfl
  | close hshift => exact h.shiftLevel hshift
  | text => exact h
  | attr => exact h

theorem moves (h : engine.Keeps P s) {event : Event} (hevent : P event)
    (hmoves : engine.Moves event s t) : engine.Keeps P t := by
  cases hmoves with
  | forwarded hcaptures hforwards => exact (h.forwards hforwards).forward _ _
  | suppressed hcaptures hshift => exact h.shiftLevel hshift
  | @asked name use _ hcaptures huse =>
    exact (h.push name).capture (.firstText "" use) huse
  | @skipped name use log _ hcaptures huse =>
    refine capture (s := { s with levels := s.levels.push name, log })
      ((h.push name).congr rfl rfl rfl) (.subLevel 0 true [] use) ?_
    rcases huse with rfl | ⟨rfl, htag⟩
    · trivial
    · exact ⟨name, hevent, htag⟩
  | heard hcaptures hshift text' =>
    obtain ⟨hfirst, hothers⟩ := List.forall_mem_cons.1 (hcaptures ▸ h.captures)
    exact h.withCaptures (List.forall_mem_cons.2 ⟨hfirst, hothers⟩)
  | @continued event text use captures _ hcaptures hshift =>
    obtain ⟨-, hothers⟩ := List.forall_mem_cons.1 (hcaptures ▸ h.captures)
    refine continues ?_ (useText_continues engine use text _)
    exact ⟨List.forall_mem_cons.2 ⟨hevent, h.queue⟩, h.levels, hothers⟩
  | gathered hcaptures hdepth =>
    obtain ⟨hfirst, hothers⟩ := List.forall_mem_cons.1 (hcaptures ▸ h.captures)
    exact h.withCaptures (List.forall_mem_cons.2 ⟨gather hfirst hevent hdepth, hothers⟩)
  | @completed event depth discard buffer use captures close _ closed hcaptures hdepth hshift =>
    obtain ⟨hfirst, hothers⟩ := List.forall_mem_cons.1 (hcaptures ▸ h.captures)
    have hclosed := (h.withCaptures hothers).shiftLevel hshift
    exact hclosed.run_body hfirst hdepth

/-- Where no element lets anything through, no capture waits to do so. -/
theorem without_through (h : engine.Keeps P s)
    (hnone : ∀ name, P (.start name) → engine.options.classify name ≠ .directive .through)
    {depth : Int} {discard : Bool} {buffer : List Event} {use : BodyUse}
    (hcapture : .subLevel depth discard buffer use ∈ s.captures) : use ≠ .through := by
  rintro rfl
  obtain ⟨name, hname, htag⟩ := h.captures _ hcapture
  exact hnone name hname htag

end Keeps

/-- What is stored after a step was stored before. -/
theorem step_keeps (h : engine.Keeps P s) {item : Queued} (hitem : item.Keeps P)
    (hstep : engine.step item s = (.ok (), t)) : engine.Keeps P t := by
  cases item with
  | event event => exact h.moves hitem (moves_of_step hstep)
  | callback callback =>
    obtain ⟨-, rfl⟩ := Prod.mk.inj hstep
    exact h.callback hitem

end Engine
end TreeStream
