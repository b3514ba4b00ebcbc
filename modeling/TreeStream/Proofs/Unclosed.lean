import TreeStream.Proofs.Forest

/-!
# What a stream leaves open

A stream that has not come to its end leaves elements open.  Streams that close more than they open
leave nothing that makes sense.

* `unclosed opened events`: the names of the elements that are open after the events.
* `unclosed_append` reads a stream in pieces; `unclosed_balanced` passes over balanced pieces.
* `closes_iff_unclosed`: to close everything is to leave nothing open.
* `Admissible events`: nowhere have more elements been closed than opened; `admissible_iff` says so
  with names.
-/

namespace TreeStream
set_option autoImplicit false

/-- The names of the elements that are open after the events, innermost first, when `opened` were
open before.  There is no answer if the events close more than that. -/
def unclosed : List String → List Event → Option (List String)
  | opened, [] => some opened
  | opened, .start name :: events => unclosed (name :: opened) events
  | [], .close :: _ => none
  | _ :: opened, .close :: events => unclosed opened events
  | opened, .text _ :: events => unclosed opened events
  | opened, .attr _ _ :: events => unclosed opened events

/-- Nowhere have more elements been closed than opened. -/
def Admissible (events : List Event) : Prop :=
  ∀ front, front <+: events → front.count .close ≤ front.countP Event.isStart

theorem unclosed_append (opened : List String) (before after : List Event) :
    unclosed opened (before ++ after) =
      (unclosed opened before).bind fun names => unclosed names after := by
  induction before generalizing opened with
  | nil => rfl
  | cons event before ih =>
    cases event with
    | start name => exact ih (name :: opened)
    | close =>
      cases opened with
      | nil => rfl
      | cons name opened => exact ih opened
    | text content => exact ih opened
    | attr name value => exact ih opened

theorem unclosed_forest (opened : List String) (forest : Forest) :
    unclosed opened forest.events = some opened := by
  induction forest generalizing opened with
  | nil => rfl
  | text content rest ih => exact ih opened
  | attr name value rest ih => exact ih opened
  | element name children rest ihchildren ihrest =>
    rw [Forest.events, unclosed, unclosed_append, ihchildren]
    exact ihrest opened

theorem unclosed_balanced (opened : List String) {events : List Event} (h : Balanced events) :
    unclosed opened events = some opened := by
  obtain ⟨forest, rfl⟩ := exists_forest_of_balanced events h
  exact unclosed_forest opened forest

theorem closes_iff_unclosed (opened : List String) (events : List Event) :
    Closes opened.length events ↔ unclosed opened events = some [] := by
  induction events generalizing opened with
  | nil => simp [unclosed]
  | cons event events ih =>
    cases event with
    | start name => exact ih (name :: opened)
    | close =>
      cases opened with
      | nil => simp [unclosed]
      | cons name opened => exact ih opened
    | text content => exact ih opened
    | attr name value => exact ih opened

theorem balanced_iff_unclosed (events : List Event) :
    Balanced events ↔ unclosed [] events = some [] :=
  closes_iff_unclosed [] events

/-- Elements are open as many as have been opened and not closed. -/
theorem length_unclosed {opened names : List String} {events : List Event}
    (h : unclosed opened events = some names) :
    names.length + events.count .close = opened.length + events.countP Event.isStart := by
  induction events generalizing opened with
  | nil =>
    obtain rfl : opened = names := Option.some.inj h
    rfl
  | cons event events ih =>
    cases event with
    | start name =>
      have hrest := @ih (name :: opened) h
      simp [List.countP_cons, Event.isStart] at hrest ⊢
      omega
    | close =>
      cases opened with
      | nil => simp [unclosed] at h
      | cons name opened =>
        have hrest := @ih opened h
        simp [Event.isStart] at hrest ⊢
        omega
    | text content => simpa [List.countP_cons, Event.isStart] using @ih opened h
    | attr name value => simpa [List.countP_cons, Event.isStart] using @ih opened h

/-- There is no answer only if something is closed when nothing is open. -/
theorem exists_close_of_unclosed_eq_none {opened : List String} {events : List Event}
    (h : unclosed opened events = none) :
    ∃ front behind, events = front ++ .close :: behind ∧ unclosed opened front = some [] := by
  induction events generalizing opened with
  | nil => simp [unclosed] at h
  | cons event events ih =>
    have hlater : ∀ opened', unclosed opened' events = none →
        (∀ front, unclosed opened (event :: front) = unclosed opened' front) →
        ∃ front behind, event :: events = front ++ .close :: behind ∧
          unclosed opened front = some [] := by
      intro opened' hnone hsame
      obtain ⟨front, behind, hevents, hempty⟩ := ih hnone
      exact ⟨event :: front, behind, by simp [hevents], (hsame front).trans hempty⟩
    cases event with
    | start name => exact hlater (name :: opened) h fun _ => rfl
    | close =>
      cases opened with
      | nil => exact ⟨[], events, rfl, rfl⟩
      | cons name opened => exact hlater opened h fun _ => rfl
    | text content => exact hlater opened h fun _ => rfl
    | attr name value => exact hlater opened h fun _ => rfl

theorem admissible_iff (events : List Event) :
    Admissible events ↔ ∃ names, unclosed [] events = some names := by
  constructor
  · intro h
    rcases hnames : unclosed [] events with _ | names
    · obtain ⟨front, behind, rfl, hfront⟩ := exists_close_of_unclosed_eq_none hnames
      have hcount := length_unclosed hfront
      have hmore := h (front ++ [.close]) (by simp)
      simp [Event.isStart] at hcount hmore
      omega
    · exact ⟨names, rfl⟩
  · rintro ⟨names, hnames⟩ front ⟨behind, rfl⟩
    rw [unclosed_append] at hnames
    obtain ⟨between, hbetween, -⟩ := Option.bind_eq_some_iff.1 hnames
    have hcount := length_unclosed hbetween
    simp only [List.length_nil] at hcount
    omega

end TreeStream
