import TreeStream.Event

/-!
# Forests

A stream of events is a walk through a forest.  Here are the forests themselves, and which sequences
of events are walks.

* `Forest` and its walk `Forest.events`; `Forest.argument` and `Forest.body` are the text at the
  beginning of a forest and what follows it.
* `Closes depth events`: the events close `depth` elements that were opened before them.
* `balanced_iff_exists_forest`: the balanced sequences are the walks of forests.
-/

namespace TreeStream
set_option autoImplicit false

/-- A forest in document order: what stands first, and the rest. -/
inductive Forest where
  | nil
  | text (content : String) (rest : Forest)
  | attr (name value : String) (rest : Forest)
  | element (name : String) (children rest : Forest)
deriving Repr, DecidableEq, Inhabited

namespace Forest

/-- The walk through a forest. -/
def events : Forest → List Event
  | nil => []
  | text content rest => .text content :: rest.events
  | attr name value rest => .attr name value :: rest.events
  | element name children rest => .start name :: (children.events ++ .close :: rest.events)

def names : Forest → List String
  | nil => []
  | text _ rest => rest.names
  | attr _ _ rest => rest.names
  | element name children rest => name :: (children.names ++ rest.names)

def lead : Forest → List Event
  | nil => []
  | text content rest => .text content :: rest.lead
  | attr name value rest => .attr name value :: rest.lead
  | element _ _ _ => []

/-- The text before the first element; attributes do not count. -/
def argument : Forest → String
  | nil => ""
  | text content rest => content ++ rest.argument
  | attr _ _ rest => rest.argument
  | element _ _ _ => ""

def body : Forest → Forest
  | nil => nil
  | text _ rest => rest.body
  | attr _ _ rest => rest.body
  | element name children rest => element name children rest

theorem events_eq_lead_append (forest : Forest) :
    forest.events = forest.lead ++ forest.body.events := by
  induction forest with
  | nil => rfl
  | text content rest ih => simp [events, lead, body, ih]
  | attr name value rest ih => simp [events, lead, body, ih]
  | element name children rest => rfl

theorem names_body (forest : Forest) : forest.body.names = forest.names := by
  induction forest with
  | nil => rfl
  | text content rest ih => simpa [names, body] using ih
  | attr name value rest ih => simpa [names, body] using ih
  | element name children rest => rfl

theorem sizeOf_body_le (forest : Forest) : sizeOf forest.body ≤ sizeOf forest := by
  induction forest with
  | nil => exact Nat.le_refl _
  | text content rest ih =>
    have hsize : sizeOf (text content rest) = 1 + sizeOf content + sizeOf rest := rfl
    simp only [body]
    omega
  | attr name value rest ih =>
    have hsize : sizeOf (attr name value rest) = 1 + sizeOf name + sizeOf value + sizeOf rest := rfl
    simp only [body]
    omega
  | element name children rest => exact Nat.le_refl _

theorem sizeOf_body_lt (name : String) (children rest : Forest) :
    sizeOf children.body < sizeOf (element name children rest) := by
  have hbody := children.sizeOf_body_le
  have hsize : sizeOf (element name children rest) =
      1 + sizeOf name + sizeOf children + sizeOf rest := rfl
  omega

theorem body_cases (forest : Forest) :
    forest.body = nil ∨ ∃ name children rest, forest.body = element name children rest := by
  induction forest with
  | nil => exact .inl rfl
  | text content rest ih => exact ih
  | attr name value rest ih => exact ih
  | element name children rest => exact .inr ⟨name, children, rest, rfl⟩

end Forest

/-! ## Balance -/

/-- The events close `depth` elements that were opened before them, and all those that they open
themselves. -/
def Closes : Nat → List Event → Prop
  | depth, [] => depth = 0
  | depth, event :: events =>
    match event, depth with
    | .start _, depth => Closes (depth + 1) events
    | .close, 0 => False
    | .close, depth + 1 => Closes depth events
    | .text _, depth => Closes depth events
    | .attr _ _, depth => Closes depth events

def Balanced (events : List Event) : Prop :=
  Closes 0 events

@[simp] theorem closes_nil (depth : Nat) : Closes depth [] ↔ depth = 0 := Iff.rfl

@[simp] theorem closes_start (depth : Nat) (name : String) (events : List Event) :
    Closes depth (.start name :: events) ↔ Closes (depth + 1) events := Iff.rfl

@[simp] theorem not_closes_zero_close (events : List Event) : ¬ Closes 0 (.close :: events) := id

@[simp] theorem closes_succ_close (depth : Nat) (events : List Event) :
    Closes (depth + 1) (.close :: events) ↔ Closes depth events := Iff.rfl

@[simp] theorem closes_text (depth : Nat) (content : String) (events : List Event) :
    Closes depth (.text content :: events) ↔ Closes depth events := Iff.rfl

@[simp] theorem closes_attr (depth : Nat) (name value : String) (events : List Event) :
    Closes depth (.attr name value :: events) ↔ Closes depth events := Iff.rfl

theorem Closes.append {inner outer : Nat} {before after : List Event} (h1 : Closes inner before)
    (h2 : Closes outer after) : Closes (inner + outer) (before ++ after) := by
  induction before generalizing inner with
  | nil =>
    have hinner : inner = 0 := h1
    simpa [hinner] using h2
  | cons event before ih =>
    cases event with
    | start name =>
      have hopen : Closes (inner + 1 + outer) (before ++ after) := ih h1
      have hdepth : inner + 1 + outer = inner + outer + 1 := by omega
      rw [hdepth] at hopen
      exact hopen
    | close =>
      cases inner with
      | zero => exact h1.elim
      | succ inner =>
        have hdepth : inner + 1 + outer = inner + outer + 1 := by omega
        rw [hdepth]
        exact ih h1
    | text content => exact ih h1
    | attr name value => exact ih h1

/-- What closes `inner` elements, then one more, then `outer` others, can be cut at the close of the
one in between. -/
theorem Closes.split {inner outer : Nat} {events : List Event}
    (h : Closes (inner + (outer + 1)) events) :
    ∃ before after, events = before ++ .close :: after ∧ Closes inner before ∧
      Closes outer after := by
  induction events generalizing inner with
  | nil => exact absurd h (by simp)
  | cons event events ih =>
    cases event with
    | start name =>
      have hdepth : inner + (outer + 1) + 1 = inner + 1 + (outer + 1) := by omega
      rw [closes_start, hdepth] at h
      obtain ⟨before, after, rfl, hbefore, hafter⟩ := ih h
      exact ⟨.start name :: before, after, rfl, hbefore, hafter⟩
    | close =>
      cases inner with
      | zero =>
        rw [Nat.zero_add] at h
        exact ⟨[], events, rfl, rfl, h⟩
      | succ inner =>
        have hdepth : inner + 1 + (outer + 1) = inner + (outer + 1) + 1 := by omega
        rw [hdepth, closes_succ_close] at h
        obtain ⟨before, after, rfl, hbefore, hafter⟩ := ih h
        exact ⟨.close :: before, after, rfl, hbefore, hafter⟩
    | text content =>
      obtain ⟨before, after, rfl, hbefore, hafter⟩ := ih h
      exact ⟨.text content :: before, after, rfl, hbefore, hafter⟩
    | attr name value =>
      obtain ⟨before, after, rfl, hbefore, hafter⟩ := ih h
      exact ⟨.attr name value :: before, after, rfl, hbefore, hafter⟩

theorem Forest.balanced_events (forest : Forest) : Balanced forest.events := by
  induction forest with
  | nil => rfl
  | text content rest ih => exact ih
  | attr name value rest ih => exact ih
  | element name children rest ihchildren ihrest =>
    have hclose : Closes 1 (.close :: rest.events) := ihrest
    have hall : Closes (0 + 1) (children.events ++ .close :: rest.events) :=
      Closes.append ihchildren hclose
    exact hall

theorem exists_forest_of_balanced (events : List Event) (h : Balanced events) :
    ∃ forest : Forest, forest.events = events := by
  match events, h with
  | [], _ => exact ⟨.nil, rfl⟩
  | .text content :: events, h =>
    obtain ⟨rest, hrest⟩ := exists_forest_of_balanced events h
    exact ⟨.text content rest, by simp [Forest.events, hrest]⟩
  | .attr name value :: events, h =>
    obtain ⟨rest, hrest⟩ := exists_forest_of_balanced events h
    exact ⟨.attr name value rest, by simp [Forest.events, hrest]⟩
  | .start name :: events, h =>
    have hopen : Closes (0 + (0 + 1)) events := h
    -- Neither half is a tail of the list, so the recursion is on the length.
    obtain ⟨inner, after, hsplit, hinner, hafter⟩ := Closes.split hopen
    have hshorter : inner.length + after.length < events.length := by
      rw [hsplit, List.length_append, List.length_cons]
      omega
    obtain ⟨children, hchildren⟩ := exists_forest_of_balanced inner hinner
    obtain ⟨rest, hrest⟩ := exists_forest_of_balanced after hafter
    exact ⟨.element name children rest, by simp [Forest.events, hchildren, hrest, hsplit]⟩
termination_by events.length

theorem balanced_iff_exists_forest (events : List Event) :
    Balanced events ↔ ∃ forest : Forest, forest.events = events := by
  constructor
  · exact exists_forest_of_balanced events
  · rintro ⟨forest, rfl⟩
    exact forest.balanced_events

end TreeStream
