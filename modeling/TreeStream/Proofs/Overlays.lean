import TreeStream.Scope

/-!
# Overlays come off without a trace

* `Scope.get?_putAll_of_notMem`: bindings touch only their own names.
* `Scope.get?_restored`: going back through an overlay answers the remembered values.
* `Scope.release_install`: releasing an overlay right after installing it gives the scope back.
-/

namespace TreeStream
set_option autoImplicit false

namespace Scope

theorem get?_putAll_of_notMem (vars : Vars) (bindings : List (String × Value)) (name : String)
    (h : name ∉ bindings.map Prod.fst) : (vars.putAll bindings).get? name = vars.get? name := by
  induction bindings generalizing vars with
  | nil => rfl
  | cons binding bindings ih =>
    have hother : ¬ binding.1 = name := fun heq => h (by simp [heq])
    have hrest : name ∉ bindings.map Prod.fst := fun hmem => h (by simp [hmem])
    have hput : (vars.put binding.1 binding.2).get? name = vars.get? name := by
      rw [Table.get?_put, if_neg hother]
    exact (ih (vars.put binding.1 binding.2) hrest).trans hput

theorem get?_putAll_of_mem (vars : Vars) {bindings : List (String × Value)} {name : String}
    (h : name ∈ bindings.map Prod.fst) : (vars.putAll bindings).get? name ≠ none := by
  induction bindings generalizing vars with
  | nil => simp at h
  | cons binding bindings ih =>
    by_cases hbindings : name ∈ bindings.map Prod.fst
    · exact ih (vars.put binding.1 binding.2) hbindings
    · have hbinding : binding.1 = name := by
        rw [List.map_cons, List.mem_cons] at h
        exact (h.resolve_right hbindings).symm
      have hrest := get?_putAll_of_notMem (vars.put binding.1 binding.2) bindings name hbindings
      rw [Table.get?_put, if_pos hbinding] at hrest
      intro hnone
      exact Option.some_ne_none _ (hrest.symm.trans hnone)

theorem get?_restore (vars : Vars) (saved : String × Option Value) (name : String) :
    (restore vars saved).get? name = if saved.1 = name then saved.2 else vars.get? name := by
  rcases saved with ⟨other, _ | value⟩
  · exact Table.get?_erase vars other name
  · exact Table.get?_put vars other name value

/-- Going back through the remembered values of some names answers those values, and leaves all
other names alone. -/
theorem get?_restored (vars : Vars) (before : Scope) (names : List String) (name : String) :
    ((names.map fun name => (name, before.get? name)).foldl restore vars).get? name =
      if name ∈ names then before.get? name else vars.get? name := by
  induction names generalizing vars with
  | nil => simp
  | cons first names ih =>
    rw [List.map_cons, List.foldl_cons, ih, get?_restore]
    by_cases hname : name ∈ names
    · simp [hname]
    · by_cases hfirst : first = name
      · simp [hfirst]
      · simp [hname, hfirst, Ne.symm hfirst]

/-- Releasing an overlay right after installing it gives the scope back. -/
theorem release_install (scope : Scope) (bindings : List (String × Value)) :
    (scope.install bindings).2.release (scope.install bindings).1 = scope := by
  have hvars : ((scope.install bindings).2.release (scope.install bindings).1).vars =
      scope.vars := by
    refine Table.ext_get? ?_
    intro name
    simp only [release, install, ← List.map_reverse]
    rw [get?_restored]
    by_cases hname : name ∈ bindings.map Prod.fst
    · have hmem : name ∈ (bindings.map Prod.fst).eraseDups.reverse := by
        simpa [List.mem_eraseDups] using hname
      rw [if_pos hmem]
      rfl
    · have hmem : name ∉ (bindings.map Prod.fst).eraseDups.reverse := by
        simpa [List.mem_eraseDups] using hname
      rw [if_neg hmem, get?_putAll_of_notMem scope.vars bindings name hname]
  exact congrArg (fun vars => Scope.mk vars scope.overlays) hvars

end Scope
end TreeStream
