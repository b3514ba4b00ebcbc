import Mathlib.Data.List.Forall2
import TreeStream.Proofs.Overlays

/-!
# Overlays that nest

Several overlays may be installed over a scope, and variables are set in between.  As long as
overlays that bind one name are released in the opposite order of their installation, nothing of
them is left: what counts in the end is what was set where no overlay bound the name.

* `Scope.Act` is what is done with a scope, and `Scope.Act.run?` does it.
* `Scope.Nests`: the overlays are all released, and those that share a name nest.
* `Scope.lasting`: what is set of names that no overlay binds.
* `Scope.releaseAll`: what is left of a scope when its overlays are released, which no act on an
  overlay changes (`Scope.releaseAll_release`, `Scope.release_install`).
* `Scope.overlays_restore`: in the end the scope is the one at the beginning, with what lasts.
-/

namespace TreeStream
set_option autoImplicit false

/-- The names that an overlay remembers. -/
def Overlay.names (overlay : Overlay) : List String :=
  overlay.saved.map Prod.fst

namespace Scope

/-! ## Acts -/

/-- What is done with a scope.  An overlay has a number, by which it is released. -/
inductive Act where
  | set (name : String) (value : Value)
  | install (number : Nat) (bindings : List (String × Value))
  | release (number : Nat)

/-- A scope and the overlays that are installed over it, the last one first. -/
structure Overlaid where
  scope : Scope
  held : List (Nat × Overlay) := []

/-- Does one thing; only an overlay that is held can be released. -/
def Act.run? : Act → Overlaid → Option Overlaid
  | .set name value, s => some { s with scope := s.scope.set name value }
  | .install number bindings, s =>
    some ⟨(s.scope.install bindings).2, (number, (s.scope.install bindings).1) :: s.held⟩
  | .release number, s =>
    match s.held.lookup number with
    | none => none
    | some overlay => some ⟨s.scope.release overlay, s.held.eraseP fun held => held.1 = number⟩

/-- Does one thing after the other. -/
def runAll? : List Act → Overlaid → Option Overlaid
  | [], s => some s
  | act :: rest, s => (act.run? s).bind (runAll? rest)

/-- An overlay as a trace of acts shows it: its number and the names that it binds. -/
abbrev Cover := Nat × List String

/-- The overlays behind an act, the last one first. -/
def Act.cover : Act → List Cover → List Cover
  | .set _ _, covers => covers
  | .install number bindings, covers => (number, bindings.map Prod.fst) :: covers
  | .release number, covers => covers.eraseP fun cover => cover.1 = number

/-- Over a scope with some overlays, the last one first, acts release every overlay once, and an
overlay only when none that was installed later binds one of its names. -/
inductive Nests : List Cover → List Act → Prop
  | done : Nests [] []
  | set {covers : List Cover} {rest : List Act} {name : String} {value : Value}
      (hrest : Nests covers rest) : Nests covers (.set name value :: rest)
  | install {covers : List Cover} {rest : List Act} {number : Nat}
      {bindings : List (String × Value)} (hnumber : number ∉ covers.map Prod.fst)
      (hrest : Nests ((number, bindings.map Prod.fst) :: covers) rest) :
      Nests covers (.install number bindings :: rest)
  | release {later earlier : List Cover} {rest : List Act} {number : Nat} {names : List String}
      (hlater : ∀ cover ∈ later, ∀ name ∈ names, name ∉ cover.2)
      (hrest : Nests (later ++ earlier) rest) :
      Nests (later ++ (number, names) :: earlier) (.release number :: rest)

/-- What is set of names that no overlay binds at that time. -/
def lasting : List Cover → List Act → List (String × Value)
  | _, [] => []
  | covers, .set name value :: rest =>
    if ∃ cover ∈ covers, name ∈ cover.2 then lasting covers rest
    else (name, value) :: lasting covers rest
  | covers, act :: rest => lasting (act.cover covers) rest

/-! ## Releasing -/

variable {scope other : Scope} {name : String} {value : Value} {overlay : Overlay}

theorem ext_get? (hoverlays : scope.overlays = other.overlays)
    (h : ∀ name, scope.get? name = other.get? name) : scope = other := by
  have hvars : scope.vars = other.vars := Table.ext_get? h
  cases scope
  cases other
  simp_all

theorem get?_set (scope : Scope) (name other : String) (value : Value) :
    (scope.set name value).get? other = if name = other then some value else scope.get? other :=
  Table.get?_put scope.vars name other value

theorem get?_foldl_restore_of_notMem (vars : Vars) {saved : List (String × Option Value)}
    (h : name ∉ saved.map Prod.fst) : (saved.foldl restore vars).get? name = vars.get? name := by
  induction saved generalizing vars with
  | nil => rfl
  | cons first saved ih =>
    have hfirst : ¬ first.1 = name := fun heq => h (by simp [heq])
    have hsaved : name ∉ saved.map Prod.fst := fun hmem => h (List.mem_cons_of_mem _ hmem)
    rw [List.foldl_cons, ih _ hsaved, get?_restore, if_neg hfirst]

/-- A remembered name stands for the remembered value, whatever it stood for. -/
theorem get?_foldl_restore_congr {vars vars' : Vars} {saved : List (String × Option Value)}
    (h : name ∈ saved.map Prod.fst ∨ vars.get? name = vars'.get? name) :
    (saved.foldl restore vars).get? name = (saved.foldl restore vars').get? name := by
  induction saved generalizing vars vars' with
  | nil => exact h.resolve_left List.not_mem_nil
  | cons first saved ih =>
    apply ih
    rw [get?_restore, get?_restore]
    by_cases hfirst : first.1 = name
    · exact .inr (by rw [if_pos hfirst, if_pos hfirst])
    · rw [if_neg hfirst, if_neg hfirst]
      rw [List.map_cons, List.mem_cons] at h
      exact h.imp (fun hname => hname.resolve_left (Ne.symm hfirst)) id

theorem get?_release_of_notMem (scope : Scope) (h : name ∉ overlay.names) :
    (scope.release overlay).get? name = scope.get? name := by
  apply get?_foldl_restore_of_notMem
  rwa [List.map_reverse, List.mem_reverse]

theorem get?_release_congr (h : name ∈ overlay.names ∨ scope.get? name = other.get? name) :
    (scope.release overlay).get? name = (other.release overlay).get? name := by
  apply get?_foldl_restore_congr
  rwa [List.map_reverse, List.mem_reverse]

/-- Overlays that share no name can be released in any order. -/
theorem release_comm (scope : Scope) {first second : Overlay}
    (h : ∀ name ∈ first.names, name ∉ second.names) :
    (scope.release first).release second = (scope.release second).release first := by
  refine ext_get? rfl ?_
  intro name
  by_cases hfirst : name ∈ first.names
  · rw [get?_release_of_notMem _ (h name hfirst)]
    exact get?_release_congr (.inl hfirst)
  · rw [get?_release_of_notMem _ hfirst]
    exact get?_release_congr (.inr (get?_release_of_notMem scope hfirst))

/-- What is set under an overlay that binds the name is gone with the overlay. -/
theorem release_set (scope : Scope) (overlay : Overlay) (name : String) (value : Value) :
    (scope.set name value).release overlay =
      if name ∈ overlay.names then scope.release overlay
      else (scope.release overlay).set name value := by
  by_cases hname : name ∈ overlay.names
  · rw [if_pos hname]
    refine ext_get? rfl ?_
    intro other
    apply get?_release_congr
    by_cases hother : name = other
    · exact .inl (hother ▸ hname)
    · exact .inr (by rw [get?_set, if_neg hother])
  · rw [if_neg hname]
    refine ext_get? rfl ?_
    intro other
    rw [get?_set]
    by_cases hother : name = other
    · subst hother
      rw [get?_release_of_notMem _ hname, get?_set, if_pos rfl, if_pos rfl]
    · rw [if_neg hother]
      exact get?_release_congr (.inr (by rw [get?_set, if_neg hother]))

/-- What is left when overlays are released, the first one first. -/
def releaseAll : Scope → List (Nat × Overlay) → Scope
  | scope, [] => scope
  | scope, held :: rest => (scope.release held.2).releaseAll rest

theorem releaseAll_install (scope : Scope) (number : Nat) (bindings : List (String × Value))
    (held : List (Nat × Overlay)) :
    (scope.install bindings).2.releaseAll ((number, (scope.install bindings).1) :: held) =
      scope.releaseAll held := by
  rw [releaseAll, release_install]

theorem releaseAll_release (scope : Scope) {later : List (Nat × Overlay)}
    (earlier : List (Nat × Overlay)) (number : Nat)
    (h : ∀ held ∈ later, ∀ name ∈ overlay.names, name ∉ held.2.names) :
    (scope.release overlay).releaseAll (later ++ earlier) =
      scope.releaseAll (later ++ (number, overlay) :: earlier) := by
  induction later generalizing scope with
  | nil => rfl
  | cons first later ih =>
    simp only [List.cons_append, releaseAll]
    rw [release_comm scope (h first List.mem_cons_self)]
    exact ih (scope.release first.2) fun held hheld => h held (List.mem_cons_of_mem _ hheld)

theorem releaseAll_set (scope : Scope) (held : List (Nat × Overlay)) (name : String)
    (value : Value) :
    (scope.set name value).releaseAll held =
      if ∃ h ∈ held, name ∈ h.2.names then scope.releaseAll held
      else (scope.releaseAll held).set name value := by
  induction held generalizing scope with
  | nil => simp [releaseAll]
  | cons first held ih =>
    simp only [releaseAll, release_set, List.exists_mem_cons_iff]
    by_cases hfirst : name ∈ first.2.names
    · simp [hfirst]
    · simp only [hfirst, if_false, false_or, ih]

/-! ## The overlays that are held -/

/-- An overlay that is held is the one that the trace shows. -/
def Shows (held : Nat × Overlay) (cover : Cover) : Prop :=
  held.1 = cover.1 ∧ ∀ name, name ∈ held.2.names ↔ name ∈ cover.2

/-- The overlays that are held are those of the trace, and have different numbers. -/
structure Matches (held : List (Nat × Overlay)) (covers : List Cover) : Prop where
  shows : List.Forall₂ Shows held covers
  nodup : (covers.map Prod.fst).Nodup

variable {held : List (Nat × Overlay)} {covers later earlier : List Cover} {number : Nat}
variable {names : List String}

theorem shows_install (scope : Scope) (number : Nat) (bindings : List (String × Value)) :
    Shows (number, (scope.install bindings).1) (number, bindings.map Prod.fst) := by
  refine ⟨rfl, ?_⟩
  intro name
  simp [Overlay.names, install, List.mem_eraseDups]

theorem exists_shows_iff (h : List.Forall₂ Shows held covers) (name : String) :
    (∃ h ∈ held, name ∈ h.2.names) ↔ ∃ cover ∈ covers, name ∈ cover.2 := by
  induction h with
  | nil => simp
  | cons hfirst _ ih => simp only [List.exists_mem_cons_iff, hfirst.2, ih]

theorem numbers_of_shows (h : List.Forall₂ Shows held covers) :
    held.map Prod.fst = covers.map Prod.fst := by
  induction h with
  | nil => rfl
  | cons hfirst _ ih => rw [List.map_cons, List.map_cons, hfirst.1, ih]

section Numbers

variable {α : Type} {a : α} {before after : List (Nat × α)}

theorem lookup_number (h : number ∉ before.map Prod.fst) :
    (before ++ (number, a) :: after).lookup number = some a := by
  induction before with
  | nil => simp
  | cons first before ih =>
    have hfirst : (number == first.1) = false := by
      simp only [List.map_cons, List.mem_cons, not_or] at h
      simpa using h.1
    rw [List.cons_append, List.lookup_cons, hfirst]
    exact ih fun hmem => h (List.mem_cons_of_mem _ hmem)

theorem eraseP_number (h : number ∉ before.map Prod.fst) :
    (before ++ (number, a) :: after).eraseP (fun entry => entry.1 = number) = before ++ after := by
  rw [List.eraseP_append_right, List.eraseP_cons_of_pos (by simp)]
  intro entry hentry heq
  exact h (List.mem_map.2 ⟨entry, hentry, by simpa using heq⟩)

end Numbers

theorem Matches.not_mem_later (h : Matches held (later ++ (number, names) :: earlier)) :
    number ∉ later.map Prod.fst := by
  have hnodup := h.nodup
  rw [List.map_append, List.nodup_append] at hnodup
  intro hmem
  exact hnodup.2.2 number hmem number List.mem_cons_self rfl

theorem Matches.cover_release (h : Matches held (later ++ (number, names) :: earlier)) :
    (Act.release number).cover (later ++ (number, names) :: earlier) = later ++ earlier :=
  eraseP_number h.not_mem_later

/-- What is released is held, over and under the overlays that the trace shows over and under it. -/
theorem Matches.split (h : Matches held (later ++ (number, names) :: earlier)) :
    ∃ above overlay below, held = above ++ (number, overlay) :: below ∧
      (∀ name, name ∈ overlay.names ↔ name ∈ names) ∧
      List.Forall₂ Shows above later ∧ Matches (above ++ below) (later ++ earlier) := by
  have hnodup : ((later ++ earlier).map Prod.fst).Nodup := by
    refine List.Nodup.sublist ?_ h.nodup
    exact (List.Sublist.append_left (List.sublist_cons_self _ _) _).map _
  have habove := List.forall₂_take_append _ _ _ h.shows
  have hbelow := List.forall₂_drop_append _ _ _ h.shows
  obtain ⟨⟨found, overlay⟩, below, ⟨hnumber, hnames⟩, hearlier, hdrop⟩ :=
    List.forall₂_cons_right_iff.1 hbelow
  obtain rfl : found = number := hnumber
  have hheld : held = held.take later.length ++ (found, overlay) :: below := by
    rw [← hdrop, List.take_append_drop]
  exact ⟨_, overlay, below, hheld, hnames, habove, List.rel_append habove hearlier, hnodup⟩

/-- An overlay comes off from between those that bind other names. -/
theorem Matches.release {s : Overlaid} (h : Matches s.held (later ++ (number, names) :: earlier))
    (hlater : ∀ cover ∈ later, ∀ name ∈ names, name ∉ cover.2) :
    ∃ overlay t, (Act.release number).run? s = some t ∧ t.scope = s.scope.release overlay ∧
      (∀ name, name ∈ overlay.names ↔ name ∈ names) ∧ Matches t.held (later ++ earlier) ∧
      t.scope.releaseAll t.held = s.scope.releaseAll s.held := by
  obtain ⟨above, overlay, below, hheld, hnames, habove, hleft⟩ := h.split
  have hnumber : number ∉ above.map Prod.fst := by
    rw [numbers_of_shows habove]
    exact h.not_mem_later
  have hrun : (Act.release number).run? s = some ⟨s.scope.release overlay, above ++ below⟩ := by
    rw [Act.run?, hheld, lookup_number hnumber]
    exact congrArg (fun held => some (Overlaid.mk _ held)) (eraseP_number hnumber)
  have hother : ∀ held ∈ above, ∀ name ∈ overlay.names, name ∉ held.2.names := by
    intro held hmem name hname hheld
    obtain ⟨cover, hcover, hbound⟩ := (exists_shows_iff habove name).1 ⟨held, hmem, hheld⟩
    exact hlater cover hcover name ((hnames name).1 hname) hbound
  refine ⟨overlay, _, hrun, rfl, hnames, hleft, ?_⟩
  rw [hheld]
  exact releaseAll_release s.scope below number hother

/-! ## Traces -/

theorem runAll?_cons {act : Act} {s t : Overlaid} (h : act.run? s = some t) (rest : List Act) :
    runAll? (act :: rest) s = runAll? rest t := by
  rw [runAll?, h, Option.bind_some]

theorem runAll?_append {first second : List Act} {s t : Overlaid}
    (h : runAll? first s = some t) : runAll? (first ++ second) s = runAll? second t := by
  induction first generalizing s with
  | nil => exact congrArg (runAll? second) (Option.some.inj h)
  | cons act first ih =>
    obtain ⟨next, hrun, hrest⟩ := Option.bind_eq_some_iff.1 h
    rw [List.cons_append, runAll?_cons hrun]
    exact ih hrest

/-- One act of a trace can be done, and the scope that is left when all overlays are released then
differs only by what lasts. -/
theorem Nests.step {act : Act} {rest : List Act} {s : Overlaid} (h : Nests covers (act :: rest))
    (hmatches : Matches s.held covers) :
    ∃ t, act.run? s = some t ∧ Matches t.held (act.cover covers) ∧ Nests (act.cover covers) rest ∧
      (t.scope.releaseAll t.held).setAll (lasting (act.cover covers) rest) =
        (s.scope.releaseAll s.held).setAll (lasting covers (act :: rest)) := by
  -- Only a `set` outside of all overlays changes what releasing them leaves: one under an overlay
  -- is undone with it, and an overlay can be released first as well as last.
  cases h with
  | @set _ _ name value hrest =>
    refine ⟨_, rfl, hmatches, hrest, ?_⟩
    simp only [lasting, releaseAll_set, ← exists_shows_iff hmatches.shows, Act.cover]
    split <;> rfl
  | @install _ _ number bindings hnumber hrest =>
    refine ⟨_, rfl, ⟨.cons (shows_install s.scope number bindings) hmatches.shows, ?_⟩, hrest, ?_⟩
    · exact List.nodup_cons.2 ⟨hnumber, hmatches.nodup⟩
    · simp only [releaseAll_install, lasting]
  | release hlater hrest =>
    obtain ⟨overlay, t, hrun, -, -, hleft, hscope⟩ := hmatches.release hlater
    rw [hmatches.cover_release]
    refine ⟨t, hrun, hleft, hrest, ?_⟩
    simp only [hscope, lasting, hmatches.cover_release]

/-- A trace can be run to its end, at which nothing is held, and leaves the scope with what
lasts. -/
theorem Nests.runAll? {acts : List Act} {s : Overlaid} (h : Nests covers acts)
    (hmatches : Matches s.held covers) :
    ∃ t, runAll? acts s = some t ∧ t.held = [] ∧
      t.scope = (s.scope.releaseAll s.held).setAll (lasting covers acts) := by
  induction acts generalizing covers s with
  | nil =>
    cases h
    have hheld := List.forall₂_nil_right_iff.1 hmatches.shows
    refine ⟨s, rfl, hheld, ?_⟩
    rw [hheld]
    rfl
  | cons act rest ih =>
    obtain ⟨t, hrun, hleft, hrest, hscope⟩ := h.step hmatches
    obtain ⟨u, hmore, hheld, heq⟩ := ih hrest hleft
    exact ⟨u, (runAll?_cons hrun rest).trans hmore, hheld, heq.trans hscope⟩

theorem Nests.runAll?_append {first second : List Act} {s : Overlaid}
    (h : Nests covers (first ++ second)) (hmatches : Matches s.held covers) :
    ∃ t left, Scope.runAll? first s = some t ∧ Matches t.held left ∧ Nests left second := by
  induction first generalizing covers s with
  | nil => exact ⟨s, covers, rfl, hmatches, h⟩
  | cons act first ih =>
    obtain ⟨t, hrun, hleft, hrest, -⟩ := Nests.step h hmatches
    obtain ⟨u, left, hmore, hu, hsecond⟩ := ih hrest hleft
    exact ⟨u, left, (runAll?_cons hrun first).trans hmore, hu, hsecond⟩

/-- The last overlay that binds a name is that of a number. -/
def TopBinds (name : String) (number : Nat) (covers : List Cover) : Prop :=
  ∃ names, covers.find? (fun cover => name ∈ cover.2) = some (number, names)

/-- An act neither sets nor binds a name nor releases the overlay of a number. -/
structure Act.Spares (name : String) (number : Nat) (act : Act) : Prop where
  set : ∀ value, act ≠ .set name value
  install : ∀ other bindings, act = .install other bindings → name ∉ bindings.map Prod.fst
  release : act ≠ .release number

theorem TopBinds.cons {cover : Cover} (h : TopBinds name number covers) (hcover : name ∉ cover.2) :
    TopBinds name number (cover :: covers) := by
  obtain ⟨names, hfind⟩ := h
  refine ⟨names, ?_⟩
  rw [List.find?_cons_of_neg (by simpa using hcover), hfind]

/-- An overlay that may be released and is not the last one that binds a name does not bind it. -/
theorem TopBinds.of_release {found : Nat}
    (h : TopBinds name number (later ++ (found, names) :: earlier))
    (hlater : ∀ cover ∈ later, ∀ name ∈ names, name ∉ cover.2) (hfound : found ≠ number) :
    name ∉ names ∧ TopBinds name number (later ++ earlier) := by
  obtain ⟨bound, hfind⟩ := h
  have hname : name ∉ names := by
    intro hname
    have hnone : later.find? (fun cover => name ∈ cover.2) = none := by
      apply List.find?_eq_none.2
      intro cover hcover
      simpa using hlater cover hcover name hname
    rw [List.find?_append, hnone, Option.none_or,
      List.find?_cons_of_pos (by simpa using hname)] at hfind
    exact hfound (congrArg Prod.fst (Option.some.inj hfind))
  refine ⟨hname, bound, ?_⟩
  rw [List.find?_append, List.find?_cons_of_neg (by simpa using hname)] at hfind
  rw [List.find?_append, hfind]

/-- Such an act leaves a name as it is, when the overlay is the last one that binds it: those under
that one which bind the name too are not released before it. -/
theorem Nests.get?_of_spares {act : Act} {rest : List Act} {s : Overlaid}
    (h : Nests covers (act :: rest)) (hmatches : Matches s.held covers)
    (htop : TopBinds name number covers) (hspares : act.Spares name number) :
    ∃ t, act.run? s = some t ∧ t.scope.get? name = s.scope.get? name ∧
      Matches t.held (act.cover covers) ∧ Nests (act.cover covers) rest ∧
      TopBinds name number (act.cover covers) := by
  obtain ⟨t, hrun, hleft, hrest, -⟩ := h.step hmatches
  cases h with
  | @set _ _ other value _ =>
    obtain rfl := Option.some.inj hrun
    have hother : other ≠ name := fun heq => hspares.set value (heq ▸ rfl)
    refine ⟨_, hrun, ?_, hleft, hrest, htop⟩
    rw [get?_set, if_neg hother]
  | @install _ _ other bindings _ _ =>
    obtain rfl := Option.some.inj hrun
    have hname := hspares.install other bindings rfl
    exact ⟨_, hrun, get?_putAll_of_notMem _ _ _ hname, hleft, hrest, htop.cons hname⟩
  | @release later earlier _ found names hlater _ =>
    have hfound : found ≠ number := fun heq => hspares.release (heq ▸ rfl)
    obtain ⟨hname, hother⟩ := htop.of_release hlater hfound
    obtain ⟨overlay, u, hrelease, hscope, hnames, -, -⟩ := hmatches.release hlater
    obtain rfl : u = t := Option.some.inj (hrelease.symm.trans hrun)
    refine ⟨u, hrun, ?_, hleft, hrest, hmatches.cover_release ▸ hother⟩
    rw [hscope, get?_release_of_notMem]
    exact fun hmem => hname ((hnames name).1 hmem)

theorem Nests.runAll?_get? {acts rest : List Act} {s : Overlaid}
    (h : Nests covers (acts ++ rest)) (hmatches : Matches s.held covers)
    (htop : TopBinds name number covers) (hspares : ∀ act ∈ acts, act.Spares name number) :
    ∃ t, Scope.runAll? acts s = some t ∧ t.scope.get? name = s.scope.get? name := by
  induction acts generalizing covers s with
  | nil => exact ⟨s, rfl, rfl⟩
  | cons act acts ih =>
    obtain ⟨t, hrun, hname, hleft, hrest, hother⟩ :=
      Nests.get?_of_spares h hmatches htop (hspares act List.mem_cons_self)
    obtain ⟨u, hmore, heq⟩ :=
      ih hrest hleft hother fun next hnext => hspares next (List.mem_cons_of_mem _ hnext)
    exact ⟨u, (runAll?_cons hrun acts).trans hmore, heq.trans hname⟩

/-! ## Values -/

theorem get?_install_last (scope : Scope) (before : List (String × Value)) (name : String)
    (value : Value) {after : List (String × Value)} (h : name ∉ after.map Prod.fst) :
    (scope.install (before ++ (name, value) :: after)).2.get? name = some value := by
  have hput : (scope.install (before ++ (name, value) :: after)).2.vars =
      ((scope.vars.putAll before).put name value).putAll after :=
    Table.putAll_append scope.vars before ((name, value) :: after)
  rw [get?, hput, get?_putAll_of_notMem _ _ _ h, Table.get?_put, if_pos rfl]

/-- Only what is set of a name counts for it. -/
theorem get?_putAll_filter {vars vars' : Vars} (pairs : List (String × Value))
    (h : vars.get? name = vars'.get? name) :
    (vars.putAll (pairs.filter fun pair => pair.1 = name)).get? name =
      (vars'.putAll pairs).get? name := by
  induction pairs generalizing vars vars' with
  | nil => exact h
  | cons pair pairs ih =>
    by_cases hpair : pair.1 = name
    · rw [List.filter_cons_of_pos (by simpa using hpair)]
      apply ih
      rw [Table.get?_put, Table.get?_put, if_pos hpair, if_pos hpair]
    · rw [List.filter_cons_of_neg (by simpa using hpair)]
      apply ih
      rw [Table.get?_put, if_neg hpair, h]

/-- Overlays restore exactly.  When the overlays of a trace nest, none is left at its end, and each
name has what it had at the beginning with what was set of it while no overlay bound it.  Under an
overlay a name has the last value that the overlay binds it to, until it is set or bound again. -/
theorem overlays_restore (scope : Scope) (acts : List Act) (h : Nests [] acts) :
    (∃ t, runAll? acts ⟨scope, []⟩ = some t ∧ t.held = [] ∧
      t.scope = scope.setAll (lasting [] acts) ∧ t.scope.overlays = scope.overlays ∧
      ∀ name, t.scope.get? name =
        (scope.setAll ((lasting [] acts).filter fun pair => pair.1 = name)).get? name) ∧
    ∀ before number first name value last under rest,
      acts = before ++ .install number (first ++ (name, value) :: last) :: (under ++ rest) →
      name ∉ last.map Prod.fst → (∀ act ∈ under, act.Spares name number) →
      ∃ t, runAll? (before ++ .install number (first ++ (name, value) :: last) :: under)
        ⟨scope, []⟩ = some t ∧ t.scope.get? name = some value := by
  have hnone : Matches (Overlaid.mk scope []).held [] := ⟨.nil, List.nodup_nil⟩
  refine ⟨?_, ?_⟩
  · obtain ⟨t, hrun, hheld, hscope⟩ := h.runAll? hnone
    refine ⟨t, hrun, hheld, hscope, by rw [hscope]; rfl, ?_⟩
    intro name
    rw [hscope]
    exact (get?_putAll_filter (lasting [] acts) rfl).symm
  · rintro before number first name value last under rest rfl hlast hspares
    obtain ⟨s, covers, hbefore, hmatches, hnests⟩ := h.runAll?_append hnone
    obtain ⟨t, hinstall, hleft, hrest, -⟩ := hnests.step hmatches
    have htop : TopBinds name number
        ((Act.install number (first ++ (name, value) :: last)).cover covers) := by
      refine ⟨_, List.find?_cons_of_pos ?_⟩
      simp
    obtain ⟨u, hunder, hname⟩ := hrest.runAll?_get? hleft htop hspares
    have hbound := get?_install_last s.scope first name value hlast
    obtain rfl := Option.some.inj hinstall
    refine ⟨u, ?_, hname.trans hbound⟩
    rw [runAll?_append hbefore, runAll?_cons hinstall, hunder]

/-- A trace in which an overlay binds a name twice, one binds a name again, and the first one is
released before another one of other names. -/
def interleaved : List Act :=
  [.install 0 [("a", .str "1"), ("a", .str "2")], .install 1 [("b", .str "3")],
    .install 2 [("a", .str "4")], .set "a" (.str "5"), .set "c" (.str "6"), .release 2, .release 0,
    .set "a" (.str "7"), .set "b" (.str "8"), .release 1]

theorem nests_interleaved : Nests [] interleaved := by
  have hlast : Nests [(1, ["b"])] [.set "a" (.str "7"), .set "b" (.str "8"), .release 1] :=
    .set (.set (@Nests.release [] [] [] 1 ["b"] (by simp) .done))
  have hfirst := @Nests.release [(1, ["b"])] [] _ 0 ["a", "a"] (by simp) hlast
  have hinner := @Nests.release [] [(1, ["b"]), (0, ["a", "a"])] _ 2 ["a"] (by simp) hfirst
  exact .install (by simp) (.install (by simp) (.install (by simp) (.set (.set hinner))))

theorem overlays_restore_interleaved :
    Nests [] interleaved ∧
    (∃ t, runAll? interleaved ⟨ofList [("a", .str "0"), ("b", .str "9")], []⟩ = some t ∧
      t.held = [] ∧ t.scope.overlays = 0 ∧ t.scope.get? "a" = some (.str "7") ∧
      t.scope.get? "b" = some (.str "9") ∧ t.scope.get? "c" = some (.str "6")) ∧
    ∃ t, runAll? (interleaved.take 2) ⟨ofList [("a", .str "0"), ("b", .str "9")], []⟩ = some t ∧
      t.scope.get? "a" = some (.str "2") := by
  have hall := overlays_restore (ofList [("a", .str "0"), ("b", .str "9")]) interleaved
    nests_interleaved
  obtain ⟨⟨t, hrun, hheld, hscope, hoverlays, -⟩, hunder⟩ := hall
  refine ⟨nests_interleaved, ⟨t, hrun, hheld, hoverlays, ?_, ?_, ?_⟩, ?_⟩
  · rw [hscope]; rfl
  · rw [hscope]; rfl
  · rw [hscope]; rfl
  · refine hunder [] 0 [("a", .str "1")] "a" (.str "2") [] [.install 1 [("b", .str "3")]] _ rfl
      (by simp) ?_
    intro act hact
    obtain rfl := List.mem_singleton.1 hact
    refine ⟨by simp, ?_, by simp⟩
    rintro other bindings heq
    obtain ⟨rfl, rfl⟩ := Act.install.inj heq
    simp

end Scope
end TreeStream
