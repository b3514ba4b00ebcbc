import Mathlib.Data.List.Infix
import Mathlib.Data.List.TakeWhile
import TreeStream.Settings.Variables

/-!
# What variables are worth

A name without an equals sign has the value of its first definition, and a file adds the definitions
of names that have no value yet.

* `Variables.get?_eq`: the value of a variable, among the names and values of all definitions.
* `Variables.assignments`: what a file assigns, as far as it can be read, and
  `Variables.load_eq`: reading a file is defining that in turn.
* `Variables.get?_pairs_defineAll`: what is there already wins, and an earlier line over a later one.
* `Variables.count_defineAll`: no name is defined again.
-/

namespace TreeStream
set_option autoImplicit false

namespace Text

theorem splitFirst_cons (mark c : Char) (cs : List Char) : splitFirst [mark] (c :: cs) =
    if mark = c then some ([], cs)
    else (splitFirst [mark] cs).map fun parts => (c :: parts.1, parts.2) := by
  have hfirst : [mark].isPrefixOf? (c :: cs) = if mark == c then some cs else none := rfl
  rw [splitFirst, hfirst]
  by_cases h : mark = c <;> simp [h]

theorem splitFirst_append {mark : Char} {cs : List Char} (h : mark ∉ cs) (rest : List Char) :
    splitFirst [mark] (cs ++ mark :: rest) = some (cs, rest) := by
  induction cs with
  | nil => rw [List.nil_append, splitFirst_cons, if_pos rfl]
  | cons c cs ih =>
    obtain ⟨hc, hcs⟩ := not_or.1 (List.mem_cons.not.1 h)
    rw [List.cons_append, splitFirst_cons, if_neg hc, ih hcs]
    rfl

theorem eq_append_of_splitFirst {mark : Char} {cs before after : List Char}
    (h : splitFirst [mark] cs = some (before, after)) : cs = before ++ mark :: after := by
  induction cs generalizing before with
  | nil => cases h
  | cons c cs ih =>
    rw [splitFirst_cons] at h
    split_ifs at h with hc
    · obtain ⟨rfl, rfl⟩ := Prod.mk.inj (Option.some.inj h)
      rw [hc, List.nil_append]
    · simp only [Option.map_eq_some_iff, Prod.mk.injEq] at h
      obtain ⟨⟨first, second⟩, hsplit, rfl, rfl⟩ := h
      rw [ih hsplit, List.cons_append]

theorem eq_append_of_dropStart? {start text rest : String} (h : dropStart? start text = some rest) :
    text = start ++ rest := by
  simp only [dropStart?, Option.map_eq_some_iff, List.isPrefixOf?_eq_some_iff_append_eq] at h
  obtain ⟨cs, hcs, rfl⟩ := h
  rw [← String.toList_inj, String.toList_append, String.toList_ofList, hcs]

end Text

namespace Settings.Variables

variable {env : Variables} {name other value : String}

/-! ## Definitions -/

theorem definition_eq (name value : String) :
    definition name value = definition name "" ++ value := by
  simp [definition]

/-- The name and the value of a definition. -/
def pair? (text : String) : Option (String × String) :=
  (Text.splitFirst ['='] text.toList).map fun (name, value) =>
    (String.ofList name, String.ofList value)

theorem pairs_eq (env : Variables) : env.pairs = env.definitions.filterMap pair? := rfl

theorem pair?_definition (hname : '=' ∉ name.toList) (value : String) :
    pair? (definition name value) = some (name, value) := by
  simp [pair?, definition, Text.splitFirst_append hname]

theorem eq_definition_of_pair? {text : String} (h : pair? text = some (name, value)) :
    text = definition name value := by
  simp only [pair?, Option.map_eq_some_iff, Prod.mk.injEq] at h
  obtain ⟨⟨first, second⟩, hsplit, rfl, rfl⟩ := h
  rw [← String.toList_inj, Text.eq_append_of_splitFirst hsplit]
  simp [definition]

/-- What follows a name and an equals sign is the value of a definition of that name. -/
theorem dropStart?_definition (hname : '=' ∉ name.toList) (text : String) :
    Text.dropStart? (definition name "") text =
      (pair? text).bind fun pair => if pair.1 = name then some pair.2 else none := by
  cases hdrop : Text.dropStart? (definition name "") text with
  | some rest =>
    rw [Text.eq_append_of_dropStart? hdrop, ← definition_eq, pair?_definition hname]
    simp
  | none =>
    cases hpair : pair? text with
    | none => rfl
    | some pair =>
      refine (if_neg ?_).symm
      rintro rfl
      rw [eq_definition_of_pair? hpair, definition_eq pair.1 pair.2,
        Text.dropStart?_append] at hdrop
      cases hdrop

theorem get?_eq (hempty : name ≠ "") (hname : '=' ∉ name.toList) :
    env.get? name = Entries.get? name env.pairs := by
  rw [get?, if_neg hempty, pairs_eq]
  induction env.definitions with
  | nil => rfl
  | cons text definitions ih =>
    rw [List.findSome?_cons, dropStart?_definition hname, ih]
    cases hpair : pair? text with
    | none => simp [hpair]
    | some pair => by_cases hfirst : pair.1 = name <;> simp [hpair, Entries.get?_cons, hfirst]

theorem pairs_define (hempty : name ≠ "") (hname : '=' ∉ name.toList) (value : String) :
    (env.define name value).pairs =
      if (Entries.get? name env.pairs).isSome then env.pairs else env.pairs ++ [(name, value)] := by
  rw [define, get?_eq hempty hname]
  split
  · rfl
  · simp [pairs_eq, List.filterMap_append, pair?_definition hname]

/-! ## Files of variables -/

/-- What statements assign, up to the first malformed one.  A value may use the variables that are
there when it is read. -/
def assigned (env : Variables) : List (Option (List Char)) → List (String × String)
  | [] => []
  | none :: _ => []
  | some statement :: rest =>
    match readStatement env statement with
    | none => []
    | some .blank => assigned env rest
    | some (.assign name value) => (name, value) :: assigned (env.define name value) rest

/-- What a file assigns. -/
def assignments (env : Variables) (file : List UInt8) : List (String × String) :=
  let lines := (Text.Lines.cutAfter (· == 10) (Text.Lines.dropMark file)).map Text.Lines.decode?
  let decoded := (lines.takeWhile Option.isSome).filterMap (·.map String.toList)
  assigned env (statements [] .plain decoded)

/-- Defines variables in turn. -/
def defineAll (pairs : List (String × String)) (env : Variables) : Variables :=
  pairs.foldl (fun env pair => env.define pair.1 pair.2) env

theorem assignAll_eq (env : Variables) (statements : List (Option (List Char))) :
    assignAll env statements = defineAll (assigned env statements) env := by
  induction statements generalizing env with
  | nil => rfl
  | cons statement statements ih =>
    cases statement with
    | none => rfl
    | some statement =>
      rw [assignAll, assigned]
      cases readStatement env statement with
      | none => rfl
      | some read =>
        cases read with
        | blank => exact ih env
        | assign name value => exact ih (env.define name value)

theorem load_eq (env : Variables) (file : List UInt8) :
    env.load file = defineAll (env.assignments file) env :=
  assignAll_eq env _

/-! ## The names that a file assigns -/

theorem readName_spec {cs name rest : List Char} (h : readName cs = some (name, rest)) :
    name ≠ [] ∧ '=' ∉ name := by
  cases cs with
  | nil => cases h
  | cons c cs =>
    unfold readName at h
    simp only at h
    split_ifs at h with hstart
    obtain ⟨rfl, -⟩ := Prod.mk.inj (Option.some.inj h)
    constructor
    · have hc : (c.isAlphanum || c = '_' || c = '.') = true := by
        rcases hstart with halpha | rfl
        · simp [Char.isAlphanum, halpha]
        · rfl
      simp [hc]
    · intro hmem
      exact absurd (List.mem_takeWhile_imp hmem) (by decide)

theorem readTarget_spec {cs name rest : List Char} (h : readTarget cs = some (name, rest)) :
    name ≠ [] ∧ '=' ∉ name := by
  unfold readTarget at h
  split at h
  · cases h
  · rename_i hread
    obtain ⟨rfl, -⟩ := Prod.mk.inj (Option.some.inj h)
    exact readName_spec hread
  · split_ifs at h
    split at h
    · rename_i hread
      obtain ⟨rfl, -⟩ := Prod.mk.inj (Option.some.inj h)
      exact readName_spec hread
    · cases h

theorem readStatement_spec {statement : List Char}
    (h : readStatement env statement = some (.assign name value)) :
    name ≠ "" ∧ '=' ∉ name.toList := by
  unfold readStatement at h
  split at h
  · cases h
  · cases h
  · split at h
    · cases h
    · rename_i hread
      simp only [Option.map_eq_some_iff, Statement.assign.injEq] at h
      obtain ⟨content, -, rfl, -⟩ := h
      have hname := readTarget_spec hread
      simpa using hname

/-- The names that a file assigns are names of variables. -/
theorem assigned_spec {statements : List (Option (List Char))} {pair : String × String}
    (h : pair ∈ assigned env statements) : pair.1 ≠ "" ∧ '=' ∉ pair.1.toList := by
  induction statements generalizing env with
  | nil => cases h
  | cons statement statements ih =>
    cases statement with
    | none => cases h
    | some statement =>
      rw [assigned] at h
      cases hread : readStatement env statement with
      | none => simp [hread] at h
      | some read =>
        cases read with
        | blank => exact ih (by simpa [hread] using h)
        | assign name value =>
          simp only [hread, List.mem_cons] at h
          rcases h with rfl | h
          · exact readStatement_spec hread
          · exact ih h

/-! ## What a file adds -/

variable {pairs : List (String × String)}

theorem get?_pairs_define (hempty : other ≠ "") (hother : '=' ∉ other.toList) (value : String) :
    Entries.get? name (env.define other value).pairs =
      (Entries.get? name env.pairs <|> Entries.get? name [(other, value)]) := by
  rw [pairs_define hempty hother]
  split
  · rename_i hknown
    by_cases hname : other = name
    · subst hname
      obtain ⟨known, hknown⟩ := Option.isSome_iff_exists.1 hknown
      simp [hknown]
    · simp [Entries.get?_cons, hname]
  · exact Entries.get?_append name env.pairs [(other, value)]

theorem get?_pairs_defineAll (h : ∀ pair ∈ pairs, pair.1 ≠ "" ∧ '=' ∉ pair.1.toList) :
    Entries.get? name (defineAll pairs env).pairs =
      (Entries.get? name env.pairs <|> Entries.get? name pairs) := by
  induction pairs generalizing env with
  | nil => simp [defineAll]
  | cons pair pairs ih =>
    obtain ⟨hempty, hname⟩ := h pair List.mem_cons_self
    have hmore := @ih (env.define pair.1 pair.2) fun other hother =>
      h other (List.mem_cons_of_mem _ hother)
    rw [get?_pairs_define hempty hname] at hmore
    refine hmore.trans ?_
    by_cases hpair : pair.1 = name <;> simp [Entries.get?_cons, hpair]

theorem count_define (hempty : other ≠ "") (hother : '=' ∉ other.toList) (value : String)
    (h : (env.pairs.map Prod.fst).count name ≤ 1) :
    ((env.define other value).pairs.map Prod.fst).count name ≤ 1 := by
  rw [pairs_define hempty hother]
  split
  · exact h
  · rename_i hknown
    by_cases hname : other = name
    · subst hname
      have hnone : Entries.get? other env.pairs = none := by simpa using hknown
      have hzero := List.count_eq_zero.2 (Entries.get?_eq_none_iff.1 hnone)
      simp [hzero]
    · simpa [hname] using h

/-- Nothing is defined that is defined already. -/
theorem count_defineAll (hnames : ∀ pair ∈ pairs, pair.1 ≠ "" ∧ '=' ∉ pair.1.toList)
    (h : (env.pairs.map Prod.fst).count name ≤ 1) :
    ((defineAll pairs env).pairs.map Prod.fst).count name ≤ 1 := by
  induction pairs generalizing env with
  | nil => exact h
  | cons pair pairs ih =>
    obtain ⟨hempty, hname⟩ := hnames pair List.mem_cons_self
    exact ih (fun other hother => hnames other (List.mem_cons_of_mem _ hother))
      (count_define hempty hname pair.2 h)

end Settings.Variables
end TreeStream
