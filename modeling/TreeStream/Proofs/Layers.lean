import TreeStream.Proofs.Trees

/-!
# Layers of settings

A run has the settings that its highest layers give, or is told that they are not valid.

* `documentOf?` and `assignmentsOf`: what the file of settings and the file of variables give.
* `layers_holds`: what all layers give together.
* `validate_eq_ok_iff`: the settings that are valid.
* `resolve_layers`: the settings of a run, setting by setting.
-/

namespace TreeStream.Settings
set_option autoImplicit false

variable {entries : List (String × Tree)} {settings : Settings} {reader : FilterReader}

/-! ## All layers -/

/-- What a file of settings gives, if there is one. -/
def documentOf? (files : Files) (path : Option String) : Option (List (String × Tree)) :=
  match path with
  | some path => (find? files path).bind fun document => Toml.parse? document.toList
  | none =>
    match find? files "textree.toml" with
    | some document => Toml.parse? document.toList
    | none => some []

theorem withFile_eq (files : Files) (path : Option String) (root : Tree) :
    withFile files path root = (documentOf? files path).map (putEntries · root) := by
  cases path with
  | some path =>
    rw [withFile, documentOf?]
    cases find? files path <;> rfl
  | none =>
    rw [withFile, documentOf?]
    cases find? files "textree.toml" <;> rfl

theorem inOrder_of_documentOf? {files : Files} {path : Option String}
    (h : documentOf? files path = some entries) : InOrder entries := by
  unfold documentOf? at h
  split at h
  · obtain ⟨document, -, hparse⟩ := Option.bind_eq_some_iff.1 h
    exact inOrder_of_parse? hparse
  · split at h
    · exact inOrder_of_parse? h
    · obtain rfl := Option.some.inj h
      exact ⟨List.Pairwise.nil, fun _ hentry => by cases hentry⟩

/-- All layers: a run goes before variables, those before the file, and that before defaults. -/
theorem layers_holds {files : Files} {env : Variables} {choices : Choices}
    (hdocument : documentOf? files (choices.file <|> env.get? "TEXTREE_CONFIG_PATH") = some entries)
    (hplain : Plain entries) (hnamed : Named env.pairs)
    (honce : Once env.pairs) :
    ∃ root, layers files env choices = some root ∧
      Holds root fun setting => chosen choices setting <|>
        Entries.get? setting.variableName env.pairs <|>
        (Tree.table entries).text? setting.path <|> defaultOf setting := by
  have hfile := holds_defaults.document hplain (inOrder_of_documentOf? hdocument)
  have henv := hfile.environment hnamed honce
  have hlevel := henv.choose .level choices.level
  have hlead := hlevel.choose .lead choices.lead
  refine ⟨_, ?_, hlead.congr fun setting => ?_⟩
  · rw [layers, withFile_eq, hdocument]
    rfl
  · cases setting <;> simp [chosen]

/-! ## Variables of a run -/

/-- What the nearest file of variables assigns, if there is one. -/
def assignmentsOf (files : Files) (process : Variables) : List (String × String) :=
  match files.nearest? ".env" with
  | some content => process.assignments content
  | none => []

theorem variablesOf_eq (files : Files) (process : Variables) :
    variablesOf files process = .defineAll (assignmentsOf files process) process := by
  unfold variablesOf assignmentsOf
  cases files.nearest? ".env" with
  | none => rfl
  | some content => exact process.load_eq content

theorem assignmentsOf_spec {files : Files} {process : Variables} {pair : String × String}
    (h : pair ∈ assignmentsOf files process) : pair.1 ≠ "" ∧ '=' ∉ pair.1.toList := by
  unfold assignmentsOf at h
  split at h
  · exact Variables.assigned_spec h
  · cases h

/-! ## Validation -/

theorem extends_iff (lead short : String) :
    (!lead.toList.isPrefixOf short.toList || short = lead) = false ↔
      ∃ more, more ≠ "" ∧ short = lead ++ more := by
  rw [Bool.or_eq_false_iff, Bool.not_eq_false', List.isPrefixOf_iff_prefix,
    decide_eq_false_iff_not]
  constructor
  · rintro ⟨⟨more, hmore⟩, hne⟩
    have hshort : short = lead ++ String.ofList more := by
      rw [← String.toList_inj, ← hmore, String.toList_append, String.toList_ofList]
    refine ⟨String.ofList more, fun hempty => hne ?_, hshort⟩
    rw [hshort, hempty, String.append_empty]
  · rintro ⟨more, hmore, rfl⟩
    refine ⟨by simp, fun hsame => hmore ?_⟩
    have hempty := congrArg String.toList hsame
    rw [String.toList_append, List.append_right_eq_self] at hempty
    exact String.toList_eq_nil_iff.1 hempty

/-- The beginning of directives is not empty, the short name is longer, and the level is a filter
for the reader. -/
def Valid (settings : Settings) (reader : FilterReader) : Prop :=
  settings.engine.lead ≠ "" ∧
    (∃ more, more ≠ "" ∧ settings.engine.short = settings.engine.lead ++ more) ∧
    ∃ filter, reader settings.level = .ok filter

theorem validate_eq_ok_iff : settings.validateWith reader = .ok () ↔ settings.Valid reader := by
  obtain ⟨⟨lead, short⟩, level⟩ := settings
  have hextends := extends_iff lead short
  simp only [validateWith, Valid]
  split_ifs with hlead hshort
  · simp [hlead]
  · simp [← hextends, hshort]
  · have hmore := hextends.1 (by simpa using hshort)
    cases hfilter : reader level <;> simp [hlead, hmore]

/-- The beginning of directives twice is never at fault as a short name. -/
theorem validate_ne_unrelatedShort
    (hshort : settings.engine.short = settings.engine.lead ++ settings.engine.lead)
    (short lead : String) : settings.validateWith reader ≠ .error (.unrelatedShort short lead) := by
  have hextends := extends_iff settings.engine.lead settings.engine.short
  simp only [validateWith]
  split_ifs with hlead hunrelated
  · simp
  · exact absurd (hextends.2 ⟨_, hlead, hshort⟩) (by simp [hunrelated])
  · cases reader settings.level <;> simp

/-! ## The settings of a run -/

variable {files : Files} {process : Variables} {choices : Choices}

/-- What all layers give, with the variables of a run taken apart. -/
theorem layers_settled
    (hdocument : documentOf? files
      (choices.file <|> (variablesOf files process).get? "TEXTREE_CONFIG_PATH") = some entries)
    (hplain : Plain entries) (hnamed : Named (variablesOf files process).pairs)
    (honce : Once process.pairs) :
    (layers files (variablesOf files process) choices).bind ofLayers? =
      some (settled fun setting => chosen choices setting <|> process.get? setting.variableName <|>
        Entries.get? setting.variableName (assignmentsOf files process) <|>
        (Tree.table entries).text? setting.path) := by
  have honce' : Once (variablesOf files process).pairs := by
    rw [variablesOf_eq]
    exact fun setting =>
      Variables.count_defineAll (fun pair => assignmentsOf_spec) (honce setting)
  -- The defaults are in the lowest layer and in `settled` again, for what no tree gives.
  obtain ⟨root, hroot, hholds⟩ := layers_holds hdocument hplain hnamed honce'
  rw [hroot, Option.bind_some]
  refine (hholds.congr fun setting => ?_).ofLayers?.trans (congrArg some (settled_default _))
  obtain ⟨hempty, hname⟩ := setting.variableName_spec
  rw [variablesOf_eq, Variables.get?_pairs_defineAll fun pair => assignmentsOf_spec,
    ← Variables.get?_eq hempty hname]
  simp [Option.or_assoc]

theorem resolve_ok
    (hlayers : (layers files (variablesOf files process) choices).bind ofLayers? = some settings)
    (hvalid : settings.Valid reader) : resolveWith reader files process choices = .ok settings := by
  simp [resolveWith, hlayers, validate_eq_ok_iff.2 hvalid]

theorem resolve_error
    (hlayers : (layers files (variablesOf files process) choices).bind ofLayers? = some settings)
    {reason : Invalid} (hreason : settings.validateWith reader = .error reason) :
    resolveWith reader files process choices = .error (.invalid reason) := by
  simp [resolveWith, hlayers, hreason]

/-- Setting by setting, the choices of a run go before the variables of the process, those before
the nearest file of variables, that before the file of settings, and that before defaults; a short
name that nobody gives is the beginning of directives twice.  Whatever counts as a filter, a run has
these settings when they are valid, and is refused otherwise, but never for a short name that nobody
gives behind a beginning that is not empty. -/
theorem resolve_layers (reader : FilterReader)
    (hdocument : documentOf? files
      (choices.file <|> (variablesOf files process).get? "TEXTREE_CONFIG_PATH") = some entries)
    (hplain : Plain entries) (hnamed : Named (variablesOf files process).pairs)
    (honce : Once process.pairs) :
    let given (setting : Setting) : Option String :=
      chosen choices setting <|> process.get? setting.variableName <|>
        Entries.get? setting.variableName (assignmentsOf files process) <|>
        (Tree.table entries).text? setting.path
    let lead := (given .lead).getD ":"
    let short := (given .short).getD (lead ++ lead)
    let level := (given .level).getD "info"
    let settings : Settings := { engine := { lead, short }, level }
    (settings.Valid reader → resolveWith reader files process choices = .ok settings) ∧
      (¬ settings.Valid reader →
        ∃ reason, resolveWith reader files process choices = .error (.invalid reason)) ∧
      (given .short = none → lead ≠ "" → ∀ short lead,
        resolveWith reader files process choices ≠
          .error (.invalid (.unrelatedShort short lead))) := by
  intro given lead short level settings
  have hlayers : (layers files (variablesOf files process) choices).bind ofLayers? =
      some settings :=
    layers_settled hdocument hplain hnamed honce
  refine ⟨resolve_ok hlayers, fun hvalid => ?_, fun hshort _ short' lead' hrefused => ?_⟩
  · cases hreason : settings.validateWith reader with
    | error reason => exact ⟨reason, resolve_error hlayers hreason⟩
    | ok => exact absurd (validate_eq_ok_iff.1 hreason) hvalid
  · have hdoubled : settings.engine.short = settings.engine.lead ++ settings.engine.lead := by
      simp [settings, short, hshort]
    cases hreason : settings.validateWith reader with
    | error reason =>
      rw [resolve_error hlayers hreason] at hrefused
      obtain rfl := Fault.invalid.inj (Except.error.inj hrefused)
      exact validate_ne_unrelatedShort hdoubled short' lead' hreason
    | ok =>
      rw [resolve_ok hlayers (validate_eq_ok_iff.1 hreason)] at hrefused
      cases hrefused

/-! ## An example with all layers -/

/-- A file of settings. -/
def sampleDocument : String :=
  "engine.deferred_alias = \"%on\"\n"

/-- What the file of settings gives. -/
def sampleEntries : List (String × Tree) :=
  [("engine", .table [("deferred_alias", .text "%on")])]

/-- A file of settings, and a file of variables in the directory above it. -/
def sampleFiles : Files :=
  .ofList [
    ("../.env", Text.Lines.toBytes
      "TEXTREE_ENGINE__DIRECTIVE_PREFIX=%\nTEXTREE_LOGGING__LEVEL=error\n"),
    ("textree.toml", Text.Lines.toBytes sampleDocument)]

/-- A process that gives one of the settings itself. -/
def sampleProcess : Variables :=
  .ofList [("TEXTREE_LOGGING__LEVEL", "warn")]

theorem readEntry_sampleDocument :
    Toml.readEntry (Toml.readValue Toml.maxDepth) sampleDocument.toList =
      some ((["engine", "deferred_alias"], .string "%on"), ['\n']) := by
  have hkey : Toml.readKey sampleDocument.toList =
      some (["engine", "deferred_alias"], '=' :: ' ' :: '"' :: "%on\"\n".toList) := by
    decide +kernel
  have hskip : Toml.skipBlanks (' ' :: '"' :: "%on\"\n".toList) = '"' :: "%on\"\n".toList := by
    decide +kernel
  have hquoted : Toml.readQuoted ('"' :: "%on\"\n".toList) = some ("%on".toList, ['\n']) := by
    decide +kernel
  simp only [Toml.readEntry, hkey, Option.bind_eq_bind, Option.bind_some, hskip, Toml.readValue,
    hquoted, Option.map_some, String.ofList_toList]
  rfl

theorem parse?_sampleDocument : Toml.parse? sampleDocument.toList = some sampleEntries := by
  have hstart : sampleDocument.toList = 'e' :: "ngine.deferred_alias = \"%on\"\n".toList := by
    decide +kernel
  have hskip : Toml.skipLines false sampleDocument.toList = some sampleDocument.toList := by
    decide +kernel
  have hend : Toml.endLine ['\n'] = some [] := by decide +kernel
  have hread (count : Nat) :
      Toml.readDocument (count + 2) [] Toml.Section.empty sampleDocument.toList = some
        ⟨.named, [("engine", .table .passed [("deferred_alias", .value (.string "%on"))])]⟩ := by
    rw [hstart, Toml.readDocument, ← hstart, readEntry_sampleDocument]
    · simp [Toml.Section.enterAt, Toml.Section.within, Toml.Section.enter, Toml.Section.splitLast?,
        Toml.Section.empty, Toml.Section.add, Entries.get?, hend, Toml.readDocument]
    all_goals simp
  have hlength : sampleDocument.toList.length = 30 := by decide +kernel
  unfold Toml.parse?
  split
  rename_i hmark
  · simp [hstart] at hmark
  · simp [hskip, hlength, hread 29, Toml.Section.item, Toml.Node.item, Toml.itemEntries,
      Toml.Item.tree?, Toml.isTime, Toml.treeEntries?, Toml.timeName, Entries.putAll, Entries.put,
      sampleEntries]

theorem plain_sampleEntries : Plain sampleEntries := by
  have hgroup : pathOf "engine" = [.name "engine"] := Setting.pathOf_group .lead
  have hkey : lower "deferred_alias" = "deferred_alias" := Setting.lower_key .short
  refine ⟨fun entry hentry setting hpath => ?_, fun setting members hmembers member hmember => ?_⟩
  · obtain rfl := List.mem_singleton.1 hentry
    rw [hgroup] at hpath
    exact ⟨Step.name.inj (Option.some.inj hpath), _, rfl⟩
  · obtain ⟨-, hmembers⟩ := Prod.mk.inj (List.mem_singleton.1 hmembers)
    obtain rfl := Tree.table.inj hmembers
    obtain rfl := List.mem_singleton.1 hmember
    exact fun hlower => ⟨hkey.symm.trans hlower, _, rfl⟩

/-- The file of variables gives the beginning of directives, the file of settings the short name,
and the process the level, which the file of variables gives as well. -/
theorem resolve_sampleFiles : resolve sampleFiles sampleProcess {} =
    .ok { engine := { lead := "%", short := "%on" }, level := "warn" } := by
  have hassigned : assignmentsOf sampleFiles sampleProcess =
      [("TEXTREE_ENGINE__DIRECTIVE_PREFIX", "%"), ("TEXTREE_LOGGING__LEVEL", "error")] := by
    decide +kernel
  have hvariables : variablesOf sampleFiles sampleProcess = .ofList
      [("TEXTREE_LOGGING__LEVEL", "warn"), ("TEXTREE_ENGINE__DIRECTIVE_PREFIX", "%")] := by
    rw [variablesOf_eq, hassigned]
    decide +kernel
  have hdocument : documentOf? sampleFiles (({} : Choices).file <|>
      (variablesOf sampleFiles sampleProcess).get? "TEXTREE_CONFIG_PATH") = some sampleEntries := by
    have hpath : (Variables.ofList [("TEXTREE_LOGGING__LEVEL", "warn"),
        ("TEXTREE_ENGINE__DIRECTIVE_PREFIX", "%")]).get? "TEXTREE_CONFIG_PATH" = none := by
      decide +kernel
    have hfind : find? sampleFiles "textree.toml" = some sampleDocument := by decide +kernel
    rw [hvariables, hpath, ← parse?_sampleDocument]
    simp [documentOf?, hfind]
  have hnamed : Named (variablesOf sampleFiles sampleProcess).pairs := by
    have hpairs : (variablesOf sampleFiles sampleProcess).pairs =
        [(Setting.level.variableName, "warn"), (Setting.lead.variableName, "%")] := by
      rw [hvariables]
      decide +kernel
    intro pair hpair path hpath setting hgroup
    rw [hpairs] at hpair
    obtain rfl | rfl : pair = _ ∨ pair = _ := by simpa using hpair
    · exact ⟨.level, rfl⟩
    · exact ⟨.lead, rfl⟩
  have honce : Once sampleProcess.pairs := by
    intro setting
    cases setting <;> decide +kernel
  have hfilter : ∃ filter, LogFilter.read "warn" = .ok filter := by
    have hread : (LogFilter.read "warn").toOption.isSome := by decide +kernel
    cases hwarn : LogFilter.read "warn" with
    | error report => simp [hwarn, Except.toOption] at hread
    | ok filter => exact ⟨filter, rfl⟩
  have hvalid : Valid { engine := { lead := "%", short := "%on" }, level := "warn" }
      LogFilter.read :=
    ⟨by decide, ⟨"on", by decide, by decide⟩, hfilter⟩
  have hresolve :=
    (resolve_layers LogFilter.read hdocument plain_sampleEntries hnamed honce).1
  rw [hassigned] at hresolve
  obtain ⟨settings, hsettings, hresolve⟩ : ∃ settings : Settings,
      settings = { engine := { lead := "%", short := "%on" }, level := "warn" } ∧
        (settings.Valid LogFilter.read →
          resolve sampleFiles sampleProcess {} = .ok settings) :=
    ⟨_, by decide +kernel, hresolve⟩
  subst hsettings
  exact hresolve hvalid

end TreeStream.Settings
