import TreeStream.Proofs.Layers

/-!
# The roles of names

The name of an element shows its role.  With settings that are valid, what begins like directives
does is a directive, known or not, and of all other names those that end with an equals sign ask for
a value.

* `Options.Plays options name tag`: by its looks, an element of the name has the role.
* `Options.classify_eq_iff`: every name has exactly one role, which is found.
* `Settings.classify_partition`: the roles, for settings that are valid.
-/

namespace TreeStream
set_option autoImplicit false

/-! ## Looks -/

theorem Text.dropStart?_eq_none_iff {start text : String} :
    dropStart? start text = none ↔ ∀ rest, text ≠ start ++ rest := by
  constructor
  · rintro h rest rfl
    simp [dropStart?_append] at h
  · intro h
    cases hrest : dropStart? start text with
    | none => rfl
    | some rest => exact absurd (eq_append_of_dropStart? hrest) (h rest)

theorem getLast?_equals_iff {name : String} :
    name.toList.getLast? = some '=' ↔ ∃ stem, name = stem ++ "=" := by
  rw [List.getLast?_eq_some_iff]
  constructor
  · rintro ⟨stem, hstem⟩
    refine ⟨String.ofList stem, ?_⟩
    rw [← String.toList_inj, hstem, String.toList_append, String.toList_ofList]
    rfl
  · rintro ⟨stem, rfl⟩
    exact ⟨stem.toList, String.toList_append⟩

theorem Directive.keyword_of_ofKeyword? {word : String} {directive : Directive}
    (h : ofKeyword? word = some directive) : word = directive.keyword := by
  unfold ofKeyword? at h
  have hfound := List.find?_some h
  exact (of_decide_eq_true hfound).symm

namespace Options

/-- By its looks, an element of the name has the role.  The short name is told from all others
first, and what begins like directives from what does not. -/
inductive Plays (options : Options) : String → Tag → Prop
  | short : Plays options options.short (.directive .defer)
  | keyword (directive : Directive) (hshort : options.lead ++ directive.keyword ≠ options.short) :
      Plays options (options.lead ++ directive.keyword) (.directive directive)
  | unknown (word : String) (hshort : options.lead ++ word ≠ options.short)
      (hword : ∀ directive : Directive, word ≠ directive.keyword) :
      Plays options (options.lead ++ word) .unknown
  | affect (stem : String) (hshort : stem ++ "=" ≠ options.short)
      (hplain : ∀ word, stem ++ "=" ≠ options.lead ++ word) : Plays options (stem ++ "=") .affect
  | element (name : String) (hshort : name ≠ options.short)
      (hplain : ∀ word, name ≠ options.lead ++ word) (hstem : ∀ stem, name ≠ stem ++ "=") :
      Plays options name .element

variable {options : Options} {name : String} {tag : Tag}

theorem plays_classify (options : Options) (name : String) :
    options.Plays name (options.classify name) := by
  rcases eq_or_ne name options.short with hshort | hshort
  · rw [classify, if_pos hshort, hshort]
    exact .short
  rw [classify, if_neg hshort]
  cases hlead : Text.dropStart? options.lead name with
  | some word =>
    obtain rfl := Text.eq_append_of_dropStart? hlead
    dsimp only
    cases hword : Directive.ofKeyword? word with
    | some directive =>
      obtain rfl := Directive.keyword_of_ofKeyword? hword
      exact .keyword directive hshort
    | none =>
      refine .unknown word hshort fun directive hkeyword => ?_
      rw [hkeyword, Directive.ofKeyword?_keyword] at hword
      cases hword
  | none =>
    have hplain := Text.dropStart?_eq_none_iff.1 hlead
    dsimp only
    split_ifs with hends
    · obtain ⟨stem, rfl⟩ := getLast?_equals_iff.1 hends
      exact .affect stem hshort hplain
    · exact .element name hshort hplain fun stem hstem =>
        hends (getLast?_equals_iff.2 ⟨stem, hstem⟩)

theorem Plays.classify (h : options.Plays name tag) : options.classify name = tag := by
  cases h with
  | short => simp [Options.classify]
  | keyword directive hshort =>
    simp [Options.classify, hshort, Text.dropStart?_append, Directive.ofKeyword?_keyword]
  | unknown word hshort hword =>
    have hnone : Directive.ofKeyword? word = none :=
      Option.eq_none_iff_forall_ne_some.2 fun directive hsome =>
        hword directive (Directive.keyword_of_ofKeyword? hsome)
    simp [Options.classify, hshort, Text.dropStart?_append, hnone]
  | affect stem hshort hplain =>
    simp [Options.classify, hshort, Text.dropStart?_eq_none_iff.2 hplain]
  | element name hshort hplain hstem =>
    have hends : name.toList.getLast? ≠ some '=' := fun hends =>
      absurd (getLast?_equals_iff.1 hends) (by simpa using hstem)
    simp [Options.classify, hshort, Text.dropStart?_eq_none_iff.2 hplain, hends]

theorem classify_eq_iff : options.classify name = tag ↔ options.Plays name tag :=
  ⟨fun h => h ▸ plays_classify options name, Plays.classify⟩

end Options

namespace Settings

/-- With settings that are valid, whatever counts as a filter, a name shows by its beginning whether
it is a directive, known or not, the short name included; what follows the beginning tells which,
the short name apart.  Among the other names, those that ask for a value end with an equals sign,
and all of them are elements otherwise. -/
theorem classify_partition {settings : Settings} {reader : FilterReader}
    (hvalid : settings.validateWith reader = .ok ()) :
    let options := settings.engine
    (∀ name, ((∃ directive, options.classify name = .directive directive) ∨
      options.classify name = .unknown) ↔ ∃ word, name = options.lead ++ word) ∧
    options.classify options.short = .directive .defer ∧
    (∀ directive : Directive, options.lead ++ directive.keyword ≠ options.short →
      options.classify (options.lead ++ directive.keyword) = .directive directive) ∧
    ∀ name, (∀ word, name ≠ options.lead ++ word) →
      (∀ directive, options.classify name ≠ .directive directive) ∧
      (options.classify name = .affect ↔ ∃ stem, name = stem ++ "=") ∧
      (options.classify name = .element ↔ ∀ stem, name ≠ stem ++ "=") := by
  intro options
  obtain ⟨-, ⟨more, -, hshort⟩, -⟩ := validate_eq_ok_iff.1 hvalid
  have hbegins : ∀ name, ((∃ directive, options.classify name = .directive directive) ∨
      options.classify name = .unknown) ↔ ∃ word, name = options.lead ++ word := by
    intro name
    have hplays := options.plays_classify name
    generalize options.classify name = tag at hplays ⊢
    cases hplays with
    | short => exact iff_of_true (.inl ⟨_, rfl⟩) ⟨more, hshort⟩
    | keyword directive => exact iff_of_true (.inl ⟨_, rfl⟩) ⟨_, rfl⟩
    | unknown word => exact iff_of_true (.inr rfl) ⟨word, rfl⟩
    | affect stem _ hplain => exact iff_of_false (by simp) fun ⟨word, hword⟩ => hplain word hword
    | element _ _ hplain => exact iff_of_false (by simp) fun ⟨word, hword⟩ => hplain word hword
  refine ⟨hbegins, Options.classify_eq_iff.2 .short,
    fun directive hother => Options.classify_eq_iff.2 (.keyword directive hother),
    fun name hplain => ?_⟩
  have hplays := options.plays_classify name
  generalize options.classify name = tag at hplays ⊢
  cases hplays with
  | short => exact absurd hshort (hplain more)
  | keyword directive => exact absurd rfl (hplain _)
  | unknown word => exact absurd rfl (hplain word)
  | affect stem => simp
  | element _ _ _ hstem => simpa using hstem

/-- Directives may begin with the equals sign that asks for a value elsewhere, and the short name
may be made of a keyword. -/
theorem classify_partition_equals :
    let settings : Settings := { engine := { lead := "=", short := "=if" } }
    settings.validate = .ok () ∧
      settings.engine.classify "=if" = .directive .defer ∧
      ("=each" ≠ "=if" ∧ settings.engine.classify "=each" = .directive .each) ∧
      (∀ word, "x=" ≠ "=" ++ word) ∧ settings.engine.classify "x=" = .affect := by
  intro settings
  have hvalid : settings.validate = .ok () := by decide +kernel
  have hplain : ∀ word, "x=" ≠ "=" ++ word := by
    intro word hword
    have hcs := congrArg String.toList hword
    simp at hcs
  obtain ⟨-, hshort, hkeyword, hother⟩ := classify_partition hvalid
  exact ⟨hvalid, hshort, ⟨by decide, hkeyword .each (by decide)⟩, hplain,
    (hother "x=" hplain).2.1.2 ⟨"x", by decide⟩⟩

end Settings
end TreeStream
