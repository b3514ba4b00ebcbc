import TreeStream.Proofs.Environment
import TreeStream.Settings.Sources

/-!
# What trees give of the settings

Three settings are looked for in a tree.  What is put over a tree, by a file of settings, by
variables or by the choices of a run, goes before what the tree has given, for each of them by
itself.

* `Setting`: the settings, where they stand and which variables give them.
* `Holds`: what a tree gives of them.  `Holds.put_text` and `Holds.put_other` say what one text
  changes, `Holds.document` what a document changes, `Holds.environment` what variables change.
* `Plain`, `Named` and `Once`: documents and variables that give settings under their own names
  only, and variables that are defined once.
* `inOrder_of_parse?`: a document that has been read is in order.
* `Holds.ofLayers?`: the settings that are made of a tree.
-/

namespace TreeStream.Settings
set_option autoImplicit false

/-! ## The three settings -/

/-- What settings there are. -/
inductive Setting where
  | lead
  | short
  | level
deriving Repr, DecidableEq, Inhabited

namespace Setting

/-- The table in which the setting stands. -/
def group : Setting → String
  | .lead => "engine"
  | .short => "engine"
  | .level => "logging"

/-- The name of the setting in its table. -/
def key : Setting → String
  | .lead => "directive_prefix"
  | .short => "deferred_alias"
  | .level => "level"

/-- Where the setting stands. -/
def path (setting : Setting) : List Step :=
  [.name setting.group, .name setting.key]

/-- The variable that gives the setting. -/
def variableName : Setting → String
  | .lead => "TEXTREE_ENGINE__DIRECTIVE_PREFIX"
  | .short => "TEXTREE_ENGINE__DEFERRED_ALIAS"
  | .level => "TEXTREE_LOGGING__LEVEL"

theorem eq_of_path {s t : Setting} (hgroup : s.group = t.group) (hkey : s.key = t.key) : s = t := by
  cases s <;> cases t <;> first | rfl | (revert hgroup hkey; decide)

theorem eq_of_variableName {s t : Setting} (h : s.variableName = t.variableName) : s = t := by
  cases s <;> cases t <;> first | rfl | (revert h; decide)

theorem lower_key (setting : Setting) : lower setting.key = setting.key := by
  cases setting <;> decide +kernel

theorem pathOf_group (setting : Setting) : pathOf setting.group = [.name setting.group] := by
  cases setting <;> decide +kernel

theorem pathOf?_variableName (setting : Setting) :
    Variables.pathOf? setting.variableName = some setting.path := by
  cases setting <;> decide +kernel

theorem variableName_spec (setting : Setting) :
    setting.variableName ≠ "" ∧ '=' ∉ setting.variableName.toList := by
  cases setting <;> decide +kernel

end Setting

/-! ## Trees that give settings -/

/-- The tree gives the settings, each as a text or not at all, and has nothing but tables around
them. -/
structure Holds (root : Tree) (given : Setting → Option String) : Prop where
  table : ∃ entries, root = .table entries
  groups : ∀ setting : Setting, ∀ place, Entries.get? setting.group root.entries = some place →
    ∃ members, place = .table members
  texts : ∀ setting : Setting, root.get? setting.path = (given setting).map .text

variable {root : Tree} {given : Setting → Option String} {name : String}
  {members entries : List (String × Tree)}

/-- The entries at a place, where there may be nothing. -/
def entriesAt (place : Option Tree) : List (String × Tree) :=
  (place.getD Tree.empty).entries

theorem get?_path (setting : Setting) (root : Tree) : root.get? setting.path =
    Entries.get? setting.key (entriesAt (Entries.get? setting.group root.entries)) := by
  rw [Setting.path, Tree.get?]
  cases Entries.get? setting.group root.entries with
  | none => rfl
  | some place => simp [Tree.get?, entriesAt]

theorem get?_put_name (tree : Tree) (name other : String) (path : List Step)
    (place : Option Tree) : Entries.get? other (tree.put (.name name :: path) place).entries =
      if name = other then some (tree.put path (Entries.get? name (entriesAt place)))
      else Entries.get? other (entriesAt place) := by
  rw [Tree.put, Tree.entries, Entries.get?_put, entriesAt]

theorem exists_table_put (tree : Tree) (name : String) (path : List Step) (place : Option Tree) :
    ∃ entries, tree.put (.name name :: path) place = .table entries :=
  ⟨_, by rw [Tree.put]⟩

theorem Holds.congr {given' : Setting → Option String} (h : Holds root given)
    (hgiven : ∀ setting, given setting = given' setting) : Holds root given' := by
  obtain rfl : given = given' := funext hgiven
  exact h

/-- What is put beside the groups does not matter. -/
theorem Holds.put_other (h : Holds root given) (tree : Tree) (path : List Step)
    (hname : ∀ setting : Setting, name ≠ setting.group) :
    Holds (tree.put (.name name :: path) (some root)) given where
  table := exists_table_put ..
  groups setting place hplace := by
    rw [get?_put_name, if_neg (hname setting)] at hplace
    exact h.groups setting place hplace
  texts setting := by
    rw [get?_path, get?_put_name, if_neg (hname setting), ← h.texts setting, get?_path]
    rfl

/-- A text that is put where a setting stands gives it. -/
theorem Holds.put_text (h : Holds root given) (setting : Setting) (content : String) :
    Holds ((Tree.text content).put setting.path (some root))
      fun other => if setting = other then some content else given other where
  table := exists_table_put ..
  groups other place hplace := by
    rw [Setting.path, get?_put_name] at hplace
    split_ifs at hplace with hgroup
    · exact ⟨_, (Option.some.inj hplace).symm⟩
    · exact h.groups other place hplace
  texts other := by
    rw [get?_path, Setting.path, get?_put_name]
    by_cases hgroup : setting.group = other.group
    · rw [if_pos hgroup, entriesAt, Option.getD_some, get?_put_name]
      by_cases hsame : setting = other
      · subst hsame
        rw [if_pos rfl, if_pos rfl]
        rfl
      · have hkey : setting.key ≠ other.key := fun hkey => hsame (Setting.eq_of_path hgroup hkey)
        rw [if_neg hkey, if_neg hsame, ← h.texts other, get?_path, hgroup]
        rfl
    · have hsame : setting ≠ other := fun hsame => hgroup (hsame ▸ rfl)
      rw [if_neg hgroup, if_neg hsame, ← h.texts other, get?_path]
      rfl

theorem Holds.choose (h : Holds root given) (setting : Setting) (content : Option String) :
    Holds (choose setting.path content root)
      fun other => if setting = other then content <|> given other else given other := by
  cases content with
  | none => exact h.congr fun other => by simp
  | some content => exact (h.put_text setting content).congr fun other => by simp

/-- The settings that have defaults, and their defaults. -/
def defaultOf : Setting → Option String
  | .lead => some (Options.lead {})
  | .short => none
  | .level => some (Settings.level {})

theorem holds_empty : Holds Tree.empty fun _ => none where
  table := ⟨[], rfl⟩
  groups _ _ hplace := by cases hplace
  texts setting := by rw [get?_path]; rfl

theorem holds_defaults : Holds defaults defaultOf := by
  have hlead := holds_empty.choose .lead (some (Options.lead {}))
  have hlevel := hlead.choose .level (some (Settings.level {}))
  exact hlevel.congr fun setting => by cases setting <;> rfl

/-! ## The file -/

/-- Puts entries whose names are paths over a tree. -/
def putEntries (entries : List (String × Tree)) (root : Tree) : Tree :=
  entries.foldl (fun root (name, tree) => tree.put (pathOf name) (some root)) root

/-- Whatever is meant for the key is spelled like it, and is a text. -/
def PlainAt (key : String) (members : List (String × Tree)) : Prop :=
  ∀ member ∈ members, lower member.1 = key → member.1 = key ∧ ∃ content, member.2 = .text content

/-- What a document gives of the settings stands under their own names, as texts in tables.  What
else is in it does not matter. -/
structure Plain (entries : List (String × Tree)) : Prop where
  groups : ∀ entry ∈ entries, ∀ setting : Setting,
    (pathOf entry.1).head? = some (.name setting.group) →
      entry.1 = setting.group ∧ ∃ members, entry.2 = .table members
  keys : ∀ setting : Setting, ∀ members, (setting.group, Tree.table members) ∈ entries →
    PlainAt setting.key members

/-- The names of a document are in order, and so are those of its tables. -/
structure InOrder (entries : List (String × Tree)) : Prop where
  sorted : Entries.Sorted entries
  members : ∀ entry ∈ entries, ∀ members, entry.2 = .table members → Entries.Sorted members

theorem Plain.tail {entry : String × Tree} (h : Plain (entry :: entries)) : Plain entries where
  groups other hother := h.groups other (List.mem_cons_of_mem _ hother)
  keys setting members hmember := h.keys setting members (List.mem_cons_of_mem _ hmember)

theorem InOrder.tail {entry : String × Tree} (h : InOrder (entry :: entries)) :
    InOrder entries where
  sorted := h.sorted.tail
  members other hother := h.members other (List.mem_cons_of_mem _ hother)

theorem exists_table_graftEntries (members : List (String × Tree)) {place : Tree}
    (h : ∃ entries, place = .table entries) :
    ∃ entries, Tree.graftEntries members place = .table entries := by
  induction members generalizing place with
  | nil => exact h
  | cons member members ih =>
    rw [Tree.graftEntries]
    exact ih ⟨_, rfl⟩

theorem get?_graftEntries_of_not_mem {key : String} {members : List (String × Tree)}
    (h : ∀ member ∈ members, lower member.1 ≠ key) (place : Tree) :
    Entries.get? key (Tree.graftEntries members place).entries =
      Entries.get? key place.entries := by
  induction members generalizing place with
  | nil => rfl
  | cons member members ih =>
    rw [Tree.graftEntries, ih fun other hother => h other (List.mem_cons_of_mem _ hother),
      Tree.entries, Entries.get?_put, if_neg (h member List.mem_cons_self)]

/-- A text of the document goes before what has been there. -/
theorem get?_graftEntries {key : String} (hlower : lower key = key)
    {members : List (String × Tree)} (hsorted : Entries.Sorted members)
    (hplain : PlainAt key members) (place : Tree) :
    Entries.get? key (Tree.graftEntries members place).entries =
      (Entries.get? key members <|> Entries.get? key place.entries) := by
  induction members generalizing place with
  | nil => simp [Tree.graftEntries]
  | cons member members ih =>
    obtain ⟨hfirst, hsorted⟩ := List.pairwise_cons.1 hsorted
    have hlater : PlainAt key members :=
      fun other hother => hplain other (List.mem_cons_of_mem _ hother)
    rw [Tree.graftEntries]
    by_cases hmember : lower member.1 = key
    -- The names that follow are greater, so the text is not put over by a later one.
    · obtain ⟨hname, content, hcontent⟩ := hplain member List.mem_cons_self hmember
      have hnone : ∀ other ∈ members, lower other.1 ≠ key := by
        intro other hother hsame
        have hlt := hfirst other hother
        rw [hname, (hlater other hother hsame).1] at hlt
        exact String.lt_irrefl key hlt
      rw [get?_graftEntries_of_not_mem hnone, Tree.entries, Entries.get?_put, if_pos hmember,
        hcontent]
      simp [Entries.get?_cons, hname, hcontent, Tree.graft]
    · have hname : member.1 ≠ key := fun hname => hmember (hname ▸ hlower)
      rw [ih hsorted hlater, Tree.entries, Entries.get?_put, if_neg hmember]
      simp [Entries.get?_cons, hname]

theorem text?_cons (entry : String × Tree) (entries : List (String × Tree)) (setting : Setting) :
    (Tree.table (entry :: entries)).text? setting.path =
      if entry.1 = setting.group then entry.2.text? [.name setting.key]
      else (Tree.table entries).text? setting.path := by
  by_cases hgroup : entry.1 = setting.group <;>
    simp [Tree.text?, Setting.path, Tree.get?, Tree.entries, Entries.get?_cons, hgroup]

theorem text?_eq_none_of_lt {setting : Setting} (h : ∀ entry ∈ entries, setting.group < entry.1) :
    (Tree.table entries).text? setting.path = none := by
  simp [Tree.text?, Setting.path, Tree.get?, Tree.entries, Entries.get?_eq_none_of_lt h]

theorem PlainAt.get?_eq {key : String} (h : PlainAt key members) (hlower : lower key = key) :
    Entries.get? key members = ((Tree.table members).text? [.name key]).map .text := by
  simp only [Tree.text?, Tree.get?, Tree.entries]
  cases hmember : Entries.get? key members with
  | none => rfl
  | some tree =>
    obtain ⟨-, content, rfl⟩ := h _ (Entries.mem_of_get? hmember) hlower
    rfl

/-- A table of the document goes before what has been there, setting by setting. -/
theorem Holds.put_group (h : Holds root given) (hsorted : Entries.Sorted members)
    (hplain : ∀ setting : Setting, name = setting.group → PlainAt setting.key members) :
    Holds ((Tree.table members).put [.name name] (some root)) fun setting =>
      if name = setting.group then (Tree.table members).text? [.name setting.key] <|> given setting
      else given setting where
  table := exists_table_put ..
  groups setting place hplace := by
    rw [get?_put_name] at hplace
    split_ifs at hplace with hgroup
    · obtain rfl := Option.some.inj hplace
      rw [Tree.put, Tree.graft]
      refine exists_table_graftEntries members ?_
      cases hknown : Entries.get? name (entriesAt (some root)) with
      | none => exact ⟨[], rfl⟩
      | some known => exact h.groups setting known (hgroup ▸ hknown)
    · exact h.groups setting place hplace
  texts setting := by
    rw [get?_path, get?_put_name]
    by_cases hgroup : name = setting.group
    · have htext := h.texts setting
      rw [get?_path, ← hgroup] at htext
      rw [if_pos hgroup, if_pos hgroup, entriesAt, Option.getD_some, Tree.put, Tree.graft,
        get?_graftEntries setting.lower_key hsorted (hplain setting hgroup),
        (hplain setting hgroup).get?_eq setting.lower_key]
      refine (congrArg (_ <|> ·) htext).trans ?_
      cases (Tree.table members).text? [.name setting.key] <;> rfl
    · rw [if_neg hgroup, if_neg hgroup, ← h.texts setting, get?_path]
      rfl

theorem exists_pathOf (name : String) : ∃ first path, pathOf name = .name first :: path := by
  simp only [pathOf]
  split
  · exact ⟨_, _, rfl⟩
  · exact ⟨_, _, rfl⟩
  · exact ⟨_, _, rfl⟩

/-- What the document gives goes before what has been there, setting by setting. -/
theorem Holds.document (h : Holds root given) (hplain : Plain entries) (horder : InOrder entries) :
    Holds (putEntries entries root)
      fun setting => (Tree.table entries).text? setting.path <|> given setting := by
  induction entries generalizing root given with
  | nil =>
    exact h.congr fun setting => by
      simp [Tree.text?, Setting.path, Tree.get?, Tree.entries]
  | cons entry entries ih =>
    have hfirst := (List.pairwise_cons.1 horder.sorted).1
    obtain ⟨first, path, hpath⟩ := exists_pathOf entry.1
    by_cases hgroup : ∃ setting : Setting, first = setting.group
    · obtain ⟨setting, rfl⟩ := hgroup
      obtain ⟨hname, members, htable⟩ :=
        hplain.groups entry List.mem_cons_self setting (by rw [hpath]; rfl)
      have hkeys : ∀ other : Setting, entry.1 = other.group → PlainAt other.key members :=
        fun other hother => hplain.keys other members
          (by rw [← hother, ← htable]; exact List.mem_cons_self)
      have hsorted := horder.members entry List.mem_cons_self members htable
      have hmore := ih (h.put_group hsorted hkeys) hplain.tail horder.tail
      have hentry : pathOf entry.1 = [.name entry.1] := hname ▸ setting.pathOf_group
      rw [← hentry, ← htable] at hmore
      refine hmore.congr fun other => ?_
      rw [text?_cons]
      -- What follows gives nothing of the group any more, as its names are greater.
      by_cases hsame : entry.1 = other.group
      · rw [if_pos hsame, if_pos hsame, text?_eq_none_of_lt (hsame ▸ hfirst)]
        rfl
      · rw [if_neg hsame, if_neg hsame]
    · have hother : ∀ setting : Setting, first ≠ setting.group := fun setting hsame =>
        hgroup ⟨setting, hsame⟩
      have hmore := ih (h.put_other entry.2 path hother) hplain.tail horder.tail
      rw [← hpath] at hmore
      refine hmore.congr fun setting => ?_
      have hname : entry.1 ≠ setting.group := by
        intro hname
        rw [hname, setting.pathOf_group] at hpath
        exact hother setting (Step.name.inj (List.cons.inj hpath).1).symm
      rw [text?_cons, if_neg hname]

/-! ## Documents are in order -/

theorem sorted_of_tree? {item : Toml.Item} (h : item.tree? = some (.table entries)) :
    Entries.Sorted entries := by
  cases item with
  | string content => simp [Toml.Item.tree?] at h
  | word content => simp [Toml.Item.tree?] at h
  | list items => simp [Toml.Item.tree?] at h
  | table pairs =>
    rw [Toml.Item.tree?] at h
    split_ifs at h
    · simp at h
    · simp only [Option.map_eq_some_iff, Tree.table.injEq] at h
      obtain ⟨pairs, -, rfl⟩ := h
      exact Entries.sorted_putAll pairs List.Pairwise.nil

theorem exists_item_of_mem {pairs : List (String × Toml.Item)}
    (h : Toml.treeEntries? pairs = some entries) {entry : String × Tree}
    (hentry : entry ∈ entries) : ∃ item : Toml.Item, item.tree? = some entry.2 := by
  induction pairs generalizing entries with
  | nil =>
    obtain rfl := Option.some.inj h
    cases hentry
  | cons pair pairs ih =>
    rw [Toml.treeEntries?] at h
    split at h
    · rename_i tree rest htree hrest
      obtain rfl := Option.some.inj h
      rcases List.mem_cons.1 hentry with rfl | hentry
      · exact ⟨pair.2, htree⟩
      · exact ih hrest hentry
    · cases h

theorem inOrder_of_parse? {cs : List Char} (h : Toml.parse? cs = some entries) :
    InOrder entries := by
  have hitem : ∃ pairs : List (String × Toml.Item),
      (Toml.Item.table pairs).tree? = some (.table entries) := by
    simp only [Toml.parse?, Option.bind_eq_bind, Option.bind_eq_some_iff] at h
    obtain ⟨rest, -, root, -, tree, htree, h⟩ := h
    cases tree with
    | table known =>
      obtain rfl := Option.some.inj h
      exact ⟨_, htree⟩
    | _ => cases h
  obtain ⟨pairs, hpairs⟩ := hitem
  refine ⟨sorted_of_tree? hpairs, fun entry hentry members hmembers => ?_⟩
  rw [Toml.Item.tree?] at hpairs
  split_ifs at hpairs
  · simp at hpairs
  · simp only [Option.map_eq_some_iff, Tree.table.injEq] at hpairs
    obtain ⟨known, hknown, rfl⟩ := hpairs
    rcases Entries.mem_putAll hentry with hentry | hentry
    · obtain ⟨item, hitem⟩ := exists_item_of_mem hknown hentry
      exact sorted_of_tree? (hmembers ▸ hitem)
    · cases hentry

/-! ## Environment variables -/

/-- Variables that give something in the groups of the settings are those of the settings. -/
def Named (pairs : List (String × String)) : Prop :=
  ∀ pair ∈ pairs, ∀ path, Variables.pathOf? pair.1 = some path →
    ∀ setting : Setting, path.head? = some (.name setting.group) →
      ∃ named : Setting, pair.1 = named.variableName

/-- No variable of a setting is defined twice. -/
def Once (pairs : List (String × String)) : Prop :=
  ∀ setting : Setting, (pairs.map Prod.fst).count setting.variableName ≤ 1

theorem exists_pathOf? {path : List Step} (h : Variables.pathOf? name = some path) :
    ∃ first more, path = .name first :: more := by
  simp only [Variables.pathOf?, Option.map_eq_some_iff] at h
  obtain ⟨rest, -, rfl⟩ := h
  exact exists_pathOf _

/-- Puts what a variable gives over a tree. -/
def putPair (root : Tree) (pair : String × String) : Tree :=
  match Variables.pathOf? pair.1 with
  | some path => (Tree.text pair.2).put path (some root)
  | none => root

variable {pair : String × String} {pairs : List (String × String)}

theorem Holds.named_variable (h : Holds root given) {setting : Setting}
    (hname : pair.1 = setting.variableName) :
    Holds (putPair root pair)
      fun other => if setting = other then some pair.2 else given other := by
  rw [putPair, hname, setting.pathOf?_variableName]
  exact h.put_text setting pair.2

theorem Holds.other_variable (h : Holds root given) (hnamed : Named [pair])
    (hname : ∀ setting : Setting, pair.1 ≠ setting.variableName) :
    Holds (putPair root pair) given := by
  unfold putPair
  cases hpath : Variables.pathOf? pair.1 with
  | none => exact h
  | some path =>
    obtain ⟨first, more, rfl⟩ := exists_pathOf? hpath
    refine h.put_other (.text pair.2) more fun setting hsame => ?_
    obtain ⟨named, hsame⟩ := hnamed pair List.mem_cons_self _ hpath setting (hsame ▸ rfl)
    exact hname named hsame

theorem Holds.foldl_putPair (h : Holds root given) (hnamed : Named pairs)
    (honce : Once pairs) :
    Holds (pairs.foldl putPair root)
      fun setting => Entries.get? setting.variableName pairs <|> given setting := by
  induction pairs generalizing root given with
  | nil => exact h.congr fun setting => by simp
  | cons pair pairs ih =>
    have hlater : Named pairs := fun other hother => hnamed other (List.mem_cons_of_mem _ hother)
    have honce' : Once pairs := fun setting =>
      Nat.le_trans List.count_le_count_cons (honce setting)
    by_cases hname : ∃ setting : Setting, pair.1 = setting.variableName
    -- Later definitions win over earlier ones, but there is only one of this name.
    · obtain ⟨setting, hname⟩ := hname
      have hnone : Entries.get? setting.variableName pairs = none := by
        refine Entries.get?_eq_none_iff.2 (List.count_eq_zero.1 ?_)
        have hcount := honce setting
        rw [List.map_cons, hname, List.count_cons_self] at hcount
        omega
      refine (ih (h.named_variable hname) hlater honce').congr fun other => ?_
      by_cases hsame : setting = other
      · subst hsame
        simp [Entries.get?_cons, hname, hnone]
      · have hother : pair.1 ≠ other.variableName := fun hother =>
          hsame (Setting.eq_of_variableName (hname.symm.trans hother))
        simp [Entries.get?_cons, hother, hsame]
    · have hnames : ∀ setting : Setting, pair.1 ≠ setting.variableName := fun setting hsame =>
        hname ⟨setting, hsame⟩
      have hfirst : Named [pair] := fun other hother =>
        hnamed other (List.mem_singleton.1 hother ▸ List.mem_cons_self)
      exact (ih (h.other_variable hfirst hnames) hlater honce').congr fun setting => by
        simp [Entries.get?_cons, hnames setting]

/-- What variables give goes before what has been there, setting by setting. -/
theorem Holds.environment {env : Variables} (h : Holds root given) (hnamed : Named env.pairs)
    (honce : Once env.pairs) :
    Holds (env.layer root)
      fun setting => Entries.get? setting.variableName env.pairs <|> given setting := by
  have hlayer : env.layer root = env.pairs.foldl putPair root := rfl
  rw [hlayer]
  exact h.foldl_putPair hnamed honce

/-! ## The settings of a tree -/

/-- What the highest layers give of the settings, with defaults for what no layer gives. -/
def settled (given : Setting → Option String) : Settings :=
  let lead := (given .lead).getD (Options.lead {})
  { engine := { lead, short := (given .short).getD (lead ++ lead) }
    level := (given .level).getD (Settings.level {}) }

theorem settled_default (given : Setting → Option String) :
    settled (fun setting => given setting <|> defaultOf setting) = settled given := by
  cases hlead : given .lead <;> cases hlevel : given .level <;>
    simp [settled, defaultOf, hlead, hlevel]

/-- What a single run chooses. -/
def chosen (choices : Choices) : Setting → Option String
  | .lead => choices.lead
  | .short => none
  | .level => choices.level

theorem textOr_map (default : String) (content : Option String) :
    textOr default (content.map .text) = some (content.getD default) := by
  cases content <;> rfl

theorem Holds.group (h : Holds root given) (setting : Setting) :
    (Entries.get? setting.group root.entries = none ∧
      ∀ other : Setting, other.group = setting.group → given other = none) ∨
    ∃ members, Entries.get? setting.group root.entries = some (.table members) ∧
      ∀ other : Setting, other.group = setting.group →
        Entries.get? other.key members = (given other).map .text := by
  have htexts := h.texts
  simp only [get?_path] at htexts
  cases hgroup : Entries.get? setting.group root.entries with
  | none =>
    refine .inl ⟨rfl, fun other hother => ?_⟩
    have htext := htexts other
    rw [hother, hgroup] at htext
    exact Option.map_eq_none_iff.1 htext.symm
  | some place =>
    obtain ⟨members, rfl⟩ := h.groups setting place hgroup
    refine .inr ⟨members, rfl, fun other hother => ?_⟩
    have htext := htexts other
    rwa [hother, hgroup] at htext

theorem Holds.engineOf? (h : Holds root given) :
    engineOf? false (Entries.get? "engine" root.entries) =
      some ⟨(given .lead).getD (Options.lead {}), (given .short).getD (Options.short {})⟩ := by
  rcases h.group .lead with ⟨hnone, hgiven⟩ | ⟨members, hsome, htexts⟩
  · rw [show Entries.get? "engine" root.entries = none from hnone, hgiven .lead rfl,
      hgiven .short rfl]
    rfl
  · have hlead : Entries.get? "directive_prefix" members = _ := htexts .lead rfl
    have hshort : Entries.get? "deferred_alias" members = _ := htexts .short rfl
    rw [show Entries.get? "engine" root.entries = some (.table members) from hsome]
    simp only [Settings.engineOf?, parts?, List.map_cons, List.map_nil, hlead, hshort, textOr_map]
    rfl

theorem Holds.levelOf? (h : Holds root given) :
    levelOf? false (Entries.get? "logging" root.entries) =
      some ((given .level).getD (Settings.level {})) := by
  rcases h.group .level with ⟨hnone, hgiven⟩ | ⟨members, hsome, htexts⟩
  · rw [show Entries.get? "logging" root.entries = none from hnone, hgiven .level rfl]
    rfl
  · have hlevel : Entries.get? "level" members = _ := htexts .level rfl
    rw [show Entries.get? "logging" root.entries = some (.table members) from hsome]
    simp only [Settings.levelOf?, parts?, List.map_cons, List.map_nil, hlevel, textOr_map]

theorem Holds.text? (h : Holds root given) (setting : Setting) :
    root.text? setting.path = given setting := by
  rw [Tree.text?, h.texts setting]
  cases given setting <;> rfl

/-- The short name is taken from the tree, or else from the beginning of directives. -/
theorem Holds.ofLayers? (h : Holds root given) : ofLayers? root = some (settled given) := by
  have htree : ofTree? false root = some
      { engine := ⟨(given .lead).getD (Options.lead {}), (given .short).getD (Options.short {})⟩
        level := (given .level).getD (Settings.level {}) } := by
    have hengine := h.engineOf?
    have hlevel := h.levelOf?
    obtain ⟨entries, rfl⟩ := h.table
    rw [Tree.entries] at hengine hlevel
    simp only [ofTree?, parts?, List.map_cons, List.map_nil, hengine, hlevel]
    rfl
  rw [Settings.ofLayers?, htree, Option.map_some, show root.text? shortPath = given .short from
    h.text? .short]
  cases hshort : given .short <;> simp [settled, hshort]

end TreeStream.Settings
