import TreeStream.Directive
import TreeStream.Proofs.Environment

/-!
# Arguments of loops

The argument of `each` is cut at the first ` in ` of the whole text, wherever that is.  Behind names
that are written as names the first one is the one that was meant, whatever the text of the list
contains.

* `Text.Clear sep cs rest`: no separator begins in `cs` when `rest` follows.
* `Text.splitFirst_of_clear`: behind a clear text, a separator is the first one.
* `Text.trimChars_padded`: blanks around a word are removed, and nothing else.
* `EachArgument.IsName` and `EachArgument.Padded`: names, and names between blanks.
* `EachArgument.parse?_written`: an argument is read back as it was written.
-/

namespace TreeStream
set_option autoImplicit false

namespace Text

/-! ## The first separator -/

/-- No separator begins in `cs` when `rest` follows. -/
def Clear (sep : List Char) : List Char → List Char → Prop
  | [], _ => True
  | c :: cs, rest => ¬ sep <+: c :: (cs ++ rest) ∧ Clear sep cs rest

variable {sep cs ds rest : List Char}

theorem Clear.append (h1 : Clear sep cs (ds ++ rest)) (h2 : Clear sep ds rest) :
    Clear sep (cs ++ ds) rest := by
  induction cs with
  | nil => exact h2
  | cons c cs ih => exact ⟨by simpa using h1.1, ih h1.2⟩

theorem clear_of_not_mem {mark : Char} (h : mark ∉ cs) (sep rest : List Char) :
    Clear (mark :: sep) cs rest := by
  induction cs with
  | nil => trivial
  | cons c cs ih =>
    obtain ⟨hc, hcs⟩ := not_or.1 (List.mem_cons.not.1 h)
    exact ⟨fun hprefix => hc (List.cons_prefix_cons.1 hprefix).1, ih hcs⟩

theorem splitFirst_of_clear (h : Clear sep cs rest) :
    splitFirst sep (cs ++ rest) =
      (splitFirst sep rest).map fun parts => (cs ++ parts.1, parts.2) := by
  induction cs with
  | nil => simp
  | cons c cs ih =>
    have hnone : sep.isPrefixOf? (c :: (cs ++ rest)) = none := by
      rw [Option.eq_none_iff_forall_ne_some]
      intro later hlater
      exact h.1 ⟨later, List.isPrefixOf?_eq_some_iff_append_eq.1 hlater⟩
    rw [List.cons_append, splitFirst, hnone]
    dsimp only
    rw [ih h.2, Option.map_map]
    rfl

theorem splitFirst_self {mark : Char} (sep rest : List Char) :
    splitFirst (mark :: sep) (mark :: (sep ++ rest)) = some ([], rest) := by
  have hfirst := isPrefixOf?_append (mark :: sep) rest
  rw [List.cons_append] at hfirst
  rw [splitFirst, hfirst]

theorem splitFirst_eq_none {mark : Char} (h : mark ∉ cs) : splitFirst [mark] cs = none := by
  have hclear := splitFirst_of_clear (clear_of_not_mem h [] [])
  rwa [List.append_nil] at hclear

/-! ## Blanks around a word -/

theorem trimEndChars_append {blanks : List Char} (cs : List Char) (h : ∀ c ∈ blanks, isBlank c) :
    trimEndChars (cs ++ blanks) = trimEndChars cs := by
  have hreverse : ∀ c ∈ blanks.reverse, isBlank c := fun c hc => h c (List.mem_reverse.1 hc)
  rw [trimEndChars, List.reverse_append, List.dropWhile_append_of_pos hreverse, trimEndChars]

theorem trimEndChars_word {word : List Char} (h : ∀ c ∈ word, ¬ isBlank c) :
    trimEndChars word = word := by
  have hreverse : ∀ c ∈ word.reverse, ¬ isBlank c := fun c hc => h c (List.mem_reverse.1 hc)
  rw [trimEndChars, List.dropWhile_eq_self_iff.2 fun hpos => hreverse _ (List.get_mem _ _),
    List.reverse_reverse]

theorem trimChars_padded {before word after : List Char} (hbefore : ∀ c ∈ before, isBlank c)
    (hword : ∀ c ∈ word, ¬ isBlank c) (hafter : ∀ c ∈ after, isBlank c) :
    trimChars (before ++ word ++ after) = word := by
  rw [trimChars, List.append_assoc, List.dropWhile_append_of_pos hbefore]
  cases word with
  | nil =>
    rw [List.nil_append, List.dropWhile_eq_nil_iff.2 hafter]
    rfl
  | cons c word =>
    rw [List.cons_append, List.dropWhile_cons_of_neg (hword c List.mem_cons_self),
      ← List.cons_append, trimEndChars_append _ hafter, trimEndChars_word hword]

end Text

/-! ## Names -/

theorem nameOf?_padded {before name after : List Char} (hbefore : ∀ c ∈ before, Text.isBlank c)
    (hempty : name ≠ []) (hname : ∀ c ∈ name, ¬ Text.isBlank c)
    (hafter : ∀ c ∈ after, Text.isBlank c) :
    nameOf? (before ++ name ++ after) = some (String.ofList name) := by
  rw [nameOf?, Text.trimChars_padded hbefore hname hafter]
  simp [hempty]

theorem nameOf?_blank {blanks : List Char} (h : ∀ c ∈ blanks, Text.isBlank c) :
    nameOf? blanks = none := by
  have hnone : ∀ c ∈ ([] : List Char), ¬ Text.isBlank c := by simp
  have htrim := Text.trimChars_padded h hnone (List.forall_mem_nil _)
  rw [List.append_nil, List.append_nil] at htrim
  simp [nameOf?, htrim]

namespace EachArgument

/-- What a name in an argument is made of.  The word that stands before the list is none. -/
structure IsName (name : String) : Prop where
  ne_empty : name ≠ ""
  not_blank : ∀ c ∈ name.toList, ¬ Text.isBlank c
  no_comma : ',' ∉ name.toList
  ne_in : name ≠ "in"

/-- The text is the name with any blanks around it. -/
def Padded (name text : String) : Prop :=
  ∃ before after, Text.isBlankLine before ∧ Text.isBlankLine after ∧ text = before ++ name ++ after

/-- What stands between the names and the list. -/
def separator : List Char :=
  [' ', 'i', 'n', ' ']

/-! ## No separator in the names -/

theorem clear_blanks {blanks rest : List Char} (h : ∀ c ∈ blanks, Text.isBlank c)
    (hrest : ¬ ['i', 'n', ' '] <+: rest) : Text.Clear separator blanks rest := by
  induction blanks with
  | nil => trivial
  | cons c blanks ih =>
    refine ⟨fun hprefix => ?_, ih fun d hd => h d (List.mem_cons_of_mem c hd)⟩
    -- A separator would have to go on with an `i`, and the next character is a blank or in `rest`.
    have hin : ['i', 'n', ' '] <+: blanks ++ rest := (List.cons_prefix_cons.1 hprefix).2
    cases blanks with
    | nil => exact hrest hin
    | cons d blanks =>
      have hblank := h d (by simp)
      rw [← (List.cons_prefix_cons.1 hin).1] at hblank
      exact absurd hblank (by decide)

/-- A name that is not `in` does not read as if it were. -/
theorem IsName.not_prefix {name : String} (h : IsName name) {follow : Char}
    (hfollow : Text.isBlank follow ∨ follow = ',') (rest : List Char) :
    ¬ ['i', 'n', ' '] <+: name.toList ++ follow :: rest := by
  intro hprefix
  have hblank := h.not_blank
  -- Behind a single letter stands no `n`, two letters are another word, and no letter is a space.
  rcases hname : name.toList with _ | ⟨a, _ | ⟨b, _ | ⟨c, cs⟩⟩⟩ <;>
    rw [hname] at hprefix hblank <;>
    simp only [List.nil_append, List.cons_append, List.cons_prefix_cons] at hprefix
  · exact h.ne_empty (String.toList_eq_nil_iff.1 hname)
  · rw [← hprefix.2.1] at hfollow
    exact absurd hfollow (by decide)
  · obtain ⟨rfl, rfl, -⟩ := hprefix
    exact h.ne_in (String.toList_inj.1 hname)
  · obtain ⟨-, -, rfl, -⟩ := hprefix
    exact hblank ' ' (by simp) (by decide)

variable {name text item first source : String}

theorem Padded.clear (hname : IsName name) (h : Padded name text) {mark : Char}
    (hmark : mark = ' ' ∨ mark = ',') (rest : List Char) :
    Text.Clear separator text.toList (mark :: rest) := by
  obtain ⟨before, after, hbefore, hafter, rfl⟩ := h
  simp only [Text.isBlankLine, List.all_eq_true] at hbefore hafter
  rw [String.toList_append, String.toList_append]
  have hspace : ' ' ∉ name.toList := fun hc => hname.not_blank ' ' hc (by decide)
  have hmarked : ¬ ['i', 'n', ' '] <+: mark :: rest := by
    intro hprefix
    obtain rfl := (List.cons_prefix_cons.1 hprefix).1
    exact absurd hmark (by decide)
  have hin : ¬ ['i', 'n', ' '] <+: name.toList ++ (after.toList ++ mark :: rest) := by
    cases hcs : after.toList with
    | nil =>
      refine hname.not_prefix ?_ rest
      rcases hmark with rfl | rfl <;> decide
    | cons c cs => exact hname.not_prefix (.inl (hafter c (by simp [hcs]))) _
  exact ((clear_blanks hbefore hin).append
    (Text.clear_of_not_mem hspace ['i', 'n', ' '] _)).append (clear_blanks hafter hmarked)

theorem Padded.no_comma (hname : IsName name) (h : Padded name text) : ',' ∉ text.toList := by
  obtain ⟨before, after, hbefore, hafter, rfl⟩ := h
  simp only [Text.isBlankLine, List.all_eq_true] at hbefore hafter
  have hcomma : ¬ Text.isBlank ',' := by decide
  have hfront : ',' ∉ before.toList := fun hc => hcomma (hbefore ',' hc)
  have hback : ',' ∉ after.toList := fun hc => hcomma (hafter ',' hc)
  simp [hfront, hback, hname.no_comma]

theorem Padded.nameOf?_eq (hname : IsName name) (h : Padded name text) :
    nameOf? text.toList = some name := by
  obtain ⟨before, after, hbefore, hafter, rfl⟩ := h
  simp only [Text.isBlankLine, List.all_eq_true] at hbefore hafter
  have hempty : name.toList ≠ [] := fun h => hname.ne_empty (String.toList_eq_nil_iff.1 h)
  rw [String.toList_append, String.toList_append,
    nameOf?_padded hbefore hempty hname.not_blank hafter, String.ofList_toList]

/-! ## Arguments as they are written -/

/-- What is in front of the list has no separator in it, so the first one is behind it. -/
theorem splitFirst_written {binding : String}
    (h : Text.Clear separator binding.toList (separator ++ source.toList)) :
    Text.splitFirst separator (binding ++ " in " ++ source).toList =
      some (binding.toList, source.toList) := by
  have hself : Text.splitFirst separator (separator ++ source.toList) = some ([], source.toList) :=
    Text.splitFirst_self ['i', 'n', ' '] source.toList
  have hsplit := Text.splitFirst_of_clear h
  rw [hself, Option.map_some, List.append_nil] at hsplit
  rw [String.toList_append, String.toList_append, List.append_assoc]
  exact hsplit

theorem parse?_single (hitem : IsName item) (hfirst : Padded item first) (source : String) :
    parse? (first ++ " in " ++ source) = some ⟨item, none, Text.trim source⟩ := by
  have hsplit := splitFirst_written
    (hfirst.clear hitem (.inl rfl) ('i' :: 'n' :: ' ' :: source.toList))
  have hcomma := Text.splitFirst_eq_none (hfirst.no_comma hitem)
  rw [separator] at hsplit
  simp only [parse?, hsplit, hcomma, hfirst.nameOf?_eq hitem, Option.map_some, Text.trim]

/-- Behind the first name, what is in front of the list is a name for the position or is nothing. -/
theorem parse?_double {second : String} (hitem : IsName item) (hfirst : Padded item first)
    (hsecond : Text.Clear separator second.toList (separator ++ source.toList)) :
    parse? (first ++ "," ++ second ++ " in " ++ source) =
      some ⟨item, nameOf? second.toList, Text.trim source⟩ := by
  have hbinding : (first ++ "," ++ second).toList = first.toList ++ ',' :: second.toList := by
    simp
  have hcomma := Text.splitFirst_append (hfirst.no_comma hitem) second.toList
  have hclear : Text.Clear separator (first ++ "," ++ second).toList
      (separator ++ source.toList) := by
    rw [hbinding, List.append_cons]
    have hmark : Text.Clear separator [','] (second.toList ++ (separator ++ source.toList)) :=
      Text.clear_of_not_mem (by decide) _ _
    exact ((hfirst.clear hitem (.inr rfl) _).append hmark).append hsecond
  have hsplit := splitFirst_written hclear
  rw [separator, hbinding] at hsplit
  simp only [parse?, hsplit, hcomma, hfirst.nameOf?_eq hitem, Option.map_some, Text.trim]

/-- An argument is read back as it was written: the name of the item, that of the position if there
is one, and the text of the list without the blanks around it, whatever separators that contains. -/
theorem parse?_written (hitem : IsName item) (hfirst : Padded item first) (source : String) :
    parse? (first ++ " in " ++ source) = some ⟨item, none, Text.trim source⟩ ∧
    (∀ index second, IsName index → Padded index second →
      parse? (first ++ "," ++ second ++ " in " ++ source) =
        some ⟨item, some index, Text.trim source⟩) ∧
    ∀ blank, Text.isBlankLine blank → parse? (first ++ "," ++ blank ++ " in " ++ source) =
      some ⟨item, none, Text.trim source⟩ := by
  refine ⟨parse?_single hitem hfirst source, fun index second hindex hsecond => ?_,
    fun blank hblank => ?_⟩
  · have hclear := hsecond.clear hindex (.inl rfl) ('i' :: 'n' :: ' ' :: source.toList)
    rw [parse?_double hitem hfirst hclear, hsecond.nameOf?_eq hindex]
  · simp only [Text.isBlankLine, List.all_eq_true] at hblank
    have hclear : Text.Clear separator blank.toList (separator ++ source.toList) :=
      clear_blanks hblank fun hin => absurd (List.cons_prefix_cons.1 hin).1 (by decide)
    rw [parse?_double hitem hfirst hclear, nameOf?_blank hblank]

/-- Names that begin or end with `in`, between blanks, and lists with both separators in them. -/
theorem parse?_written_inner :
    (IsName "inner" ∧ Padded "inner" " inner\t" ∧ IsName "pin" ∧ Padded "pin" " pin " ∧
      Text.isBlankLine " \t") ∧
      parse? " inner\t in pin in x" = some ⟨"inner", none, "pin in x"⟩ ∧
      parse? " inner\t, pin  in [x in y, 1] " = some ⟨"inner", some "pin", "[x in y, 1]"⟩ ∧
      parse? " inner\t, \t in [x in y, 1] " = some ⟨"inner", none, "[x in y, 1]"⟩ := by
  have hitem : IsName "inner" := ⟨by decide, by simp [Text.isBlank], by decide, by decide⟩
  have hindex : IsName "pin" := ⟨by decide, by simp [Text.isBlank], by decide, by decide⟩
  have hfirst : Padded "inner" " inner\t" := ⟨" ", "\t", by decide, by decide, by decide⟩
  have hsecond : Padded "pin" " pin " := ⟨" ", " ", by decide, by decide, by decide⟩
  have hblank : Text.isBlankLine " \t" := by decide
  have htrim : Text.trim "pin in x" = "pin in x" := by decide
  have htrim' : Text.trim "[x in y, 1] " = "[x in y, 1]" := by decide
  obtain ⟨hsingle, -⟩ := parse?_written hitem hfirst "pin in x"
  obtain ⟨-, hdouble, hunnamed⟩ := parse?_written hitem hfirst "[x in y, 1] "
  rw [htrim] at hsingle
  rw [htrim'] at hdouble hunnamed
  exact ⟨⟨hitem, hfirst, hindex, hsecond, hblank⟩, hsingle, hdouble "pin" " pin " hindex hsecond,
    hunnamed " \t" hblank⟩

end EachArgument
end TreeStream
