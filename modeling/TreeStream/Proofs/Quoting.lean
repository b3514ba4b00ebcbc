import Mathlib.Tactic.IntervalCases
import TreeStream.Json.Reader
import TreeStream.Json.Writer

/-!
# Texts in JSON

What the writer puts between quotes is what the reader takes out of them, in front of any rest.

* `Json.Escaped`: the forms of a character inside a string.
* `Json.readText_content`: an escaped text is read back up to its closing quote.
* `Json.readName_writeString`, `Json.readValue_writeString`: a written string is read as a name and
  as a value.
* `Json.readItems_texts`: the items of an array that holds nothing but texts are read back.
* `Json.texts`: the members of an object that holds nothing but texts; `Json.readMembers_texts` says
  that they are read back, in their order.
-/

namespace TreeStream.Json
set_option autoImplicit false

/-- The forms of a character inside a string.  None of them holds a control character. -/
inductive Escaped (c : Char) : List Char → Prop
  | short {d : Char} (hd : 0x20 ≤ d.toNat) (hmeans : shortEscape? d = some c) : Escaped c ['\\', d]
  | unit {x y : Char} (hx : 0x20 ≤ x.toNat) (hy : 0x20 ≤ y.toNat) (hc : c.toNat < 0x20)
      (hmeans : unit? '0' '0' x y = some c.toNat) : Escaped c ['\\', 'u', '0', '0', x, y]
  | plain (hslash : c ≠ '\\') (hquote : c ≠ '"') (hc : 0x20 ≤ c.toNat) : Escaped c [c]

theorem hexPair_unit {n : Nat} (h : n < 0x20) : ∃ x y, hexPair n = [x, y] ∧ 0x20 ≤ x.toNat ∧
    0x20 ≤ y.toNat ∧ unit? '0' '0' x y = some n := by
  interval_cases n <;> exact ⟨_, _, rfl, by decide, by decide, by decide⟩

theorem escaped_escape (c : Char) : Escaped c (escape c) := by
  have hshort : ∀ {d e : Char}, 0x20 ≤ d.toNat → shortEscape? d = some e → c = e →
      Escaped c ['\\', d] := by
    rintro d e hd hmeans rfl
    exact .short hd hmeans
  unfold escape
  split_ifs with hquote hslash hback hform hfeed hreturn htab hcontrol
  · exact hshort (by decide) rfl hquote
  · exact hshort (by decide) rfl hslash
  · exact hshort (by decide) rfl hback
  · exact hshort (by decide) rfl hform
  · exact hshort (by decide) rfl hfeed
  · exact hshort (by decide) rfl hreturn
  · exact hshort (by decide) rfl htab
  · obtain ⟨x, y, hpair, hx, hy, hunit⟩ := hexPair_unit hcontrol
    rw [hpair]
    exact .unit hx hy hcontrol hunit
  · exact .plain hslash hquote (Nat.le_of_not_lt hcontrol)

namespace Escaped

variable {c : Char} {text : List Char}

theorem readText (h : Escaped c text) (rest : List Char) :
    readText (text ++ rest) = (readText rest).map fun result => (c :: result.1, result.2) := by
  cases h with
  | @short d hd hmeans =>
    have hne : d ≠ 'u' := by
      rintro rfl
      simp [shortEscape?] at hmeans
    simp [Json.readText, hne, hmeans]
  | @unit x y hx hy hc hmeans =>
    have hwhole : isLeading c.toNat = false ∧ isTrailing c.toNat = false := by
      simp only [isLeading, isTrailing, Bool.and_eq_false_iff, decide_eq_false_iff_not]
      omega
    simp [Json.readText, hmeans, hwhole]
  | plain hslash hquote hc => simp [Json.readText, hslash, Nat.not_lt.2 hc]

theorem printable (h : Escaped c text) {d : Char} (hd : d ∈ text) : 0x20 ≤ d.toNat := by
  cases h with
  | @short e he hmeans =>
    obtain rfl | rfl : d = '\\' ∨ d = e := by simpa using hd
    · decide
    · exact he
  | @unit x y hx hy hc hmeans =>
    have hmarks : 0x20 ≤ '\\'.toNat ∧ 0x20 ≤ 'u'.toNat ∧ 0x20 ≤ '0'.toNat := by decide
    simp only [List.mem_cons, List.not_mem_nil, or_false] at hd
    rcases hd with rfl | rfl | rfl | rfl | rfl | rfl
    · exact hmarks.1
    · exact hmarks.2.1
    · exact hmarks.2.2
    · exact hmarks.2.2
    · exact hx
    · exact hy
  | plain hslash hquote hc =>
    obtain rfl := List.mem_singleton.1 hd
    exact hc

end Escaped

/-! ## Strings -/

theorem readText_content (cs rest : List Char) :
    readText (cs.flatMap escape ++ '"' :: rest) = .ok (cs, rest) := by
  induction cs with
  | nil => simp [readText]
  | cons c cs ih =>
    rw [List.flatMap_cons, List.append_assoc, (escaped_escape c).readText, ih]
    rfl

theorem readString_content (s : String) (rest : List Char) :
    readString (s.toList.flatMap escape ++ '"' :: rest) = .ok (s, rest) := by
  rw [readString, readText_content]
  simp [Except.map]

theorem writeString_append (s : String) (rest : List Char) :
    writeString s ++ rest = '"' :: (s.toList.flatMap escape ++ '"' :: rest) := by
  simp [writeString]

theorem printable_writeString (s : String) : ∀ d ∈ writeString s, 0x20 ≤ d.toNat := by
  intro d hd
  have hquote : 0x20 ≤ '"'.toNat := by decide
  rw [writeString, List.mem_append, List.mem_append, List.mem_flatMap] at hd
  rcases hd with (hd | ⟨c, -, hc⟩) | hd
  · exact List.mem_singleton.1 hd ▸ hquote
  · exact (escaped_escape c).printable hc
  · exact List.mem_singleton.1 hd ▸ hquote

theorem skipBlanks_cons {c : Char} (hc : isBlank c = false) (cs : List Char) :
    skipBlanks (c :: cs) = c :: cs := by
  simp [skipBlanks, hc]

theorem readScalar_writeString (s : String) (rest : List Char) :
    readScalar (writeString s ++ rest) = .ok (.str s, rest) := by
  rw [writeString_append, readScalar, readString_content]
  rfl

theorem readName_writeString (s : String) (rest : List Char) :
    readName (writeString s ++ rest) = .ok (s, rest) := by
  rw [writeString_append, readName, skipBlanks_cons (by decide)]
  exact readString_content s rest

theorem readValue_writeString (count depth : Nat) (s : String) (rest : List Char) :
    readValue count depth (writeString s ++ rest) = .ok (.str s, rest) := by
  have hscalar := readScalar_writeString s rest
  have hquote : isBlank '"' = false := by decide
  rw [writeString_append] at hscalar ⊢
  cases depth with
  | zero =>
    rw [readValue, skipBlanks_cons hquote]
    exact hscalar
  | succ depth =>
    simp only [readValue, skipBlanks_cons hquote]
    exact hscalar

/-! ## Items that are texts -/

/-- The text of items behind an opening bracket, when the first of them is this text. -/
def arrayText (text : String) (others : List String) (rest : List Char) : List Char :=
  writeString text ++ (writeItems (others.map .str) ++ ']' :: rest)

theorem writeItems_texts_cons (other : String) (others : List String) (rest : List Char) :
    writeItems ((other :: others).map .str) ++ ']' :: rest =
      ',' :: arrayText other others rest := by
  simp [writeItems, write, arrayText]

theorem readItems_texts {value : Reader Json}
    (hvalue : ∀ s rest, value (writeString s ++ rest) = .ok (.str s, rest)) (text : String)
    (others : List String) {count : Nat} (hcount : others.length < count) (rest : List Char) :
    readItems value count (arrayText text others rest) =
      .ok (.str text :: others.map .str, rest) := by
  induction others generalizing text count with
  | nil =>
    obtain ⟨count, rfl⟩ := Nat.exists_eq_add_one.2 hcount
    simp only [arrayText, readItems, hvalue, bind, Except.bind, List.map_nil, writeItems,
      List.nil_append]
    rw [skipBlanks_cons (by decide)]
    rfl
  | cons other others ih =>
    obtain ⟨count, rfl⟩ := Nat.exists_eq_add_one.2 (Nat.zero_lt_of_lt hcount)
    have hmore := ih other (Nat.lt_of_succ_lt_succ hcount)
    rw [arrayText, writeItems_texts_cons]
    simp only [readItems, hvalue, bind, Except.bind]
    rw [skipBlanks_cons (by decide)]
    simp only [hmore]
    rfl

/-! ## Members that are texts -/

/-- The members of an object that holds nothing but texts. -/
def texts (fields : List (String × String)) : List (String × Json) :=
  fields.map fun field => (field.1, .str field.2)

theorem printable_writeMembers_texts (fields : List (String × String)) :
    ∀ d ∈ writeMembers (texts fields), 0x20 ≤ d.toNat := by
  induction fields with
  | nil => simp [texts, writeMembers]
  | cons field fields ih =>
    have hmarks : 0x20 ≤ ','.toNat ∧ 0x20 ≤ ':'.toNat := by decide
    intro d hd
    simp only [texts, List.map_cons, writeMembers, write, List.mem_append, List.mem_singleton] at hd
    rcases hd with (((rfl | hd) | rfl) | hd) | hd
    · exact hmarks.1
    · exact printable_writeString field.1 d hd
    · exact hmarks.2
    · exact printable_writeString field.2 d hd
    · exact ih d hd

@[simp] theorem expectColon_colon (cs : List Char) : expectColon (':' :: cs) = .ok cs := by
  simp [expectColon, skipBlanks, isBlank]

/-- The text of members behind an opening brace, when the first of them has this name and text. -/
def membersText (name text : String) (fields : List (String × String)) (rest : List Char) :
    List Char :=
  writeString name ++ ':' :: (writeString text ++ (writeMembers (texts fields) ++ '\x7d' :: rest))

theorem writeMembers_texts_cons (field : String × String) (fields : List (String × String))
    (rest : List Char) : writeMembers (texts (field :: fields)) ++ '\x7d' :: rest =
      ',' :: membersText field.1 field.2 fields rest := by
  simp [texts, writeMembers, write, membersText]

theorem readMembers_texts {value : Reader Json}
    (hvalue : ∀ s rest, value (writeString s ++ rest) = .ok (.str s, rest)) (name text : String)
    (fields : List (String × String)) {count : Nat} (hcount : fields.length < count)
    (rest : List Char) :
    readMembers value count (membersText name text fields rest) =
      .ok ((name, .str text) :: texts fields, rest) := by
  induction fields generalizing name text count with
  | nil =>
    obtain ⟨count, rfl⟩ := Nat.exists_eq_add_one.2 hcount
    simp only [membersText, readMembers, readName_writeString, hvalue, bind, Except.bind,
      expectColon_colon, texts, List.map_nil, writeMembers, List.nil_append]
    rw [skipBlanks_cons (by decide)]
    rfl
  | cons field fields ih =>
    obtain ⟨count, rfl⟩ := Nat.exists_eq_add_one.2 (Nat.zero_lt_of_lt hcount)
    have hmore := ih field.1 field.2 (Nat.lt_of_succ_lt_succ hcount)
    rw [membersText, writeMembers_texts_cons]
    simp only [readMembers, readName_writeString, hvalue, bind, Except.bind, expectColon_colon]
    rw [skipBlanks_cons (by decide)]
    simp only [hmore]
    rfl

/-- An object is read by its members, unless it is empty. -/
theorem readValue_of_members {count depth : Nat} {cs rest : List Char}
    {members : List (String × Json)}
    (hmembers : readMembers (readValue count depth) count ('"' :: cs) = .ok (members, rest)) :
    readValue count (depth + 1) ('\x7b' :: '"' :: cs) = .ok (ofMembers members, rest) := by
  simp [readValue, skipBlanks, isBlank, hmembers, bind, Except.bind]

end TreeStream.Json
