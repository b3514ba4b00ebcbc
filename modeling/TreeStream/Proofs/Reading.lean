import TreeStream.Command.Run
import TreeStream.Proofs.Encoding
import TreeStream.Proofs.Numerals
import TreeStream.Proofs.Quoting
import TreeStream.Proofs.Values

/-!
# Values as text

The text of a value brings it back, in front of any rest, as long as its containers are not nested
deeper than the reader follows them.

* `Value.ReadsBack`: what is asked of the text of a number that is no small integer.
* `Json.Reads`, `Json.Refuses`: what a reader makes of the text of a value.  Containers are read by
  `readItems_reads` and `readMembers_reads` when their parts are, and refused by
  `readItems_refuses` and `readMembers_refuses` when a part is.
* `Json.handles_readValue`: one induction over values for both.
* `Command.values_survive`: the same for the variables in a file.
-/

namespace TreeStream
set_option autoImplicit false

/-- The JSON text of a number that is no small integer is read as an equal number. -/
def Value.ReadsBack (x : Float) : Prop :=
  x.isFinite → Number.smallWhole? x = none →
    ∃ json, Json.parse (Json.compact (.real x)) = .ok json ∧ ofJson json == .num x

namespace Json

open Value (equal equalItems equalEntries ReadsBack)

variable {reader : Reader Json} {count depth : Nat} {value item : Value} {items : List Value}
  {name : String} {entries : List (String × Value)}

/-! ## Values in front of other text -/

/-- The reader reads the text of a value, whatever follows, as a value that equals it. -/
def Reads (reader : Reader Json) (value : Value) : Prop :=
  ∀ rest, Stops rest → ∃ json, reader (write value.toJson ++ rest) = .ok (json, rest) ∧
    equal (Value.ofJson json) value.finite

/-- The reader refuses the text of a value, whatever follows. -/
def Refuses (reader : Reader Json) (value : Value) : Prop :=
  ∀ rest, Stops rest → reader (write value.toJson ++ rest) = .error .malformed

theorem skipBlanks_comma (cs : List Char) : skipBlanks (',' :: cs) = ',' :: cs :=
  skipBlanks_cons (by decide) cs

theorem skipBlanks_bracket (cs : List Char) : skipBlanks (']' :: cs) = ']' :: cs :=
  skipBlanks_cons (by decide) cs

/-- The text of items behind an opening bracket. -/
def itemsText (item : Value) (items : List Value) (rest : List Char) : List Char :=
  write item.toJson ++ (writeItems (Value.itemsToJson items) ++ ']' :: rest)

theorem writeItems_cons (item : Value) (items : List Value) (rest : List Char) :
    writeItems (Value.itemsToJson (item :: items)) ++ ']' :: rest =
      ',' :: itemsText item items rest := by
  simp [Value.itemsToJson, writeItems, itemsText]

theorem stops_writeItems (items : List Value) (rest : List Char) :
    Stops (writeItems (Value.itemsToJson items) ++ ']' :: rest) := by
  rcases items with _ | ⟨item, items⟩
  · exact stops_cons (by decide) rest
  · rw [writeItems_cons]
    exact stops_cons (by decide) _

theorem readItems_reads (h : ∀ other ∈ item :: items, Reads reader other)
    (hcount : items.length < count) (rest : List Char) :
    ∃ jsons, readItems reader count (itemsText item items rest) = .ok (jsons, rest) ∧
      equalItems (Value.itemsOfJson jsons) (Value.finiteItems (item :: items)) := by
  induction items generalizing item count with
  | nil =>
    obtain ⟨count, rfl⟩ := Nat.exists_eq_add_one.2 hcount
    obtain ⟨json, hread, hequal⟩ := h item List.mem_cons_self _ (stops_writeItems [] rest)
    refine ⟨[json], ?_, ?_⟩
    · simp only [readItems, itemsText, hread, bind, Except.bind]
      simp [Value.itemsToJson, writeItems, skipBlanks_bracket]
    · simp [Value.itemsOfJson, Value.finiteItems, equalItems, hequal]
  | cons other items ih =>
    obtain ⟨count, rfl⟩ := Nat.exists_eq_add_one.2 (Nat.zero_lt_of_lt hcount)
    obtain ⟨json, hread, hequal⟩ :=
      h item List.mem_cons_self _ (stops_writeItems (other :: items) rest)
    obtain ⟨jsons, hmore, hequals⟩ := ih (fun next hnext => h next (List.mem_cons_of_mem _ hnext))
      (Nat.lt_of_succ_lt_succ hcount)
    refine ⟨json :: jsons, ?_, ?_⟩
    · simp only [readItems, itemsText, hread, bind, Except.bind]
      simp only [writeItems_cons, skipBlanks_comma, hmore]
    · simp only [Value.itemsOfJson, Value.finiteItems, equalItems, hequal, Bool.true_and]
      exact hequals

theorem Reads.not_refuses (h : Reads reader value) : ¬ Refuses reader value := by
  intro hrefuses
  obtain ⟨json, hread, -⟩ := h [] stops_nil
  rw [hrefuses [] stops_nil] at hread
  cases hread

theorem readItems_of_refuses (h : Refuses reader item) (items : List Value) (rest : List Char) :
    readItems reader count (itemsText item items rest) = .error .malformed := by
  cases count with
  | zero => rfl
  | succ count =>
    simp only [readItems, itemsText, h _ (stops_writeItems items rest), bind, Except.bind]

-- Items before the first one that is refused are read, so the error is the one of that item.
theorem readItems_refuses (h : ∀ other ∈ item :: items, Reads reader other ∨ Refuses reader other)
    (hdeep : ∃ other ∈ item :: items, Refuses reader other) (rest : List Char) :
    readItems reader count (itemsText item items rest) = .error .malformed := by
  induction items generalizing item count with
  | nil =>
    obtain ⟨other, hother, hrefuses⟩ := hdeep
    obtain rfl := List.mem_singleton.1 hother
    exact readItems_of_refuses hrefuses [] rest
  | cons next items ih =>
    rcases h item List.mem_cons_self with hreads | hrefuses
    · have hlater : ∃ other ∈ next :: items, Refuses reader other := by
        obtain ⟨other, hother, hrefuses⟩ := hdeep
        rcases List.mem_cons.1 hother with rfl | hother
        · exact absurd hrefuses hreads.not_refuses
        · exact ⟨other, hother, hrefuses⟩
      cases count with
      | zero => rfl
      | succ count =>
        obtain ⟨json, hread, -⟩ := hreads _ (stops_writeItems (next :: items) rest)
        have hmore : readItems reader count (itemsText next items rest) = .error .malformed :=
          ih (fun other hother => h other (List.mem_cons_of_mem _ hother)) hlater
        simp only [readItems, itemsText, hread, bind, Except.bind]
        simp only [writeItems_cons, skipBlanks_comma, hmore]
    · exact readItems_of_refuses hrefuses (next :: items) rest

/-- The text of members behind an opening brace. -/
def entriesText (name : String) (value : Value) (entries : List (String × Value))
    (rest : List Char) : List Char :=
  writeString name ++ ':' :: (write value.toJson ++
    (writeMembers (Value.entriesToJson entries) ++ '\x7d' :: rest))

theorem writeMembers_cons (entry : String × Value) (entries : List (String × Value))
    (rest : List Char) : writeMembers (Value.entriesToJson (entry :: entries)) ++ '\x7d' :: rest =
      ',' :: entriesText entry.1 entry.2 entries rest := by
  simp [Value.entriesToJson, writeMembers, entriesText]

theorem stops_writeMembers (entries : List (String × Value)) (rest : List Char) :
    Stops (writeMembers (Value.entriesToJson entries) ++ '\x7d' :: rest) := by
  rcases entries with _ | ⟨entry, entries⟩
  · exact stops_cons (by decide) rest
  · rw [writeMembers_cons]
    exact stops_cons (by decide) _

theorem readMembers_reads (h : ∀ entry ∈ (name, value) :: entries, Reads reader entry.2)
    (hcount : entries.length < count) (rest : List Char) :
    ∃ members, readMembers reader count (entriesText name value entries rest) =
        .ok (members, rest) ∧
      equalEntries (Value.entriesOfJson members)
        (Value.finiteEntries ((name, value) :: entries)) := by
  induction entries generalizing name value count with
  | nil =>
    obtain ⟨count, rfl⟩ := Nat.exists_eq_add_one.2 hcount
    obtain ⟨json, hread, hequal⟩ := h _ List.mem_cons_self _ (stops_writeMembers [] rest)
    refine ⟨[(name, json)], ?_, ?_⟩
    · simp only [readMembers, entriesText, readName_writeString, expectColon_colon, hread, bind,
        Except.bind]
      simp only [Value.entriesToJson, writeMembers, List.nil_append]
      rw [skipBlanks_cons (by decide)]
      rfl
    · simp [Value.entriesOfJson, Value.finiteEntries, equalEntries, hequal]
  | cons next entries ih =>
    have hlater : ∀ entry ∈ (next.1, next.2) :: entries, Reads reader entry.2 :=
      fun entry hentry => h entry (List.mem_cons_of_mem _ hentry)
    obtain ⟨count, rfl⟩ := Nat.exists_eq_add_one.2 (Nat.zero_lt_of_lt hcount)
    obtain ⟨json, hread, hequal⟩ :=
      h _ List.mem_cons_self _ (stops_writeMembers (next :: entries) rest)
    obtain ⟨members, hmore, hequals⟩ := ih hlater (Nat.lt_of_succ_lt_succ hcount)
    refine ⟨(name, json) :: members, ?_, ?_⟩
    · simp only [readMembers, entriesText, readName_writeString, expectColon_colon, hread, bind,
        Except.bind]
      simp only [writeMembers_cons, skipBlanks_comma, hmore]
    · rw [Value.entriesOfJson, Value.finiteEntries, equalEntries, hequal, hequals]
      simp

theorem readMembers_of_refuses (h : Refuses reader value) (name : String)
    (entries : List (String × Value)) (rest : List Char) :
    readMembers reader count (entriesText name value entries rest) = .error .malformed := by
  cases count with
  | zero => rfl
  | succ count =>
    simp only [readMembers, entriesText, readName_writeString, expectColon_colon,
      h _ (stops_writeMembers entries rest), bind, Except.bind]

theorem readMembers_refuses
    (h : ∀ entry ∈ (name, value) :: entries, Reads reader entry.2 ∨ Refuses reader entry.2)
    (hdeep : ∃ entry ∈ (name, value) :: entries, Refuses reader entry.2) (rest : List Char) :
    readMembers reader count (entriesText name value entries rest) = .error .malformed := by
  induction entries generalizing name value count with
  | nil =>
    obtain ⟨other, hother, hrefuses⟩ := hdeep
    obtain rfl := List.mem_singleton.1 hother
    exact readMembers_of_refuses hrefuses name [] rest
  | cons next entries ih =>
    rcases h _ List.mem_cons_self with hreads | hrefuses
    · have hlater : ∃ entry ∈ next :: entries, Refuses reader entry.2 := by
        obtain ⟨other, hother, hrefuses⟩ := hdeep
        rcases List.mem_cons.1 hother with rfl | hother
        · exact absurd hrefuses hreads.not_refuses
        · exact ⟨other, hother, hrefuses⟩
      cases count with
      | zero => rfl
      | succ count =>
        obtain ⟨json, hread, -⟩ := hreads _ (stops_writeMembers (next :: entries) rest)
        have hmore : readMembers reader count (entriesText next.1 next.2 entries rest) =
            .error .malformed :=
          ih (fun entry hentry => h entry (List.mem_cons_of_mem _ hentry)) hlater
        simp only [readMembers, entriesText, readName_writeString, expectColon_colon, hread, bind,
          Except.bind]
        simp only [writeMembers_cons, skipBlanks_comma, hmore]
    · exact readMembers_of_refuses hrefuses name (next :: entries) rest

/-! ## One value -/

theorem toJson_of_not_isFinite {x : Float} (h : ¬ x.isFinite) :
    Value.toJson (.num x) = .null := by
  cases hsmall : Number.smallWhole? x with
  | some i => exact absurd (Number.isFinite_of_whole (Number.smallWhole?_eq_some hsmall).1) h
  | none => simp [Value.toJson, Value.numToJson, hsmall, h]

/-- The text of a finite number is one number, and equals it. -/
theorem readNumber_write {x : Float} (h : ReadsBack x) (hfinite : x.isFinite) :
    (∀ c ∈ write (Value.toJson (.num x)), isNumberChar c) ∧
      ∃ json, readNumber (write (Value.toJson (.num x))) = .ok (json, []) ∧
        equal (Value.ofJson json) (.num x) := by
  have hthere := Value.ofJson_toJson (.num x)
  rw [Value.finite, if_pos hfinite] at hthere
  cases hsmall : Number.smallWhole? x with
  | some i =>
    have hjson : Value.toJson (.num x) = .int i := by
      simp [Value.toJson, Value.numToJson, hsmall]
    have hi := (Number.smallWhole?_eq_some hsmall).2
    rw [hjson] at hthere ⊢
    exact ⟨isNumberChar_of_mem_signedNumeral i, _, readNumber_signedNumeral (by omega), hthere⟩
  | none =>
    have hjson : Value.toJson (.num x) = .real x := by
      simp [Value.toJson, Value.numToJson, hsmall, hfinite]
    have hchars := isNumberChar_of_mem_writeReal hfinite
    obtain ⟨json, hparse, hequal⟩ := h hfinite hsmall
    rw [hjson]
    exact ⟨hchars, json, readNumber_of_parse hchars hparse, hequal⟩

/-- No text of a value begins like the end of a list. -/
theorem write_cons (hnumbers : ∀ x ∈ value.numbers, ReadsBack x) :
    ∃ c cs, write value.toJson = c :: cs ∧ isBlank c = false ∧ c ≠ ']' := by
  cases value with
  | null => exact ⟨_, _, rfl, by decide, by decide⟩
  | bool b => cases b <;> exact ⟨_, _, rfl, by decide, by decide⟩
  | num x =>
    by_cases hfinite : x.isFinite
    · have hback := hnumbers x (by simp [Value.numbers])
      obtain ⟨hchars, json, hnumber, -⟩ := readNumber_write hback hfinite
      cases htext : write (Value.toJson (.num x)) with
      | nil =>
        rw [htext] at hnumber
        cases hnumber
      | cons c cs =>
        rw [htext] at hchars
        have hc := hchars c List.mem_cons_self
        exact ⟨c, cs, rfl, isBlank_of_isNumberChar hc, ne_of_isNumberChar hc (by decide)⟩
    · rw [toJson_of_not_isFinite hfinite]
      exact ⟨_, _, rfl, by decide, by decide⟩
  | str s => exact ⟨'"', _, rfl, by decide, by decide⟩
  | list items =>
    cases items with
    | nil => exact ⟨_, _, rfl, by decide, by decide⟩
    | cons item items => exact ⟨'[', _, rfl, by decide, by decide⟩
  | obj entries =>
    cases entries with
    | nil => exact ⟨_, _, rfl, by decide, by decide⟩
    | cons entry entries => exact ⟨'\x7b', _, rfl, by decide, by decide⟩

theorem reads_num {x : Float} (h : ReadsBack x) (count depth : Nat) :
    Reads (readValue count depth) (.num x) := by
  intro rest hrest
  by_cases hfinite : x.isFinite
  · obtain ⟨hchars, json, hnumber, hequal⟩ := readNumber_write h hfinite
    have hread := readNumber_append hrest (write (Value.toJson (.num x)))
    rw [hnumber] at hread
    refine ⟨json, ?_, by rwa [Value.finite, if_pos hfinite]⟩
    cases htext : write (Value.toJson (.num x)) with
    | nil =>
      rw [htext] at hnumber
      cases hnumber
    | cons c cs =>
      rw [htext] at hread hchars
      exact (readValue_cons_of_isNumberChar (hchars c List.mem_cons_self) count depth _).trans hread
  · refine ⟨.null, ?_, by rw [Value.finite, if_neg hfinite]; rfl⟩
    rw [toJson_of_not_isFinite hfinite]
    exact readValue_cons_of_scalar (by decide) (by decide) (by decide) count depth _

theorem write_list (item : Value) (items : List Value) (rest : List Char) :
    write (Value.list (item :: items)).toJson ++ rest = '[' :: itemsText item items rest := by
  simp [Value.toJson, Value.itemsToJson, write, itemsText]

theorem write_obj (name : String) (value : Value) (entries : List (String × Value))
    (rest : List Char) : write (Value.obj ((name, value) :: entries)).toJson ++ rest =
      '\x7b' :: entriesText name value entries rest := by
  simp [Value.toJson, Value.entriesToJson, write, entriesText]

theorem length_write_list (item : Value) (items : List Value) :
    (write (Value.list (item :: items)).toJson).length =
      (writeItems (Value.itemsToJson (item :: items))).length + 1 := by
  simp +arith [Value.toJson, Value.itemsToJson, write, writeItems]

theorem length_write_obj (entry : String × Value) (entries : List (String × Value)) :
    (write (Value.obj (entry :: entries)).toJson).length =
      (writeMembers (Value.entriesToJson (entry :: entries))).length + 1 := by
  simp +arith [Value.toJson, Value.entriesToJson, write, writeMembers]

theorem length_write_le_items (h : item ∈ items) :
    (write item.toJson).length ≤ (writeItems (Value.itemsToJson items)).length := by
  induction items with
  | nil => cases h
  | cons first items ih =>
    simp only [Value.itemsToJson, writeItems, List.length_append]
    rcases List.mem_cons.1 h with rfl | h
    · omega
    · have := ih h
      omega

theorem length_items_le (items : List Value) :
    items.length ≤ (writeItems (Value.itemsToJson items)).length := by
  induction items with
  | nil => exact Nat.zero_le _
  | cons first items ih =>
    simp only [Value.itemsToJson, writeItems, List.length_append, List.length_cons, List.length_nil]
    omega

theorem length_write_le_entries {entry : String × Value} (h : entry ∈ entries) :
    (write entry.2.toJson).length ≤ (writeMembers (Value.entriesToJson entries)).length := by
  induction entries with
  | nil => cases h
  | cons first entries ih =>
    simp only [Value.entriesToJson, writeMembers, List.length_append]
    rcases List.mem_cons.1 h with rfl | h
    · omega
    · have := ih h
      omega

theorem length_entries_le (entries : List (String × Value)) :
    entries.length ≤ (writeMembers (Value.entriesToJson entries)).length := by
  induction entries with
  | nil => exact Nat.zero_le _
  | cons first entries ih =>
    simp only [Value.entriesToJson, writeMembers, List.length_append, List.length_cons,
      List.length_nil]
    omega

theorem readValue_list (count depth : Nat) (hnumbers : ∀ x ∈ item.numbers, ReadsBack x)
    (items : List Value) (rest : List Char) :
    readValue count (depth + 1) ('[' :: itemsText item items rest) =
      (readItems (readValue count depth) count (itemsText item items rest)).map fun result =>
        (.arr result.1, result.2) := by
  obtain ⟨c, cs, htext, hblank, hclose⟩ := write_cons hnumbers
  have hbracket : isBlank '[' = false := by decide
  have hitems : itemsText item items rest =
      c :: (cs ++ (writeItems (Value.itemsToJson items) ++ ']' :: rest)) := by
    rw [itemsText, htext, List.cons_append]
  simp only [hitems, readValue, skipBlanks_cons hbracket, skipBlanks_cons hblank, bind, Except.bind,
    Except.map]
  split
  · rename_i heq
    exact absurd (List.cons.inj heq).1 hclose
  · rfl

theorem readValue_obj (count depth : Nat) (name : String) (value : Value)
    (entries : List (String × Value)) (rest : List Char) :
    readValue count (depth + 1) ('\x7b' :: entriesText name value entries rest) =
      (readMembers (readValue count depth) count (entriesText name value entries rest)).map
        fun result => (ofMembers result.1, result.2) := by
  have hbrace : isBlank '\x7b' = false := by decide
  have hquote : isBlank '"' = false := by decide
  simp only [entriesText, writeString_append, readValue, skipBlanks_cons hbrace,
    skipBlanks_cons hquote, bind, Except.bind, Except.map]
  rfl

/-- Where no container may begin, its opening mark is no value either. -/
theorem readValue_zero_bracket (count : Nat) (cs : List Char) :
    readValue count 0 ('[' :: cs) = .error .malformed := by
  rw [readValue, skipBlanks_cons (by decide)]
  rfl

theorem readValue_zero_brace (count : Nat) (cs : List Char) :
    readValue count 0 ('\x7b' :: cs) = .error .malformed := by
  rw [readValue, skipBlanks_cons (by decide)]
  rfl

/-- What becomes of the text of a value, when containers may be nested to a depth. -/
def Handles (reader : Reader Json) (depth : Nat) (value : Value) : Prop :=
  if value.depth ≤ depth then Reads reader value else Refuses reader value

theorem Handles.reads (h : Handles reader depth value) (hdepth : value.depth ≤ depth) :
    Reads reader value := by
  rwa [Handles, if_pos hdepth] at h

theorem Handles.refuses (h : Handles reader depth value) (hdepth : depth < value.depth) :
    Refuses reader value := by
  rwa [Handles, if_neg (Nat.not_le_of_lt hdepth)] at h

theorem Handles.cases (h : Handles reader depth value) :
    Reads reader value ∨ Refuses reader value := by
  rcases Nat.lt_or_ge depth value.depth with hdeep | hdepth
  · exact .inr (h.refuses hdeep)
  · exact .inl (h.reads hdepth)

theorem handles_of_reads (hdepth : value.depth = 0) (h : Reads reader value) :
    Handles reader depth value := by
  rwa [Handles, if_pos (hdepth ▸ Nat.zero_le depth)]

theorem handles_list (h : ∀ other ∈ item :: items, Handles (readValue count depth) depth other)
    (hnumbers : ∀ x ∈ item.numbers, ReadsBack x) (hcount : items.length < count) :
    Handles (readValue count (depth + 1)) (depth + 1) (.list (item :: items)) := by
  unfold Handles
  split
  · rename_i hdepth
    intro rest _
    obtain ⟨jsons, hread, hequal⟩ := readItems_reads (fun other hother =>
      (h other hother).reads (Nat.le_trans (Value.depth_le_of_mem hother)
        (Nat.le_of_succ_le_succ hdepth))) hcount rest
    refine ⟨.arr jsons, ?_, hequal⟩
    rw [write_list, readValue_list count depth hnumbers, hread]
    rfl
  · rename_i hdepth
    intro rest _
    have hdeep : depth < Value.depthItems (item :: items) :=
      Nat.lt_of_succ_lt_succ (Nat.lt_of_not_le hdepth)
    obtain ⟨other, hother, hdeep⟩ := Value.exists_deep hdeep
    have hread : readItems (readValue count depth) count (itemsText item items rest) =
        .error .malformed :=
      readItems_refuses (fun next hnext => (h next hnext).cases)
        ⟨other, hother, (h other hother).refuses hdeep⟩ rest
    rw [write_list, readValue_list count depth hnumbers, hread]
    rfl

theorem handles_obj
    (h : ∀ entry ∈ (name, value) :: entries, Handles (readValue count depth) depth entry.2)
    (hsorted : Entries.Sorted ((name, value) :: entries)) (hcount : entries.length < count) :
    Handles (readValue count (depth + 1)) (depth + 1) (.obj ((name, value) :: entries)) := by
  unfold Handles
  rw [Value.depth, Value.depthEntries_eq]
  split
  · rename_i hdepth
    intro rest _
    obtain ⟨members, hread, hequal⟩ := readMembers_reads (fun entry hentry =>
      (h entry hentry).reads (Nat.le_trans
        (Value.depth_le_of_mem (List.mem_map_of_mem (f := Prod.snd) hentry))
        (Nat.le_of_succ_le_succ hdepth))) hcount rest
    have hmembers := Entries.putAll_of_sorted (Value.sorted_of_equalEntries hsorted hequal)
    refine ⟨.obj members, ?_, hequal⟩
    rw [write_obj, readValue_obj, hread, Except.map, ofMembers, hmembers]
  · rename_i hdepth
    intro rest _
    obtain ⟨other, hother, hdeep⟩ := Value.exists_deep
      (Nat.lt_of_succ_lt_succ (Nat.lt_of_not_le hdepth))
    obtain ⟨entry, hentry, rfl⟩ := List.mem_map.1 hother
    have hread : readMembers (readValue count depth) count (entriesText name value entries rest) =
        .error .malformed :=
      readMembers_refuses (fun next hnext => (h next hnext).cases)
        ⟨entry, hentry, (h entry hentry).refuses hdeep⟩ rest
    rw [write_obj, readValue_obj, hread]
    rfl

/-- The text of a value is read as a value that equals it, or refused if it is nested too deep. -/
theorem handles_readValue (hordered : value.Ordered) (hnumbers : ∀ x ∈ value.numbers, ReadsBack x)
    (hcount : (write value.toJson).length ≤ count) :
    Handles (readValue count depth) depth value := by
  -- Each container takes one from the depth, while `count` is only asked to exceed the number of
  -- parts, which the text of the whole value does at every depth.
  induction hordered generalizing depth with
  | null =>
    exact handles_of_reads rfl fun rest _ => ⟨.null,
      readValue_cons_of_scalar (by decide) (by decide) (by decide) count depth _, rfl⟩
  | bool b =>
    refine handles_of_reads rfl fun rest _ =>
      ⟨.bool b, ?_, by simp [Value.ofJson, Value.finite, equal]⟩
    cases b <;> exact readValue_cons_of_scalar (by decide) (by decide) (by decide) count depth _
  | num x => exact handles_of_reads rfl (reads_num (hnumbers x List.mem_cons_self) count depth)
  | str s =>
    exact handles_of_reads rfl fun rest _ => ⟨.str s, readValue_writeString count depth s rest,
      by simp [Value.ofJson, Value.finite, equal]⟩
  | @list items hitems ih =>
    cases depth with
    | zero =>
      intro rest _
      cases items <;> exact readValue_zero_bracket count _
    | succ depth =>
      cases items with
      | nil =>
        intro rest _
        exact ⟨.arr [], by simp [Value.toJson, Value.itemsToJson, write, readValue, skipBlanks,
          isBlank], rfl⟩
      | cons item items =>
        have hback : ∀ other ∈ item :: items, ∀ x ∈ other.numbers, ReadsBack x :=
          fun other hother x hx => hnumbers x (Value.mem_numbersOfItems hother hx)
        have hfew := length_items_le (item :: items)
        rw [length_write_list] at hcount
        rw [List.length_cons] at hfew
        refine handles_list (fun other hother => ?_) (hback item List.mem_cons_self) (by omega)
        have hlength := length_write_le_items hother
        exact ih other hother (hback other hother) (by omega)
  | @obj entries hsorted hentries ih =>
    cases depth with
    | zero =>
      intro rest _
      cases entries <;> exact readValue_zero_brace count _
    | succ depth =>
      cases entries with
      | nil =>
        intro rest _
        exact ⟨.obj [], by simp [Value.toJson, Value.entriesToJson, write, readValue, skipBlanks,
          isBlank], rfl⟩
      | cons entry entries =>
        obtain ⟨name, value⟩ := entry
        have hfew := length_entries_le ((name, value) :: entries)
        rw [length_write_obj] at hcount
        rw [List.length_cons] at hfew
        refine handles_obj (fun other hother => ?_) hsorted (by omega)
        have hlength := length_write_le_entries hother
        refine ih other hother (fun x hx => hnumbers x ?_) (by omega)
        rw [Value.numbers, Value.numbersOfEntries_eq]
        exact Value.mem_numbersOfItems (List.mem_map_of_mem (f := Prod.snd) hother) hx

/-- The text of a value that is not nested too deep, as a text of its own. -/
theorem parse_compact (hordered : value.Ordered) (hnumbers : ∀ x ∈ value.numbers, ReadsBack x)
    (hdepth : value.depth ≤ maxDepth) :
    ∃ json, parse (compact value.toJson) = .ok json ∧
      equal (Value.ofJson json) value.finite := by
  have hhandles : Handles (readValue _ maxDepth) maxDepth value :=
    handles_readValue hordered hnumbers (Nat.le_refl _)
  obtain ⟨json, hread, hequal⟩ := hhandles.reads hdepth [] stops_nil
  rw [List.append_nil] at hread
  refine ⟨json, ?_, hequal⟩
  rw [parse, whole, compact, String.toList_ofList, hread]
  rfl

theorem parse_compact_deep (hordered : value.Ordered)
    (hnumbers : ∀ x ∈ value.numbers, ReadsBack x) (hdepth : maxDepth < value.depth) :
    parse (compact value.toJson) = .error .malformed := by
  have hhandles : Handles (readValue _ maxDepth) maxDepth value :=
    handles_readValue hordered hnumbers (Nat.le_refl _)
  have hread := hhandles.refuses hdepth [] stops_nil
  rw [List.append_nil] at hread
  rw [parse, whole, compact, String.toList_ofList, hread]
  rfl

end Json

namespace Command

open Text.Lines (toBytes decode?_toBytes)

variable {files : Files} {path : String} {entries : List (String × Value)}

theorem entries_ofList {α : Type} (pairs : List (String × α)) :
    (Table.ofList pairs).entries = Entries.putAll pairs [] := by
  have hputAll (table : Table α) : (table.putAll pairs).entries =
      Entries.putAll pairs table.entries := by
    induction pairs generalizing table with
    | nil => rfl
    | cons pair pairs ih => exact ih (table.put pair.1 pair.2)
  exact hputAll Table.empty

theorem seed_of_parse {text : String} (hload : files.load path = .ok (toBytes text)) :
    seed files (some path) =
      match Json.parse text with
      | .error fault => .error (.malformed path fault)
      | .ok (.obj members) => .ok (Scope.ofList (Value.entriesOfJson members))
      | .ok _ => .error (.notAnObject path) := by
  cases hparse : Json.parse text with
  | error fault => simp [seed, hload, decode?_toBytes, hparse]
  | ok json => cases json <;> simp [seed, hload, decode?_toBytes, hparse]

theorem members_of_equal {json : Json} {entries : List (String × Value)}
    (h : Value.equal (Value.ofJson json) (.obj entries)) :
    ∃ members, json = .obj members ∧ Value.equalEntries (Value.entriesOfJson members) entries := by
  cases json with
  | obj members => exact ⟨members, rfl, h⟩
  | _ => cases h

theorem toText_obj (entries : List (String × Value)) :
    (Value.obj entries).toText = Json.compact (Value.obj entries).toJson := rfl

theorem seed_toText (hordered : (Value.obj entries).Ordered)
    (hnumbers : ∀ x ∈ (Value.obj entries).numbers, Value.ReadsBack x)
    (hload : files.load path = .ok (toBytes (Value.obj entries).toText))
    (hdepth : (Value.obj entries).depth ≤ Json.maxDepth) :
    ∃ scope, seed files (some path) = .ok scope ∧
      Value.obj scope.vars.entries == (Value.obj entries).finite := by
  obtain ⟨json, hread, hequal⟩ := Json.parse_compact hordered hnumbers hdepth
  obtain ⟨members, rfl, hmembers⟩ := members_of_equal hequal
  cases hordered with
  | obj hsorted hentries =>
    have hsorted := Entries.sorted_of_names (Value.names_entriesOfJson members)
      (Value.sorted_of_equalEntries hsorted hmembers)
    refine ⟨Scope.ofList (Value.entriesOfJson members), ?_, ?_⟩
    · rw [seed_of_parse hload, toText_obj, hread]
    · rw [Scope.ofList, entries_ofList, Entries.putAll_of_sorted hsorted]
      exact hmembers

theorem seed_toText_deep (hordered : (Value.obj entries).Ordered)
    (hnumbers : ∀ x ∈ (Value.obj entries).numbers, Value.ReadsBack x)
    (hload : files.load path = .ok (toBytes (Value.obj entries).toText))
    (hdepth : Json.maxDepth < (Value.obj entries).depth) :
    seed files (some path) = .error (.malformed path .malformed) := by
  rw [seed_of_parse hload, toText_obj, Json.parse_compact_deep hordered hnumbers hdepth]

/-- Values survive the trip through JSON, but for the numbers that are not finite, which become
`null`.  Read from a text, as variables are, an object survives when it is nested at most
`Json.maxDepth` deep, and is refused otherwise. -/
theorem values_survive :
    (∀ value : Value, Value.ofJson value.toJson == value.finite) ∧
    ∀ (entries : List (String × Value)) (files : Files) (path : String),
      (Value.obj entries).Ordered →
      (∀ x ∈ (Value.obj entries).numbers, Value.ReadsBack x) →
      files.load path = .ok (toBytes (Value.obj entries).toText) →
      ((Value.obj entries).depth ≤ Json.maxDepth →
        ∃ scope, seed files (some path) = .ok scope ∧
          Value.obj scope.vars.entries == (Value.obj entries).finite) ∧
      (Json.maxDepth < (Value.obj entries).depth →
        seed files (some path) = .error (.malformed path .malformed)) :=
  ⟨Value.ofJson_toJson, fun _ _ _ hordered hnumbers hload =>
    ⟨seed_toText hordered hnumbers hload, seed_toText_deep hordered hnumbers hload⟩⟩

theorem load_single (content : List UInt8) :
    (Files.ofList [("v", content)]).load "v" = .ok content := by
  have hsteps : Location.stepsOf "v" = ([], [['v']]) := by decide +kernel
  have hpath : (Location.ofPath "v").text = "v" := by decide +kernel
  have htext : Location.text [['v']] = "v" := by decide +kernel
  have hbelow : Text.dropStart? "v/" "v" = none := by decide +kernel
  have hheight : (Location.ofPath "v").height = 0 := by decide +kernel
  have hfiles : Files.ofList [("v", content)] = ⟨Table.ofList [("v", content)], [], 0⟩ := by
    simp [Files.ofList, hpath, hheight]
  have hentries : (Table.ofList [("v", content)]).entries = [("v", content)] := rfl
  simp [Files.load, Files.find, hsteps, Files.follow, Files.barrier?, Files.isDirectory,
    Files.isBelow, Files.contentAt?, Table.get?, hfiles, hentries, htext, hbelow, Entries.get?,
    Location.step]

/-- An object inside a list inside an object, with numbers of all kinds. -/
def mixed : List (String × Value) :=
  [("a", .list [.num 0.5, .num (0.0 / 0.0), .obj [("k", .num (-3.0))]]), ("b", .str "x")]

theorem values_survive_mixed :
    let files := Files.ofList [("v", toBytes (Value.obj mixed).toText)]
    ∃ scope, seed files (some "v") = .ok scope ∧
      Value.obj scope.vars.entries ==
        .obj [("a", .list [.num 0.5, .null, .obj [("k", .num (-3.0))]]), ("b", .str "x")] := by
  intro files
  have hhalf : (0.5 : Float).isFinite := by decide +kernel
  have hnone : ¬ (0.0 / 0.0 : Float).isFinite := by decide +kernel
  have hwhole : (-3.0 : Float).isFinite := by decide +kernel
  have hordered : (Value.obj mixed).Ordered := by
    have hnames : "a" < "b" := by decide
    refine .obj (List.pairwise_pair.2 hnames) fun entry hentry => ?_
    obtain rfl | rfl : entry = _ ∨ entry = _ := by simpa [mixed] using hentry
    · refine .list fun item hitem => ?_
      obtain rfl | rfl | rfl : item = _ ∨ item = _ ∨ item = _ := by simpa using hitem
      · exact .num _
      · exact .num _
      · refine .obj (List.pairwise_singleton _ _) fun entry hentry => ?_
        obtain rfl := List.mem_singleton.1 hentry
        exact .num _
    · exact .str _
  have hnumbers : ∀ x ∈ (Value.obj mixed).numbers, Value.ReadsBack x := by
    have hall : (Value.obj mixed).numbers = [0.5, 0.0 / 0.0, -3.0] := rfl
    have htext : Json.layout.write 0.5 = ['0', '.', '5'] := by decide +kernel
    intro x hx
    rw [hall] at hx
    obtain rfl | rfl | rfl : x = _ ∨ x = _ ∨ x = _ := by simpa using hx
    · refine fun _ _ => ⟨.real 0.5, ?_, by decide +kernel⟩
      rw [Json.compact, Json.write, Json.writeReal, if_pos hhalf, htext]
      rfl
    · exact fun hfinite => absurd hfinite hnone
    · exact fun _ hsmall => absurd hsmall (by decide +kernel)
  have hread := (values_survive.2 mixed files "v" hordered hnumbers
    (load_single _)).1 (by decide +kernel)
  simpa [mixed, Value.finite, Value.finiteEntries, Value.finiteItems, hhalf, hnone, hwhole]
    using hread

end Command

namespace Value

/-- Lists in each other, around `null`. -/
def nested : Nat → Value
  | 0 => .null
  | n + 1 => .list [nested n]

theorem ordered_nested (n : Nat) : (nested n).Ordered := by
  induction n with
  | zero => exact .null
  | succ n ih => exact .list (by simpa using ih)

theorem numbers_nested (n : Nat) : (nested n).numbers = [] := by
  induction n with
  | zero => rfl
  | succ n ih => simp [nested, numbers, numbersOfItems, ih]

theorem depth_nested (n : Nat) : (nested n).depth = n := by
  induction n with
  | zero => rfl
  | succ n ih => simp [nested, depth, depthItems, ih]

/-- An object that is nested deeper than a text may be. -/
def deep : List (String × Value) :=
  [("a", nested 127)]

end Value

namespace Command

open Text.Lines (toBytes)

/-- An object that is nested too deep does not survive as a text. -/
theorem seed_deep_error :
    let files := Files.ofList [("v", toBytes (Value.obj Value.deep).toText)]
    (Value.obj Value.deep).Ordered ∧ (Value.obj Value.deep).numbers = [] ∧
      files.load "v" = .ok (toBytes (Value.obj Value.deep).toText) ∧
      seed files (some "v") = .error (.malformed "v" .malformed) := by
  intro files
  have hordered : (Value.obj Value.deep).Ordered := by
    refine .obj (List.pairwise_singleton _ _) fun entry hentry => ?_
    obtain rfl := List.mem_singleton.1 hentry
    exact Value.ordered_nested 127
  have hnumbers : (Value.obj Value.deep).numbers = [] := by
    simp [Value.deep, Value.numbers, Value.numbersOfEntries, Value.numbers_nested]
  have hdepth : Json.maxDepth < (Value.obj Value.deep).depth := by
    simp [Value.deep, Value.depth, Value.depthEntries, Value.depth_nested, Json.maxDepth]
  have hload := load_single (toBytes (Value.obj Value.deep).toText)
  exact ⟨hordered, hnumbers, hload, seed_toText_deep hordered (by simp [hnumbers]) hload hdepth⟩

end Command

end TreeStream
