import TreeStream.Proofs.Encoding
import TreeStream.Proofs.Quoting
import TreeStream.Proofs.Streaming

/-!
# Events as lines and back

The file of some events has one line for each of them, whatever their names and texts hold, and the
stream that is read from it is that of the events.

* `Event.ofLine_toLine`: an event is read back from its line, and `Event.parse_toLine` that the line
  is the JSON object of its members; `Event.ofLine_items`: it is read from an array, too.
* `Value.ofJson_ofMembers`: the value of an object is the object of the values.
* `Command.Feed.takeAll`: a stream takes events as it takes the lines on which they stand.
* `Command.lines_of_written`: what is written is read back.
-/

namespace TreeStream
set_option autoImplicit false

namespace Event

open Json (texts membersText writeString)

variable {count : Nat} {rest : List Char}

/-! ## One event -/

theorem members_eq (event : Event) :
    event.members = ("type", .str event.kind.name) :: texts event.fields := rfl

theorem toList_toLine (event : Event) : event.toLine.toList =
    '\x7b' :: membersText "type" event.kind.name event.fields [] := by
  simp [toLine, Json.compact, members_eq, Json.write, membersText]

theorem printable_toLine (event : Event) : ∀ c ∈ event.toLine.toList, 0x20 ≤ c.toNat := by
  have hmarks : 0x20 ≤ '\x7b'.toNat ∧ 0x20 ≤ ':'.toNat ∧ 0x20 ≤ '\x7d'.toNat := by decide
  intro c hc
  simp only [toList_toLine, membersText, List.mem_cons, List.mem_append, List.not_mem_nil,
    or_false] at hc
  rcases hc with rfl | hc | rfl | hc | hc | rfl
  · exact hmarks.1
  · exact Json.printable_writeString "type" c hc
  · exact hmarks.2.1
  · exact Json.printable_writeString event.kind.name c hc
  · exact Json.printable_writeMembers_texts event.fields c hc
  · exact hmarks.2.2

theorem isBlankLine_toLine (event : Event) : Text.isBlankLine event.toLine = false := by
  have hbrace : Text.isBlank '\x7b' = false := by decide
  rw [Text.isBlankLine, toList_toLine, List.all_cons, hbrace, Bool.false_and]

theorem length_fields_lt (event : Event) : event.fields.length < event.toLine.toList.length := by
  rw [toList_toLine]
  cases event <;> simp [fields, membersText, writeString]

theorem fields_ne_type (event : Event) : ∀ field ∈ event.fields, field.1 ≠ "type" := by
  cases event <;> simp [fields]

theorem ofFields_fields (event : Event) :
    ofFields event.kind (texts event.fields) = .ok event := by
  cases event <;> simp [ofFields, fields, kind, field, texts, Except.map]

theorem readKind_name (kind : Kind) (rest : List Char) :
    readKind (writeString kind.name ++ rest) = .ok (kind, rest) := by
  have hscalar := Json.readScalar_writeString kind.name rest
  rw [Json.writeString_append] at hscalar ⊢
  rw [readKind, Json.skipBlanks_cons (by decide)]
  simp [hscalar, Kind.ofName?_name]

theorem readField_writeString (count : Nat) (s : String) (rest : List Char) :
    readField count (writeString s ++ rest) = .ok (.str s, rest) :=
  Json.readValue_writeString count (Json.maxDepth - 1) s rest

/-- Members behind the kind are read like those of any object. -/
theorem readMembers_texts {field : Json.Reader Json}
    (hfield : ∀ s rest, field (writeString s ++ rest) = .ok (.str s, rest)) (known : Option Kind)
    {name : String} (hname : name ≠ "type") (text : String) {others : List (String × String)}
    (hothers : ∀ other ∈ others, other.1 ≠ "type") (hcount : others.length < count)
    (rest : List Char) :
    readMembers field count known (membersText name text others rest) =
      .ok ((known, (name, .str text) :: texts others), rest) := by
  induction others generalizing name text count with
  | nil =>
    obtain ⟨count, rfl⟩ := Nat.exists_eq_add_one.2 hcount
    simp only [membersText, readMembers, Json.readName_writeString, hfield, bind, Except.bind,
      Json.expectColon_colon, texts, List.map_nil, Json.writeMembers, List.nil_append, if_neg hname]
    rw [Json.skipBlanks_cons (by decide)]
    rfl
  | cons other others ih =>
    obtain ⟨count, rfl⟩ := Nat.exists_eq_add_one.2 (Nat.zero_lt_of_lt hcount)
    have hmore := ih (hothers other List.mem_cons_self) other.2
      (fun next hnext => hothers next (List.mem_cons_of_mem _ hnext))
      (Nat.lt_of_succ_lt_succ hcount)
    rw [membersText, Json.writeMembers_texts_cons]
    simp only [readMembers, Json.readName_writeString, hfield, bind, Except.bind,
      Json.expectColon_colon, if_neg hname]
    rw [Json.skipBlanks_cons (by decide)]
    simp only [hmore]
    rfl

-- The kind is read where it stands, so the fields behind it are read with a known kind.
theorem readMembers_members (event : Event) (hcount : event.fields.length < count)
    (rest : List Char) :
    readMembers (readField count) count none
        (membersText "type" event.kind.name event.fields rest) =
      .ok ((some event.kind, texts event.fields), rest) := by
  obtain ⟨count, rfl⟩ := Nat.exists_eq_add_one.2 (Nat.zero_lt_of_lt hcount)
  have hne := event.fields_ne_type
  simp only [membersText, readMembers, Json.readName_writeString, bind, Except.bind,
    Json.expectColon_colon, readKind_name, if_pos]
  rcases hfields : event.fields with _ | ⟨⟨name, text⟩, others⟩
  · simp only [texts, List.map_nil, Json.writeMembers, List.nil_append]
    rw [Json.skipBlanks_cons (by decide)]
    rfl
  · rw [hfields] at hne hcount
    have hmore := readMembers_texts (readField_writeString (count + 1))
      (some event.kind) (hne _ List.mem_cons_self) text
      (fun other hother => hne other (List.mem_cons_of_mem _ hother))
      (Nat.lt_of_succ_lt_succ hcount) rest
    rw [Json.writeMembers_texts_cons, Json.skipBlanks_cons (by decide)]
    exact hmore

theorem read_of_members {cs : List Char} {kind : Kind} {members : List (String × Json)}
    {event : Event}
    (hmembers : readMembers (readField count) count none ('"' :: cs) =
      .ok ((some kind, members), rest))
    (hevent : ofFields kind members = .ok event) :
    read count ('\x7b' :: '"' :: cs) = .ok (event, rest) := by
  simp [read, Json.skipBlanks, Json.isBlank, hmembers, hevent, bind, Except.bind]

theorem ofLine_toLine (event : Event) : ofLine event.toLine = .ok event := by
  have hmembers := event.readMembers_members event.length_fields_lt []
  rw [membersText, Json.writeString_append] at hmembers
  have hread := read_of_members hmembers event.ofFields_fields
  rw [← Json.writeString_append, ← membersText, ← toList_toLine] at hread
  rw [ofLine, Json.whole, hread]
  rfl

theorem parse_toLine (event : Event) :
    Json.parse event.toLine = .ok (Json.ofMembers event.members) := by
  have hmembers := Json.readMembers_texts
    (Json.readValue_writeString event.toLine.toList.length (Json.maxDepth - 1)) "type"
    event.kind.name event.fields event.length_fields_lt []
  rw [membersText, Json.writeString_append] at hmembers
  have hread := Json.readValue_of_members hmembers
  rw [← Json.writeString_append, ← membersText, ← toList_toLine] at hread
  rw [Json.parse, Json.whole]
  exact congrArg (· >>= _) hread

/-- The object of an event has the members that are written, and no others. -/
theorem member?_members (event : Event) (name : String) (value : Json) :
    (Json.ofMembers event.members).member? name = some value ↔ (name, value) ∈ event.members := by
  constructor
  · intro h
    rcases Entries.mem_putAll (Entries.mem_of_get? h) with hmember | hmember
    · exact hmember
    · cases hmember
  · -- The names of the members differ, so that each of them keeps its value.
    intro h
    simp only [Json.ofMembers, Json.member?, Entries.putAll]
    cases event <;> simp only [members, fields, List.map_cons, List.map_nil, List.mem_cons,
      List.not_mem_nil, or_false, Prod.mk.injEq, List.foldl_cons, List.foldl_nil,
      Entries.get?_put] at h ⊢
    case start => rcases h with ⟨rfl, rfl⟩ | ⟨rfl, rfl⟩ <;> simp
    case close => simp [h]
    case text => rcases h with ⟨rfl, rfl⟩ | ⟨rfl, rfl⟩ <;> simp
    case attr => rcases h with ⟨rfl, rfl⟩ | ⟨rfl, rfl⟩ | ⟨rfl, rfl⟩ <;> simp

/-! ## One event as an array -/

/-- The items of the array that gives an event: the name of its kind, and its fields in their
order. -/
def items (event : Event) : List String :=
  event.kind.name :: event.fields.map Prod.snd

theorem ofItems_eq_ok_iff {kind : Kind} {values : List Json} {event : Event} :
    ofItems kind values = .ok event ↔
      kind = event.kind ∧ values = (event.fields.map Prod.snd).map .str := by
  constructor
  · intro h
    unfold ofItems at h
    split at h <;> cases h <;> exact ⟨rfl, rfl⟩
  · rintro ⟨rfl, rfl⟩
    cases event <;> rfl

theorem read_of_kind {kind : Kind} {event : Event} {cs : List Char}
    (hkind : readKind ('"' :: cs) = .ok (kind, ']' :: rest))
    (hevent : ofItems kind [] = .ok event) :
    read count ('[' :: '"' :: cs) = .ok (event, rest) := by
  simp [read, Json.skipBlanks, Json.isBlank, hkind, hevent, bind, Except.bind]

theorem read_of_items {kind : Kind} {values : List Json} {event : Event} {cs more : List Char}
    (hkind : readKind ('"' :: cs) = .ok (kind, ',' :: more))
    (hitems : Json.readItems (readField count) count more = .ok (values, rest))
    (hevent : ofItems kind values = .ok event) :
    read count ('[' :: '"' :: cs) = .ok (event, rest) := by
  simp [read, Json.skipBlanks, Json.isBlank, hkind, hitems, hevent, bind, Except.bind]

theorem read_items (event : Event) (hcount : event.fields.length < count) (rest : List Char) :
    read count ('[' :: Json.arrayText event.kind.name (event.fields.map Prod.snd) rest) =
      .ok (event, rest) := by
  have hevent : ofItems event.kind ((event.fields.map Prod.snd).map .str) = .ok event :=
    ofItems_eq_ok_iff.2 ⟨rfl, rfl⟩
  rcases hfields : event.fields.map Prod.snd with _ | ⟨first, others⟩ <;> rw [hfields] at hevent
  · have hkind := readKind_name event.kind (']' :: rest)
    rw [Json.writeString_append] at hkind
    rw [Json.arrayText, Json.writeString_append]
    exact read_of_kind hkind hevent
  · have hlength : others.length < count := by
      have hall := congrArg List.length hfields
      simp only [List.length_map, List.length_cons] at hall
      omega
    have hkind := readKind_name event.kind (',' :: Json.arrayText first others rest)
    have hitems := Json.readItems_texts (readField_writeString count) first others hlength rest
    rw [Json.writeString_append] at hkind
    rw [Json.arrayText, Json.writeItems_texts_cons, Json.writeString_append]
    exact read_of_items hkind hitems hevent

/-- An event is read from the array of its items as well. -/
theorem ofLine_items (event : Event) :
    ofLine (Json.arr (event.items.map .str)).compact = .ok event := by
  have htext : (Json.arr (event.items.map .str)).compact.toList =
      '[' :: Json.arrayText event.kind.name (event.fields.map Prod.snd) [] := by
    simp [items, Json.compact, Json.write, Json.arrayText]
  have hlength : event.fields.length <
      (Json.arr (event.items.map .str)).compact.toList.length := by
    rw [htext]
    cases event <;> simp [fields, Json.arrayText, writeString, Json.writeItems, Json.write]
  rw [ofLine, Json.whole, htext]
  rw [htext] at hlength
  rw [event.read_items hlength []]
  rfl

end Event

/-! ## What expressions see of an event -/

section Values

variable {α β : Type} (f : α → β)

theorem Entries.put_map (name : String) (a : α) (entries : List (String × α)) :
    put name (f a) (entries.map (Prod.map id f)) = (put name a entries).map (Prod.map id f) := by
  induction entries with
  | nil => rfl
  | cons entry entries ih =>
    rw [List.map_cons, put, put, ih]
    simp only [Prod.map_fst, id_eq]
    split
    · rfl
    · split <;> rfl

theorem Entries.putAll_map (pairs entries : List (String × α)) :
    putAll (pairs.map (Prod.map id f)) (entries.map (Prod.map id f)) =
      (putAll pairs entries).map (Prod.map id f) := by
  induction pairs generalizing entries with
  | nil => rfl
  | cons pair pairs ih =>
    have hput := put_map f pair.1 pair.2 entries
    simp only [putAll, List.map_cons, List.foldl_cons, Prod.map_fst, Prod.map_snd, id_eq, hput]
    exact ih (put pair.1 pair.2 entries)

end Values

namespace Value

theorem entriesOfJson_eq_map (members : List (String × Json)) :
    entriesOfJson members = members.map (Prod.map id ofJson) := by
  induction members with
  | nil => rfl
  | cons member members ih => rw [entriesOfJson, ih, List.map_cons, Prod.map_apply, id_eq]

/-- The value of an object is the object of the values. -/
theorem ofJson_ofMembers (members : List (String × Json)) :
    ofJson (Json.ofMembers members) = ofEntries (entriesOfJson members) := by
  have hmap := Entries.putAll_map ofJson members []
  rw [Json.ofMembers, ofJson, ofEntries, entriesOfJson_eq_map, entriesOfJson_eq_map]
  exact congrArg obj hmap.symm

theorem ofJson_members (event : Event) :
    ofJson (Json.ofMembers event.members) = ofEvent event := by
  rw [ofJson_ofMembers]
  cases event <;> rfl

theorem equalEntries_self {entries : List (String × Value)}
    (h : ∀ entry ∈ entries, equal entry.2 entry.2) : equalEntries entries entries := by
  induction entries with
  | nil => rfl
  | cons entry entries ih =>
    rw [equalEntries, h entry List.mem_cons_self,
      ih fun other hother => h other (List.mem_cons_of_mem _ hother)]
    simp

theorem ofEntries_beq_self {entries : List (String × Value)}
    (h : ∀ entry ∈ entries, equal entry.2 entry.2) : ofEntries entries == ofEntries entries := by
  refine equalEntries_self fun entry hentry => ?_
  rcases Entries.mem_putAll hentry with hentry | hentry
  · exact h entry hentry
  · cases hentry

/-- There is no number in the value of an event, so it equals itself. -/
theorem ofEvent_beq_self (event : Event) : ofEvent event == ofEvent event := by
  cases event <;> exact ofEntries_beq_self (by simp [equal])

end Value

namespace Command

variable (engine : Engine) (steps : Nat)

/-! ## All events of a stream -/

/-- Works on an event that stands on the line of a number. -/
def Feed.take (number : Nat) (event : Event) (feed : Feed) :
    Option (Except StreamFault Unit × Feed) :=
  match engine.submit steps event feed.state with
  | none => none
  | some (.error fault, state) => some (.error (.engine number fault), { feed with state })
  | some (.ok (), state) => some (.ok (), feed.collect state)

/-- Works on events, one on a line, up to the first fault; the first of the lines has a number. -/
def Feed.takeAll (number : Nat) : List Event → Feed → Option (Except StreamFault Unit × Feed)
  | [], feed => some (.ok (), feed)
  | event :: rest, feed =>
    match feed.take engine steps number event with
    | none => none
    | some (.error fault, feed) => some (.error fault, feed)
    | some (.ok (), feed) => takeAll (number + 1) rest feed

theorem Feed.line_toLine (number : Nat) (event : Event) (feed : Feed) :
    feed.line engine steps number (some event.toLine) = feed.take engine steps number event := by
  simp only [Feed.line, event.isBlankLine_toLine, event.ofLine_toLine]
  rfl

theorem Feed.lines_toLine (number : Nat) (events : List Event) (feed : Feed) :
    feed.lines engine steps number (events.map fun event => some event.toLine) =
      feed.takeAll engine steps number events := by
  induction events generalizing number feed with
  | nil => rfl
  | cons event events ih =>
    rw [List.map_cons, Feed.lines, Feed.takeAll, line_toLine]
    rcases feed.take engine steps number event with _ | ⟨fault | ⟨⟩, next⟩
    · rfl
    · rfl
    · exact ih (number + 1) next

theorem ofBytes_written (events : List Event) :
    Text.Lines.ofBytes (Text.Lines.toBytes (written events)) =
      events.map fun event => some event.toLine := by
  have hprintable : ∀ line ∈ events.map Event.toLine, ∀ c ∈ line.toList, 0x20 ≤ c.toNat := by
    intro line hline
    obtain ⟨event, -, rfl⟩ := List.mem_map.1 hline
    exact event.printable_toLine
  have hlines := Text.Lines.ofBytes_toBytes_lines hprintable
  rw [List.map_map, List.map_map] at hlines
  exact hlines

theorem eventsOf?_toLine (events : List Event) :
    eventsOf? (events.map fun event => some event.toLine) = some events := by
  induction events with
  | nil => rfl
  | cons event events ih =>
    have hline : eventsOfLine? (some event.toLine) = some [event] := by
      simp only [eventsOfLine?, event.isBlankLine_toLine, event.ofLine_toLine]
      rfl
    rw [List.map_cons, eventsOf?, hline, ih]
    rfl

/-- What is written is read back: each event has a line of its own, the events of the lines are
those that were written, and the stream takes the lines as it takes the events.  The object on a
line has the value that expressions see of the event. -/
theorem lines_of_written (events : List Event) :
    (Text.Lines.ofBytes (Text.Lines.toBytes (written events)) =
      events.map fun event => some event.toLine) ∧
    (∀ event ∈ events, Text.isBlankLine event.toLine = false ∧
      Event.ofLine event.toLine = .ok event) ∧
    eventsOf? (Text.Lines.ofBytes (Text.Lines.toBytes (written events))) = some events ∧
    (∀ engine steps number feed,
      Feed.lines engine steps number (Text.Lines.ofBytes (Text.Lines.toBytes (written events)))
        feed = feed.takeAll engine steps number events) ∧
    ∀ event : Event,
      Json.parse event.toLine = .ok (Json.ofMembers event.members) ∧
      Value.ofJson (Json.ofMembers event.members) = Value.ofEvent event ∧
      (Value.ofEvent event == Value.ofJson (Json.ofMembers event.members)) = true := by
  rw [ofBytes_written]
  refine ⟨rfl, ?_, eventsOf?_toLine events, ?_, ?_⟩
  · intro event _
    exact ⟨event.isBlankLine_toLine, event.ofLine_toLine⟩
  · intro engine steps number feed
    exact feed.lines_toLine engine steps number events
  · intro event
    have hvalue := Value.ofJson_members event
    refine ⟨event.parse_toLine, hvalue, ?_⟩
    rw [hvalue]
    exact Value.ofEvent_beq_self event

end Command

end TreeStream
