/-!
# Tables

Finite maps from names to values, as lists of entries in increasing order of their names (code
point by code point).  A table is determined by what it answers, so two tables that hold the same
values under the same names are equal.

* `Entries.get?`, `Entries.put` and `Entries.erase` work on lists of entries.
* `Table` is a list of entries with the proof that it is in order; `Table.ext_get?` is the statement
  that its answers determine it.
* `get?_put` and `get?_erase` are the laws of the operations.
-/

namespace TreeStream
set_option autoImplicit false

universe u
variable {α : Type u}

namespace Entries

/-- The value under a name. -/
def get? (name : String) : List (String × α) → Option α
  | [] => none
  | entry :: rest => if entry.1 = name then some entry.2 else get? name rest

/-- Sets the value under a name, at its place in the order. -/
def put (name : String) (value : α) : List (String × α) → List (String × α)
  | [] => [(name, value)]
  | entry :: rest =>
    if name < entry.1 then (name, value) :: entry :: rest
    else if entry.1 = name then (name, value) :: rest
    else entry :: put name value rest

/-- Removes a name. -/
def erase (name : String) : List (String × α) → List (String × α)
  | [] => []
  | entry :: rest => if entry.1 = name then erase name rest else entry :: erase name rest

/-- Enters pairs in turn; a later value replaces an earlier one under the same name. -/
def putAll (pairs : List (String × α)) (entries : List (String × α)) : List (String × α) :=
  pairs.foldl (fun entries pair => put pair.1 pair.2 entries) entries

/-- The names are in strictly increasing order. -/
def Sorted (entries : List (String × α)) : Prop :=
  entries.Pairwise fun a b => a.1 < b.1

@[simp] theorem get?_nil (name : String) : get? name ([] : List (String × α)) = none := rfl

theorem get?_cons (name : String) (entry : String × α) (rest : List (String × α)) :
    get? name (entry :: rest) = if entry.1 = name then some entry.2 else get? name rest := rfl

theorem put_cons (name : String) (value : α) (entry : String × α) (rest : List (String × α)) :
    put name value (entry :: rest) =
      if name < entry.1 then (name, value) :: entry :: rest
      else if entry.1 = name then (name, value) :: rest
      else entry :: put name value rest := rfl

theorem erase_cons (name : String) (entry : String × α) (rest : List (String × α)) :
    erase name (entry :: rest) =
      if entry.1 = name then erase name rest else entry :: erase name rest := rfl

theorem lt_of_not_lt_of_ne {a b : String} (hlt : ¬ a < b) (hne : b ≠ a) : b < a := by
  by_cases h : b < a
  · exact h
  · exact absurd (String.le_antisymm (a := b) (b := a) hlt h) hne

theorem get?_put (name other : String) (value : α) (entries : List (String × α)) :
    get? other (put name value entries) =
      if name = other then some value else get? other entries := by
  induction entries with
  | nil => exact get?_cons other (name, value) []
  | cons entry rest ih =>
    rw [put_cons]
    split
    · simp [get?_cons]
    · split
      · rename_i h
        by_cases hn : name = other <;> simp [get?_cons, hn, h]
      · rename_i h
        by_cases hn : name = other
        · subst hn
          simp [get?_cons, h, ih]
        · simp [get?_cons, hn, ih]

theorem get?_erase (name other : String) (entries : List (String × α)) :
    get? other (erase name entries) = if name = other then none else get? other entries := by
  induction entries with
  | nil => exact (ite_self none).symm
  | cons entry rest ih =>
    rw [erase_cons]
    split
    · rename_i h
      by_cases hn : name = other
      · subst hn
        simpa using ih
      · simp [get?_cons, h, hn, ih]
    · rename_i h
      by_cases hn : name = other
      · subst hn
        simp [get?_cons, h, ih]
      · simp [get?_cons, hn, ih]

theorem mem_put {name : String} {value : α} {entry : String × α} {entries : List (String × α)}
    (h : entry ∈ put name value entries) : entry = (name, value) ∨ entry ∈ entries := by
  induction entries with
  | nil => exact .inl (List.mem_singleton.1 h)
  | cons first rest ih =>
    rw [put_cons] at h
    split at h
    · simpa using h
    · split at h
      · rcases List.mem_cons.1 h with h | h
        · exact .inl h
        · exact .inr (List.mem_cons_of_mem _ h)
      · rcases List.mem_cons.1 h with h | h
        · exact .inr (h ▸ List.mem_cons_self)
        · exact (ih h).imp id (List.mem_cons_of_mem _)

theorem sorted_put (name : String) (value : α) {entries : List (String × α)}
    (h : Sorted entries) : Sorted (put name value entries) := by
  induction entries with
  | nil => exact List.pairwise_singleton _ _
  | cons first rest ih =>
    have hrest : Sorted rest := (List.pairwise_cons.1 h).2
    have hfirst := (List.pairwise_cons.1 h).1
    rw [put_cons]
    split
    · rename_i hlt
      refine List.pairwise_cons.2 ⟨fun entry hentry => ?_, h⟩
      rcases List.mem_cons.1 hentry with rfl | hentry
      · exact hlt
      · exact String.lt_trans hlt (hfirst entry hentry)
    · split
      · rename_i heq
        exact List.pairwise_cons.2 ⟨fun entry hentry => heq ▸ hfirst entry hentry, hrest⟩
      · rename_i hlt hne
        refine List.pairwise_cons.2 ⟨fun entry hentry => ?_, ih hrest⟩
        rcases mem_put hentry with rfl | hentry
        · exact lt_of_not_lt_of_ne hlt hne
        · exact hfirst entry hentry

theorem mem_putAll {entry : String × α} {pairs entries : List (String × α)}
    (h : entry ∈ putAll pairs entries) : entry ∈ pairs ∨ entry ∈ entries := by
  induction pairs generalizing entries with
  | nil => exact .inr h
  | cons pair pairs ih =>
    rcases ih h with hpairs | hput
    · exact .inl (List.mem_cons_of_mem _ hpairs)
    · rcases mem_put hput with rfl | hentries
      · exact .inl List.mem_cons_self
      · exact .inr hentries

theorem sorted_putAll (pairs : List (String × α)) {entries : List (String × α)}
    (h : Sorted entries) : Sorted (putAll pairs entries) := by
  induction pairs generalizing entries with
  | nil => exact h
  | cons pair pairs ih => exact ih (sorted_put pair.1 pair.2 h)

theorem erase_sublist (name : String) (entries : List (String × α)) :
    (erase name entries).Sublist entries := by
  induction entries with
  | nil => exact .slnil
  | cons entry rest ih =>
    rw [erase_cons]
    split
    · exact ih.cons _
    · exact ih.cons_cons _

theorem sorted_erase (name : String) {entries : List (String × α)} (h : Sorted entries) :
    Sorted (erase name entries) :=
  h.sublist (erase_sublist name entries)

theorem get?_eq_none_of_lt {name : String} {entries : List (String × α)}
    (h : ∀ entry ∈ entries, name < entry.1) : get? name entries = none := by
  induction entries with
  | nil => rfl
  | cons first rest ih =>
    have hne : first.1 ≠ name := fun heq =>
      String.lt_irrefl name (by simpa [heq] using h first List.mem_cons_self)
    simpa [get?_cons, hne] using ih fun entry hentry => h entry (List.mem_cons_of_mem _ hentry)

theorem get?_eq_none_iff {name : String} {entries : List (String × α)} :
    get? name entries = none ↔ name ∉ entries.map Prod.fst := by
  induction entries with
  | nil => simp
  | cons entry rest ih =>
    by_cases h : entry.1 = name
    · simp [get?_cons, h]
    · simp [get?_cons, h, ih, Ne.symm h]

theorem get?_append (name : String) (entries more : List (String × α)) :
    get? name (entries ++ more) = (get? name entries <|> get? name more) := by
  induction entries with
  | nil => simp
  | cons entry rest ih => by_cases h : entry.1 = name <;> simp [get?_cons, h, ih]

theorem mem_of_get? {name : String} {value : α} {entries : List (String × α)}
    (h : get? name entries = some value) : (name, value) ∈ entries := by
  induction entries with
  | nil => cases h
  | cons entry rest ih =>
    by_cases hname : entry.1 = name
    · obtain rfl : entry.2 = value := by simpa [get?_cons, hname] using h
      exact hname ▸ List.mem_cons_self
    · exact List.mem_cons_of_mem _ (ih (by simpa [get?_cons, hname] using h))

/-- No name in the list comes before the first. -/
theorem first_le_of_get? {name : String} {value : α} {first : String × α}
    {rest : List (String × α)} (h : Sorted (first :: rest))
    (hget : get? name (first :: rest) = some value) : first.1 ≤ name := by
  intro hlt
  have hnone : get? name (first :: rest) = none := by
    refine get?_eq_none_of_lt fun entry hentry => ?_
    rcases List.mem_cons.1 hentry with rfl | hentry
    · exact hlt
    · exact String.lt_trans hlt ((List.pairwise_cons.1 h).1 entry hentry)
  rw [hnone] at hget
  cases hget

/-- Ordered entries are determined by the answers that they give. -/
theorem ext_get? {a b : List (String × α)} (ha : Sorted a) (hb : Sorted b)
    (h : ∀ name, get? name a = get? name b) : a = b := by
  induction a generalizing b with
  | nil =>
    cases b with
    | nil => rfl
    | cons first rest => simpa [get?_cons] using h first.1
  | cons first rest ih =>
    cases b with
    | nil => simpa [get?_cons] using h first.1
    | cons first' rest' =>
      obtain ⟨hfirst, hrest⟩ := List.pairwise_cons.1 ha
      obtain ⟨hfirst', hrest'⟩ := List.pairwise_cons.1 hb
      have hleft : get? first.1 (first' :: rest') = some first.2 := by
        rw [← h, get?_cons, if_pos rfl]
      have hright : get? first'.1 (first :: rest) = some first'.2 := by
        rw [h, get?_cons, if_pos rfl]
      have hname : first.1 = first'.1 :=
        String.le_antisymm (first_le_of_get? ha hright) (first_le_of_get? hb hleft)
      have hvalue : first.2 = first'.2 := by simpa [get?_cons, hname] using hleft.symm
      have hrests : rest = rest' := by
        refine ih hrest hrest' fun name => ?_
        by_cases hn : first.1 = name
        · rw [get?_eq_none_of_lt fun entry hentry => hn ▸ hfirst entry hentry,
            get?_eq_none_of_lt fun entry hentry => hn ▸ hname ▸ hfirst' entry hentry]
        · have hn' : first'.1 ≠ name := hname ▸ hn
          simpa [get?_cons, hn, hn'] using h name
      rw [hrests, Prod.ext hname hvalue]

end Entries

/-- A finite map from names to values. -/
structure Table (α : Type u) where
  entries : List (String × α)
  sorted : Entries.Sorted entries

namespace Table

/-- The table without entries. -/
def empty : Table α :=
  ⟨[], List.Pairwise.nil⟩

instance : EmptyCollection (Table α) := ⟨empty⟩
instance : Inhabited (Table α) := ⟨empty⟩

/-- The value under a name. -/
def get? (t : Table α) (name : String) : Option α :=
  Entries.get? name t.entries

/-- The name has a value. -/
def contains (t : Table α) (name : String) : Bool :=
  (t.get? name).isSome

/-- Sets the value under a name. -/
def put (t : Table α) (name : String) (value : α) : Table α :=
  ⟨Entries.put name value t.entries, Entries.sorted_put name value t.sorted⟩

/-- Removes a name. -/
def erase (t : Table α) (name : String) : Table α :=
  ⟨Entries.erase name t.entries, Entries.sorted_erase name t.sorted⟩

/-- Enters pairs in turn; a later value replaces an earlier one under the same name. -/
def putAll (t : Table α) (pairs : List (String × α)) : Table α :=
  pairs.foldl (fun t pair => t.put pair.1 pair.2) t

/-- The table of a list of pairs, in which later pairs win. -/
def ofList (pairs : List (String × α)) : Table α :=
  empty.putAll pairs

@[simp] theorem get?_empty (name : String) : (empty : Table α).get? name = none := rfl

theorem get?_put (t : Table α) (name other : String) (value : α) :
    (t.put name value).get? other = if name = other then some value else t.get? other :=
  Entries.get?_put name other value t.entries

theorem get?_erase (t : Table α) (name other : String) :
    (t.erase name).get? other = if name = other then none else t.get? other :=
  Entries.get?_erase name other t.entries

theorem putAll_append (t : Table α) (xs ys : List (String × α)) :
    t.putAll (xs ++ ys) = (t.putAll xs).putAll ys :=
  List.foldl_append

/-- A table is determined by the answers that it gives. -/
theorem ext_get? {a b : Table α} (h : ∀ name, a.get? name = b.get? name) : a = b := by
  cases a with
  | mk entries sorted =>
    cases b with
    | mk entries' sorted' =>
      have heq := Entries.ext_get? sorted sorted' h
      subst heq
      rfl

end Table

end TreeStream
