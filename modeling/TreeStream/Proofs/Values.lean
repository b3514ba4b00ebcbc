import TreeStream.Proofs.Exact
import TreeStream.Value

/-!
# Values as JSON

A value that goes to JSON and comes back equals what it was, but for the numbers that are not
finite, which become `null`.

* `Value.finite`, `Value.depth` and `Value.numbers`: what a value becomes, how deep it is nested,
  and which numbers are in it.  `Value.Ordered` says that its objects are in order.
* `Value.ofJson_toJson`: there and back, by one induction over values, items and entries.
* `Entries.putAll_of_sorted` and `Value.sorted_of_equalEntries`: the entries of an object that comes
  back are in order, so they are entered as they are.
-/

namespace TreeStream
set_option autoImplicit false

namespace Value

/-! ## What is known of a value -/

mutual

/-- The value with `null` for every number that is not finite. -/
def finite : Value → Value
  | .null => .null
  | .bool b => .bool b
  | .num x => if x.isFinite then .num x else .null
  | .str s => .str s
  | .list items => .list (finiteItems items)
  | .obj entries => .obj (finiteEntries entries)

/-- The items of a list with `null` for the numbers that are not finite. -/
def finiteItems : List Value → List Value
  | [] => []
  | item :: items => finite item :: finiteItems items

/-- The entries of an object with `null` for the numbers that are not finite. -/
def finiteEntries : List (String × Value) → List (String × Value)
  | [] => []
  | (name, value) :: entries => (name, finite value) :: finiteEntries entries

end

mutual

/-- How deep lists and objects are nested. -/
def depth : Value → Nat
  | .null => 0
  | .bool _ => 0
  | .num _ => 0
  | .str _ => 0
  | .list items => depthItems items + 1
  | .obj entries => depthEntries entries + 1

/-- How deep the items of a list are nested. -/
def depthItems : List Value → Nat
  | [] => 0
  | item :: items => max (depth item) (depthItems items)

/-- How deep the values of an object are nested. -/
def depthEntries : List (String × Value) → Nat
  | [] => 0
  | (_, value) :: entries => max (depth value) (depthEntries entries)

end

mutual

/-- The numbers inside a value. -/
def numbers : Value → List Float
  | .null => []
  | .bool _ => []
  | .num x => [x]
  | .str _ => []
  | .list items => numbersOfItems items
  | .obj entries => numbersOfEntries entries

/-- The numbers inside the items of a list. -/
def numbersOfItems : List Value → List Float
  | [] => []
  | item :: items => numbers item ++ numbersOfItems items

/-- The numbers inside the values of an object. -/
def numbersOfEntries : List (String × Value) → List Float
  | [] => []
  | (_, value) :: entries => numbers value ++ numbersOfEntries entries

end

/-- The entries of all objects inside the value are in the order of their names. -/
inductive Ordered : Value → Prop
  | null : Ordered .null
  | bool (b : Bool) : Ordered (.bool b)
  | num (x : Float) : Ordered (.num x)
  | str (s : String) : Ordered (.str s)
  | list {items : List Value} (hitems : ∀ item ∈ items, Ordered item) : Ordered (.list items)
  | obj {entries : List (String × Value)} (hsorted : Entries.Sorted entries)
      (hentries : ∀ entry ∈ entries, Ordered entry.2) : Ordered (.obj entries)

variable {item value : Value} {items : List Value} {name : String}
  {entry : String × Value} {entries : List (String × Value)} {x : Float} {d : Nat}

theorem depthEntries_eq (entries : List (String × Value)) :
    depthEntries entries = depthItems (entries.map Prod.snd) := by
  induction entries with
  | nil => rfl
  | cons entry entries ih => rw [depthEntries, List.map_cons, depthItems, ih]

theorem numbersOfEntries_eq (entries : List (String × Value)) :
    numbersOfEntries entries = numbersOfItems (entries.map Prod.snd) := by
  induction entries with
  | nil => rfl
  | cons entry entries ih => rw [numbersOfEntries, List.map_cons, numbersOfItems, ih]

theorem depth_le_of_mem (h : item ∈ items) : item.depth ≤ depthItems items := by
  induction items with
  | nil => cases h
  | cons first items ih =>
    rw [depthItems]
    rcases List.mem_cons.1 h with rfl | h
    · exact Nat.le_max_left _ _
    · exact Nat.le_trans (ih h) (Nat.le_max_right _ _)

theorem exists_deep (h : d < depthItems items) : ∃ item ∈ items, d < item.depth := by
  induction items with
  | nil => cases h
  | cons first items ih =>
    rcases Nat.lt_or_ge d first.depth with hfirst | hfirst
    · exact ⟨first, List.mem_cons_self, hfirst⟩
    · rw [depthItems] at h
      obtain ⟨item, hitem, hdeep⟩ := ih (by omega)
      exact ⟨item, List.mem_cons_of_mem _ hitem, hdeep⟩

theorem mem_numbersOfItems (h : item ∈ items) (hx : x ∈ item.numbers) :
    x ∈ numbersOfItems items := by
  induction items with
  | nil => cases h
  | cons first items ih =>
    rw [numbersOfItems, List.mem_append]
    rcases List.mem_cons.1 h with rfl | h
    · exact .inl hx
    · exact .inr (ih h)

/-! ## To JSON and back -/

theorem ofJson_numToJson (x : Float) : equal (ofJson (numToJson x)) (finite (.num x)) := by
  unfold numToJson finite
  split
  · rename_i i hsmall
    rw [if_pos (Number.isFinite_of_whole (Number.smallWhole?_eq_some hsmall).1)]
    exact Number.ofInt_beq hsmall
  · split
    · rename_i hfinite
      exact Number.beq_self_of_isFinite hfinite
    · rfl

mutual

theorem ofJson_toJson : ∀ value : Value, equal (ofJson (toJson value)) (finite value)
  | .null => rfl
  | .bool b => by simp [toJson, ofJson, finite, equal]
  | .num x => ofJson_numToJson x
  | .str s => by simp [toJson, ofJson, finite, equal]
  | .list items => itemsOfJson_itemsToJson items
  | .obj entries => entriesOfJson_entriesToJson entries

theorem itemsOfJson_itemsToJson : ∀ items : List Value,
    equalItems (itemsOfJson (itemsToJson items)) (finiteItems items)
  | [] => rfl
  | item :: items => by
    simp only [itemsToJson, itemsOfJson, finiteItems, equalItems, ofJson_toJson item,
      itemsOfJson_itemsToJson items, Bool.and_self]

theorem entriesOfJson_entriesToJson : ∀ entries : List (String × Value),
    equalEntries (entriesOfJson (entriesToJson entries)) (finiteEntries entries)
  | [] => rfl
  | (name, value) :: entries => by
    simp only [entriesToJson, entriesOfJson, finiteEntries, equalEntries, ofJson_toJson value,
      entriesOfJson_entriesToJson entries, beq_self_eq_true, Bool.and_self]

end

end Value

namespace Entries

variable {α : Type}

theorem put_append_of_lt {pair : String × α} {entries : List (String × α)}
    (h : ∀ entry ∈ entries, entry.1 < pair.1) : put pair.1 pair.2 entries = entries ++ [pair] := by
  induction entries with
  | nil => rfl
  | cons entry entries ih =>
    have hlt := h entry List.mem_cons_self
    have hne : entry.1 ≠ pair.1 := fun heq => String.lt_irrefl _ (heq ▸ hlt)
    rw [put, if_neg (String.lt_asymm hlt), if_neg hne,
      ih fun other hother => h other (List.mem_cons_of_mem _ hother)]
    rfl

theorem putAll_append_of_sorted {pairs entries : List (String × α)}
    (h : Sorted (entries ++ pairs)) : putAll pairs entries = entries ++ pairs := by
  induction pairs generalizing entries with
  | nil => exact (List.append_nil entries).symm
  | cons pair pairs ih =>
    have hlt : ∀ entry ∈ entries, entry.1 < pair.1 := fun entry hentry =>
      (List.pairwise_append.1 h).2.2 entry hentry pair List.mem_cons_self
    have hmore := @ih (entries ++ [pair]) (by simpa using h)
    rw [putAll, List.foldl_cons, put_append_of_lt hlt]
    simpa [putAll] using hmore

/-- Entries that are in order already are entered as they are. -/
theorem putAll_of_sorted {pairs : List (String × α)} (h : Sorted pairs) : putAll pairs [] = pairs :=
  @putAll_append_of_sorted α pairs [] h

theorem sorted_of_names {β : Type} {xs : List (String × α)} {ys : List (String × β)}
    (hnames : xs.map Prod.fst = ys.map Prod.fst) (h : Sorted ys) : Sorted xs := by
  have hys : (ys.map Prod.fst).Pairwise (· < ·) := List.pairwise_map.2 h
  rw [← hnames] at hys
  exact List.pairwise_map.1 hys

end Entries

namespace Value

/-! ## The names of an object -/

variable {entries : List (String × Value)}

/-- The names of equal entries are the same. -/
theorem names_of_equalEntries {xs ys : List (String × Value)} (h : equalEntries xs ys) :
    xs.map Prod.fst = ys.map Prod.fst := by
  induction xs generalizing ys with
  | nil =>
    cases ys with
    | nil => rfl
    | cons y ys => cases h
  | cons x xs ih =>
    cases ys with
    | nil => cases h
    | cons y ys =>
      simp only [equalEntries, Bool.and_eq_true, beq_iff_eq] at h
      rw [List.map_cons, List.map_cons, h.1.1, ih h.2]

theorem names_finiteEntries (entries : List (String × Value)) :
    (finiteEntries entries).map Prod.fst = entries.map Prod.fst := by
  induction entries with
  | nil => rfl
  | cons entry entries ih => rw [finiteEntries, List.map_cons, List.map_cons, ih]

theorem names_entriesOfJson (members : List (String × Json)) :
    (entriesOfJson members).map Prod.fst = members.map Prod.fst := by
  induction members with
  | nil => rfl
  | cons member members ih => rw [entriesOfJson, List.map_cons, List.map_cons, ih]

theorem sorted_of_equalEntries {members : List (String × Json)} (hsorted : Entries.Sorted entries)
    (h : equalEntries (entriesOfJson members) (finiteEntries entries)) :
    Entries.Sorted members := by
  have hnames := names_of_equalEntries h
  rw [names_entriesOfJson, names_finiteEntries] at hnames
  exact Entries.sorted_of_names hnames hsorted

end Value

end TreeStream
