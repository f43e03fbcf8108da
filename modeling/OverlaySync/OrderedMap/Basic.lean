import OverlaySync.OrderedMap.Entries

/-! # Finite maps in key order

A finite map is a list of entries together with the proof that its keys ascend. Maps with the same
content are therefore equal (`OrderedMap.ext`), and listing a map needs no sorting. -/

namespace OverlaySync

/-- A finite map from `κ` to `α`, held as entries in ascending key order. -/
structure OrderedMap (κ α : Type) [Ord κ] where
  /-- Keys and values, in key order. -/
  entries : List (κ × α)
  /-- The keys ascend strictly. -/
  ascending : Entries.Ascending entries

namespace OrderedMap

variable {κ α β : Type} [Ord κ]

/-- A map is its entries; that they ascend is no further data. -/
theorem eq_of_entries {m n : OrderedMap κ α} (h : m.entries = n.entries) : m = n := by
  cases m; cases n; cases h; rfl

instance [DecidableEq κ] [DecidableEq α] : DecidableEq (OrderedMap κ α) := fun m n =>
  decidable_of_iff (m.entries = n.entries) ⟨eq_of_entries, fun h => h ▸ rfl⟩

/-- The map without entries. -/
def empty : OrderedMap κ α := ⟨[], List.Pairwise.nil⟩

instance : EmptyCollection (OrderedMap κ α) := ⟨empty⟩

instance : Inhabited (OrderedMap κ α) := ⟨empty⟩

/-- The value of a key. -/
def get? (m : OrderedMap κ α) (k : κ) : Option α :=
  Entries.find? k m.entries

/-- Whether a key has a value. -/
def contains (m : OrderedMap κ α) (k : κ) : Bool :=
  (m.get? k).isSome

/-- The keys, ascending. -/
def keys (m : OrderedMap κ α) : List κ :=
  m.entries.map Prod.fst

/-- Whether the map has no entries. -/
def isEmpty (m : OrderedMap κ α) : Bool :=
  m.entries.isEmpty

/-- Apply a function to every value. -/
def mapValues (f : α → β) (m : OrderedMap κ α) : OrderedMap κ β :=
  ⟨Entries.mapValues f m.entries, m.ascending.mapValues f⟩

/-- Remove the keys that satisfy `p`. -/
def removeIf (p : κ → Bool) (m : OrderedMap κ α) : OrderedMap κ α :=
  ⟨Entries.removeIf p m.entries, m.ascending.removeIf p⟩

@[simp] theorem entries_empty : (∅ : OrderedMap κ α).entries = [] := rfl

section Lawful

variable [Std.LawfulEqOrd κ]

/-- A map has exactly the keys that it lists. -/
theorem contains_iff_mem_keys {m : OrderedMap κ α} {k : κ} :
    m.contains k = true ↔ k ∈ m.keys :=
  Entries.isSome_find?_iff

/-- Mapping the values keeps each of them under its key. -/
@[simp] theorem get?_mapValues (f : α → β) (m : OrderedMap κ α) (k : κ) :
    (m.mapValues f).get? k = (m.get? k).map f :=
  Entries.find?_mapValues f k m.entries

/-- Removal takes out the keys that the test holds of, and no other. -/
@[simp] theorem get?_removeIf (p : κ → Bool) (m : OrderedMap κ α) (k : κ) :
    (m.removeIf p).get? k = if p k then none else m.get? k :=
  Entries.find?_removeIf p k m.entries

variable [Std.TransOrd κ]

/-- Give a key a value, in place of the one it has. -/
def insert (m : OrderedMap κ α) (k : κ) (a : α) : OrderedMap κ α :=
  ⟨Entries.insert k a m.entries, m.ascending.insert k a⟩

/-- The map of a list of pairs; of equal keys the last one counts. -/
def ofList (pairs : List (κ × α)) : OrderedMap κ α :=
  ⟨Entries.ofList pairs, Entries.Ascending.ofList pairs⟩

/-- Maps in which every key has the same value are equal. -/
@[ext] theorem ext {m n : OrderedMap κ α} (h : ∀ k, m.get? k = n.get? k) : m = n :=
  eq_of_entries (Entries.ext m.ascending n.ascending h)

/-- After an insertion the key has the new value, and every other key the value it had. -/
theorem get?_insert [DecidableEq κ] (m : OrderedMap κ α) (k k' : κ) (a : α) :
    (m.insert k a).get? k' = if k' = k then some a else m.get? k' :=
  Entries.find?_insert k k' a m.entries

/-- The key inserted last has the value inserted last. -/
@[simp] theorem get?_insert_self (m : OrderedMap κ α) (k : κ) (a : α) :
    (m.insert k a).get? k = some a :=
  Entries.find?_insert_self k a m.entries

/-- An insertion changes nothing at the other keys. -/
theorem get?_insert_of_ne (m : OrderedMap κ α) {k k' : κ} (h : k' ≠ k) (a : α) :
    (m.insert k a).get? k' = m.get? k' :=
  Entries.find?_insert_of_ne h a m.entries

end Lawful

end OrderedMap

end OverlaySync
