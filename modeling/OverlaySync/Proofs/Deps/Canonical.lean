import OverlaySync.Proofs.Deps.Meaning

/-! # Every value that is held is canonical

In a canonical value the keys of every dict ascend. Values of this kind are all that evaluation ever
makes, whatever references, sums and formats are on the way: a dict is sorted where it is written,
and no operation takes a dict apart.

Main statement: `Binds.forall_mem`, which carries names and values through the bindings of a
file. -/

namespace OverlaySync.Deps

namespace Value

/-- Items are canonical one by one. -/
theorem canonicalItems_iff {vs : List Value} : CanonicalItems vs ↔ ∀ v ∈ vs, v.Canonical := by
  induction vs with
  | nil => simp [CanonicalItems]
  | cons v vs ih => rw [CanonicalItems, ih, List.forall_mem_cons]

/-- Entries are canonical one by one; that they ascend is asked of their dict. -/
theorem canonicalEntries_iff {es : List (String × Value)} :
    CanonicalEntries es ↔ ∀ e ∈ es, e.2.Canonical := by
  induction es with
  | nil => simp [CanonicalEntries]
  | cons e es ih =>
    obtain ⟨k, v⟩ := e
    rw [CanonicalEntries, ih, List.forall_mem_cons]

end Value

/-! ## Look-ups in a history -/

/-- What is found under a key stands in the list. -/
theorem mem_of_lookup {kvs : List (String × Value)} {k : String} {v : Value}
    (h : kvs.lookup k = some v) : (k, v) ∈ kvs := by
  obtain ⟨front, back, rfl, -⟩ := List.lookup_eq_some_iff.1 h
  exact List.mem_append_right _ List.mem_cons_self

/-- The entries of a dict are among the pairs that were written. -/
theorem HoldsLatest.mem {kvs es : List (String × Value)} (h : HoldsLatest kvs es)
    {e : String × Value} (he : e ∈ es) : e ∈ kvs := by
  have found := Entries.find?_of_mem h.1 he
  rw [h.2] at found
  exact List.mem_reverse.1 (mem_of_lookup found)

/-! ## Evaluation -/

/-- The names of a scope have canonical values. -/
def CanonicalScope (scope : String → Option Value) : Prop :=
  ∀ x v, scope x = some v → v.Canonical

section

variable {scope : String → Option Value}

mutual

/-- A phrase has a canonical value if the names in it have. -/
theorem Means.canonical {p : Phrase} {v : Value} (h : Means scope p v)
    (bound : CanonicalScope scope) : v.Canonical := by
  cases h with
  | text | integer | none | true | false | negation | format | sumTexts | sumIntegers => trivial
  | name _ hx => exact bound _ _ hx
  | list items => exact Value.canonicalItems_iff.2 (items.canonical bound)
  | tuple items => exact Value.canonicalItems_iff.2 (items.canonical bound)
  | group inner => exact inner.canonical bound
  | dict entries latest =>
    -- The entries are sorted, and each of them is one of those that were written.
    refine ⟨latest.1, Value.canonicalEntries_iff.2 fun e he => ?_⟩
    exact entries.canonical bound e (latest.mem he)
  | sumLists left right =>
    have hleft := Value.canonicalItems_iff.1 (left.canonical bound)
    have hright := Value.canonicalItems_iff.1 (right.canonical bound)
    refine Value.canonicalItems_iff.2 fun v hv => ?_
    exact (List.mem_append.1 hv).elim (hleft v) (hright v)

/-- Items have canonical values. -/
theorem MeansItems.canonical {ps : List Phrase} {vs : List Value} (h : MeansItems scope ps vs)
    (bound : CanonicalScope scope) : ∀ v ∈ vs, v.Canonical := by
  cases h with
  | nil => exact nofun
  | cons head tail =>
    exact List.forall_mem_cons.2 ⟨head.canonical bound, tail.canonical bound⟩

/-- Entries have canonical values. -/
theorem MeansEntries.canonical {ps : List (Phrase × Phrase)} {kvs : List (String × Value)}
    (h : MeansEntries scope ps kvs) (bound : CanonicalScope scope) :
    ∀ e ∈ kvs, e.2.Canonical := by
  cases h with
  | nil => exact nofun
  | cons key value tail =>
    exact List.forall_mem_cons.2 ⟨value.canonical bound, tail.canonical bound⟩

end

end

/-- What a file binds: names of its bindings, or of those before it, to canonical values. -/
theorem Binds.forall_mem {N : String → Prop} {history final : List (String × Value)}
    {ps : List (String × Phrase)} (h : Binds history ps final) (names : ∀ b ∈ ps, N b.1)
    (before : ∀ b ∈ history, N b.1 ∧ b.2.Canonical) : ∀ b ∈ final, N b.1 ∧ b.2.Canonical := by
  induction h with
  | nil => exact before
  | cons value tail ih =>
    obtain ⟨hname, names⟩ := List.forall_mem_cons.1 names
    have canonical := value.canonical fun x v hx => (before _ (mem_of_lookup hx)).2
    exact ih names (List.forall_mem_cons.2 ⟨⟨hname, canonical⟩, before⟩)

end OverlaySync.Deps
