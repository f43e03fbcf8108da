/-! # Entries in ascending key order

Tables are lists of key and value, ascending strictly by key, so that two tables with the same
content are the same list. This module holds the operations on such lists and what they do to
`find?`; `OrderedMap` bundles a list with the proof that it ascends. -/

namespace OverlaySync.Entries

variable {κ α β : Type} [Ord κ]

/-- The keys ascend strictly. -/
def Ascending (es : List (κ × α)) : Prop :=
  es.Pairwise fun a b => compare a.1 b.1 = .lt

instance (es : List (κ × α)) : Decidable (Ascending es) :=
  inferInstanceAs (Decidable (es.Pairwise _))

/-- The value of a key. -/
def find? (k : κ) : List (κ × α) → Option α
  | [] => none
  | (k', a) :: es => if compare k k' = .eq then some a else find? k es

/-- Give a key a value, in place of the one it has. -/
def insert (k : κ) (a : α) : List (κ × α) → List (κ × α)
  | [] => [(k, a)]
  | (k', a') :: es =>
    match compare k k' with
    | .lt => (k, a) :: (k', a') :: es
    | .eq => (k, a) :: es
    | .gt => (k', a') :: insert k a es

/-- Remove the entries whose keys satisfy `p`. -/
def removeIf (p : κ → Bool) (es : List (κ × α)) : List (κ × α) :=
  es.filter fun e => !p e.1

/-- Apply a function to every value. -/
def mapValues (f : α → β) (es : List (κ × α)) : List (κ × β) :=
  es.map fun e => (e.1, f e.2)

/-- Insert the pairs in turn, so that of equal keys the last one counts. -/
def ofList (pairs : List (κ × α)) : List (κ × α) :=
  pairs.foldl (fun es p => insert p.1 p.2 es) []

/-! ## What the operations do to `find?` -/

@[simp] theorem find?_nil (k : κ) : find? k ([] : List (κ × α)) = none := rfl

section Lookup

variable [Std.LawfulEqOrd κ]

/-- The first entry for a key is the one found. -/
theorem find?_cons_self (k : κ) (a : α) (es : List (κ × α)) : find? k ((k, a) :: es) = some a := by
  simp [find?]

/-- An entry for another key is passed over. -/
theorem find?_cons_of_ne {k k' : κ} (h : k ≠ k') (a : α) (es : List (κ × α)) :
    find? k ((k', a) :: es) = find? k es := by
  simp [find?, h]

/-- An inserted key has the inserted value. -/
@[simp] theorem find?_insert_self (k : κ) (a : α) (es : List (κ × α)) :
    find? k (insert k a es) = some a := by
  induction es with
  | nil => simp [insert, find?]
  | cons e es ih =>
    obtain ⟨k', a'⟩ := e
    unfold insert
    split
    · exact find?_cons_self ..
    · exact find?_cons_self ..
    · next h =>
      have ne : k ≠ k' := by rintro rfl; simp at h
      rw [find?_cons_of_ne ne, ih]

/-- An insertion leaves the other keys alone. -/
theorem find?_insert_of_ne {k k' : κ} (h : k' ≠ k) (a : α) (es : List (κ × α)) :
    find? k' (insert k a es) = find? k' es := by
  induction es with
  | nil => simp [insert, find?, h]
  | cons e es ih =>
    obtain ⟨k₁, a₁⟩ := e
    unfold insert
    split
    · exact find?_cons_of_ne h ..
    · next he =>
      obtain rfl := Std.LawfulEqOrd.eq_of_compare he
      rw [find?_cons_of_ne h, find?_cons_of_ne h]
    · by_cases hk : k' = k₁
      · subst hk; rw [find?_cons_self, find?_cons_self]
      · rw [find?_cons_of_ne hk, find?_cons_of_ne hk, ih]

/-- What a key holds after an insertion. -/
theorem find?_insert [DecidableEq κ] (k k' : κ) (a : α) (es : List (κ × α)) :
    find? k' (insert k a es) = if k' = k then some a else find? k' es := by
  split
  · next h => subst h; simp
  · next h => exact find?_insert_of_ne h a es

/-- A key that is found stands in the list. -/
theorem mem_of_find? {k : κ} {a : α} {es : List (κ × α)} (h : find? k es = some a) :
    (k, a) ∈ es := by
  induction es with
  | nil => simp at h
  | cons e es ih =>
    obtain ⟨k', a'⟩ := e
    by_cases hk : k = k'
    · subst hk
      rw [find?_cons_self] at h
      cases h
      exact List.mem_cons_self
    · rw [find?_cons_of_ne hk] at h
      exact List.mem_cons_of_mem _ (ih h)

/-- An entry of an ascending list is found by its key. -/
theorem find?_of_mem {k : κ} {a : α} {es : List (κ × α)} (asc : Ascending es) (h : (k, a) ∈ es) :
    find? k es = some a := by
  induction es with
  | nil => simp at h
  | cons e es ih =>
    obtain ⟨k', a'⟩ := e
    have asc' := List.pairwise_cons.1 asc
    rcases List.mem_cons.1 h with he | h
    · cases he; exact find?_cons_self ..
    · have lt := asc'.1 _ h
      have ne : k ≠ k' := by rintro rfl; simp at lt
      rw [find?_cons_of_ne ne, ih asc'.2 h]

/-- A key is found if it is among the keys. -/
theorem isSome_find?_iff {k : κ} {es : List (κ × α)} :
    (find? k es).isSome = true ↔ k ∈ es.map Prod.fst := by
  induction es with
  | nil => simp
  | cons e es ih =>
    obtain ⟨k', a⟩ := e
    by_cases hk : k = k'
    · subst hk
      simp [find?_cons_self]
    · rw [find?_cons_of_ne hk, ih]
      simp [hk]

/-- Looking up mapped values is mapping what is looked up. -/
theorem find?_mapValues (f : α → β) (k : κ) (es : List (κ × α)) :
    find? k (mapValues f es) = (find? k es).map f := by
  induction es with
  | nil => rfl
  | cons e es ih =>
    obtain ⟨k', a⟩ := e
    by_cases h : k = k'
    · subst h
      rw [find?_cons_self]
      exact find?_cons_self ..
    · rw [find?_cons_of_ne h, ← ih]
      exact find?_cons_of_ne h ..

/-- A key is gone exactly if the test holds of it. -/
theorem find?_removeIf (p : κ → Bool) (k : κ) (es : List (κ × α)) :
    find? k (removeIf p es) = if p k then none else find? k es := by
  induction es with
  | nil => simp [removeIf]
  | cons e es ih =>
    obtain ⟨k', a⟩ := e
    have ih : find? k (es.filter fun e => !p e.1) = if p k then none else find? k es := ih
    by_cases hk : k = k'
    · subst hk
      by_cases hp : p k <;> simp [removeIf, hp, ih, find?_cons_self]
    · rw [find?_cons_of_ne hk]
      by_cases hp : p k' <;> simp [removeIf, hp, ih, find?_cons_of_ne hk]

end Lookup

/-! ## The operations keep the order -/

/-- The keys of an insertion are the inserted one and those before. -/
theorem mem_insert {k : κ} {a : α} {es : List (κ × α)} {e : κ × α} (h : e ∈ insert k a es) :
    e = (k, a) ∨ e ∈ es := by
  induction es with
  | nil => exact .inl (List.mem_singleton.1 h)
  | cons e' es ih =>
    obtain ⟨k', a'⟩ := e'
    unfold insert at h
    split at h
    · exact List.mem_cons.1 h
    · rcases List.mem_cons.1 h with h | h
      · exact .inl h
      · exact .inr (List.mem_cons_of_mem _ h)
    · rcases List.mem_cons.1 h with h | h
      · exact .inr (h ▸ List.mem_cons_self)
      · exact (ih h).imp id (List.mem_cons_of_mem _)

/-- Keys that ascend still do so when some are taken out. -/
theorem Ascending.removeIf {es : List (κ × α)} (asc : Ascending es) (p : κ → Bool) :
    Ascending (removeIf p es) :=
  List.Pairwise.filter _ asc

/-- Mapping values does not touch the keys and so not their order. -/
theorem Ascending.mapValues {es : List (κ × α)} (asc : Ascending es) (f : α → β) :
    Ascending (mapValues f es) :=
  List.Pairwise.map _ (fun _ _ h => h) asc

section Order

variable [Std.TransOrd κ] [Std.LawfulEqOrd κ]

/-- An insertion puts the key where the order wants it. -/
theorem Ascending.insert {es : List (κ × α)} (asc : Ascending es) (k : κ) (a : α) :
    Ascending (insert k a es) := by
  induction es with
  | nil => simp [Entries.insert, Ascending]
  | cons e es ih =>
    obtain ⟨k', a'⟩ := e
    have asc' := List.pairwise_cons.1 asc
    unfold Entries.insert
    split
    · next h =>
      refine List.pairwise_cons.2 ⟨fun e he => ?_, asc⟩
      rcases List.mem_cons.1 he with rfl | he
      · exact h
      · exact Std.TransCmp.lt_trans h (asc'.1 e he)
    · next h =>
      obtain rfl := Std.LawfulEqOrd.eq_of_compare h
      exact List.pairwise_cons.2 asc'
    · next h =>
      refine List.pairwise_cons.2 ⟨fun e he => ?_, ih asc'.2⟩
      rcases mem_insert he with rfl | he
      · exact Std.OrientedCmp.lt_of_gt h
      · exact asc'.1 e he

/-- A list of pairs in any order, with keys repeated or not, becomes entries in ascending order. -/
theorem Ascending.ofList (pairs : List (κ × α)) : Ascending (ofList pairs) := by
  suffices h : ∀ es : List (κ × α), Ascending es →
      Ascending (pairs.foldl (fun es p => Entries.insert p.1 p.2 es) es) from h [] List.Pairwise.nil
  induction pairs with
  | nil => exact fun _ asc => asc
  | cons p pairs ih => exact fun es asc => ih _ (asc.insert p.1 p.2)

/-! ## Equal content is an equal list -/

/-- Nothing before the first key of an ascending list is found in it. -/
theorem find?_eq_none_of_lt {k k' : κ} {a : α} {es : List (κ × α)}
    (asc : Ascending ((k', a) :: es)) (h : compare k k' = .lt) :
    find? k ((k', a) :: es) = none := by
  cases hf : find? k ((k', a) :: es) with
  | none => rfl
  | some b =>
    rcases List.mem_cons.1 (mem_of_find? hf) with he | he
    · cases he; simp at h
    · have later := (List.pairwise_cons.1 asc).1 _ he
      have loop := Std.TransCmp.lt_trans h later
      simp at loop

/-- Ascending lists in which every key finds the same are the same. -/
theorem ext {es es' : List (κ × α)} (asc : Ascending es) (asc' : Ascending es')
    (h : ∀ k, find? k es = find? k es') : es = es' := by
  induction es generalizing es' with
  | nil =>
    cases es' with
    | nil => rfl
    | cons e es' =>
      obtain ⟨k, a⟩ := e
      have := h k
      rw [find?_cons_self] at this
      cases this
  | cons e es ih =>
    obtain ⟨k, a⟩ := e
    cases es' with
    | nil =>
      have := h k
      rw [find?_cons_self] at this
      cases this
    | cons e' es' =>
      obtain ⟨k', a'⟩ := e'
      have hk := h k
      have hk' := h k'
      rw [find?_cons_self] at hk hk'
      -- The first keys are the same: a lesser one would be found in one list only.
      cases hc : compare k k' with
      | lt => rw [find?_eq_none_of_lt asc' hc] at hk; cases hk
      | gt => rw [find?_eq_none_of_lt asc (Std.OrientedCmp.lt_of_gt hc)] at hk'; cases hk'
      | eq =>
        obtain rfl := Std.LawfulEqOrd.eq_of_compare hc
        rw [find?_cons_self] at hk
        cases hk
        refine congrArg _
          (ih (List.pairwise_cons.1 asc).2 (List.pairwise_cons.1 asc').2 fun x => ?_)
        by_cases hx : x = k
        · subst hx
          -- The first key is in neither of the rests, which are ascending.
          have none_of {l : List (κ × α)} (al : Ascending ((x, a) :: l)) : find? x l = none := by
            cases hf : find? x l with
            | none => rfl
            | some b =>
              have := (List.pairwise_cons.1 al).1 _ (mem_of_find? hf)
              simp at this
          rw [none_of asc, none_of asc']
        · have := h x
          rwa [find?_cons_of_ne hx, find?_cons_of_ne hx] at this

end Order

end OverlaySync.Entries
