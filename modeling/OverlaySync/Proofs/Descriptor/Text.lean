import OverlaySync.Descriptor
import OverlaySync.Proofs.Deps.Canonical
import OverlaySync.Proofs.Deps.Unambiguous

/-! # What the text of a descriptor says

The text of a descriptor binds what the descriptor holds and nothing else: the solutions, each as a
table of its own, and the two settings as far as they are there. Reading the text gives these
bindings. Of two different descriptors the texts are different; this is so too where a variable
holds the least integer, and the text is not read at all.

`Solution.HeldBy` and `Descriptor.HeldBy` say what a table holds without a word about how it is
written. Main statement: `Descriptor.render_says`. -/

namespace OverlaySync

open Deps (Value Bindings IsName)

/-! ## Solutions -/

/-- The keys that the table of a solution can have. -/
def Solution.keys : List String :=
  ["name", "url", "custom_deps", "custom_vars", "deps_file"]

/-- The table holds what the solution says, and nothing else. -/
structure Solution.HeldBy (s : Solution) (table : OrderedMap String Value) : Prop where
  name : table.get? "name" = some (.str s.name)
  url : table.get? "url" = some (.str s.url)
  /-- The paths with sources of their own, each with its source or with nothing. -/
  customDeps : ∃ deps : OrderedMap String Value,
    table.get? "custom_deps" = some (.ofTable deps) ∧
      ∀ path, deps.get? path = (s.customDeps.get? path).map Value.ofOption
  customVars : table.get? "custom_vars" = s.customVars.map Value.ofTable
  depsFile : table.get? "deps_file" = s.depsFile.map Value.str
  others : ∀ key, key ∉ Solution.keys → table.get? key = none

/-- A source is told from the value written for it, and so is none. -/
theorem ofOption_injective {a b : Option String} (h : Value.ofOption a = Value.ofOption b) :
    a = b := by
  cases a <;> cases b <;> cases h <;> rfl

/-- A table is told from the value written for it. -/
theorem ofTable_injective {m n : OrderedMap String Value} (h : Value.ofTable m = Value.ofTable n) :
    m = n := by
  rw [Value.ofTable, Value.ofTable, Value.dict.injEq] at h
  exact OrderedMap.eq_of_entries h

/-- A table holds one solution at most. -/
theorem Solution.HeldBy.unique {s t : Solution} {table : OrderedMap String Value}
    (hs : s.HeldBy table) (ht : t.HeldBy table) : s = t := by
  have name := hs.name.symm.trans ht.name
  have url := hs.url.symm.trans ht.url
  have vars := hs.customVars.symm.trans ht.customVars
  have file := hs.depsFile.symm.trans ht.depsFile
  have deps : s.customDeps = t.customDeps := by
    obtain ⟨left, hleft, left_get⟩ := hs.customDeps
    obtain ⟨right, hright, right_get⟩ := ht.customDeps
    have same := ofTable_injective (Option.some.inj (hleft.symm.trans hright))
    subst same
    refine OrderedMap.ext fun path => ?_
    have hpath := (left_get path).symm.trans (right_get path)
    exact Option.map_injective (fun _ _ => ofOption_injective) hpath
  cases s
  cases t
  simp only [Option.some.injEq, Value.str.injEq] at name url deps
  have hvars := Option.map_injective (fun _ _ => ofTable_injective) vars
  have hfile := Option.map_injective (fun _ _ => Value.str.inj) file
  simp only at hvars hfile
  rw [name, url, deps, hvars, hfile]

/-- The pairs that are written of a solution. -/
def Solution.pairs (s : Solution) : List (String × Value) :=
  [("name", .str s.name), ("url", .str s.url),
    ("custom_deps", .ofTable (s.customDeps.mapValues Value.ofOption))] ++
  (s.customVars.map fun vars => ("custom_vars", Value.ofTable vars)).toList ++
  (s.depsFile.map fun file => ("deps_file", Value.str file)).toList

/-- The table that is written of a solution. -/
def Solution.table (s : Solution) : OrderedMap String Value :=
  OrderedMap.ofList s.pairs

/-- What is written of a solution is its table. -/
theorem Solution.toValue_eq (s : Solution) : s.toValue = .ofTable s.table := rfl

/-- Nothing is written of a solution under another key than the five. -/
theorem Solution.map_fst_pairs_subset (s : Solution) : s.pairs.map Prod.fst ⊆ Solution.keys := by
  cases hv : s.customVars <;> cases hf : s.depsFile <;> simp [pairs, keys, hv, hf]

/-- What is written of a solution is what it says. -/
theorem Solution.heldBy_table (s : Solution) : s.HeldBy s.table := by
  have get : ∀ key, s.table.get? key = s.pairs.reverse.lookup key := Deps.sameScope_ofList s.pairs
  -- The keys are different from each other, so the order of the pairs does not matter.
  refine
    ⟨?name, ?url, ⟨s.customDeps.mapValues Value.ofOption, ?deps, ?paths⟩, ?vars, ?file, ?others⟩
  case paths => exact fun path => OrderedMap.get?_mapValues ..
  case others =>
    exact fun key hkey => Deps.get?_ofList_eq_none fun h => hkey (s.map_fst_pairs_subset h)
  all_goals
    rw [get]
    cases hv : s.customVars <;> cases hf : s.depsFile <;> simp [pairs, List.lookup_cons, hv, hf]

/-! ## Descriptors -/

namespace Descriptor

/-- The names that the text of a descriptor can bind. -/
def names : List String :=
  ["solutions", "target_os", "cache_dir"]

/-- The bindings hold what the descriptor says, and nothing else. -/
structure HeldBy (d : Descriptor) (b : Bindings) : Prop where
  /-- The solutions in order, each as a table that holds what it says. -/
  solutions : ∃ table : Solution → OrderedMap String Value,
    b.get? "solutions" = some (.list (d.solutions.map fun s => .ofTable (table s))) ∧
      ∀ s ∈ d.solutions, s.HeldBy (table s)
  targetOs : b.get? "target_os" = d.targetOs.map fun systems => .list (systems.map .str)
  cacheDir : b.get? "cache_dir" = d.cacheDir.map .str
  others : ∀ x, x ∉ names → b.get? x = none

/-- Bindings hold one descriptor at most. -/
theorem HeldBy.unique {d e : Descriptor} {b : Bindings} (hd : d.HeldBy b) (he : e.HeldBy b) :
    d = e := by
  have solutions : d.solutions = e.solutions := by
    obtain ⟨left, hleft, left_held⟩ := hd.solutions
    obtain ⟨right, hright, right_held⟩ := he.solutions
    have same := Value.list.inj (Option.some.inj (hleft.symm.trans hright))
    refine eq_of_map_eq (fun s hs t ht hst => ?_) same
    have held := right_held t ht
    rw [← ofTable_injective hst] at held
    exact (left_held s hs).unique held
  have systems := hd.targetOs.symm.trans he.targetOs
  have dir := hd.cacheDir.symm.trans he.cacheDir
  have texts : ∀ xs ys : List String, Value.list (xs.map .str) = .list (ys.map .str) → xs = ys :=
    fun xs ys h => eq_of_map_eq (fun _ _ _ _ => Value.str.inj) (Value.list.inj h)
  cases d
  cases e
  have hsystems := Option.map_injective texts systems
  have hdir := Option.map_injective (fun _ _ => Value.str.inj) dir
  simp only at solutions hsystems hdir
  rw [solutions, hsystems, hdir]

/-- The pairs that are written of a descriptor. -/
def pairs (d : Descriptor) : List (String × Value) :=
  [("solutions", .list (d.solutions.map Solution.toValue))] ++
  (d.targetOs.map fun systems => ("target_os", Value.list (systems.map .str))).toList ++
  (d.cacheDir.map fun dir => ("cache_dir", Value.str dir)).toList

/-- A descriptor is written as its pairs are, one after the other. -/
theorem toList_render (d : Descriptor) : d.render.toList = Deps.assignments d.pairs := by
  cases hs : d.targetOs <;> cases hd : d.cacheDir <;>
    simp [render, pairs, Deps.assignments, hs, hd]

/-- Nothing but these names is bound. -/
theorem map_fst_pairs_subset (d : Descriptor) : d.pairs.map Prod.fst ⊆ names := by
  cases hs : d.targetOs <;> cases hd : d.cacheDir <;> simp [pairs, names, hs, hd]

/-- What is written of a descriptor is what it says. -/
theorem heldBy_ofList (d : Descriptor) : d.HeldBy (OrderedMap.ofList d.pairs) := by
  have get : ∀ x, (OrderedMap.ofList d.pairs).get? x = d.pairs.reverse.lookup x :=
    Deps.sameScope_ofList d.pairs
  refine ⟨⟨Solution.table, ?solutions, fun s _ => s.heldBy_table⟩, ?systems, ?dir, ?others⟩
  case others =>
    exact fun x hx => Deps.get?_ofList_eq_none fun h => hx (d.map_fst_pairs_subset h)
  all_goals
    rw [get]
    cases hs : d.targetOs <;> cases hd : d.cacheDir <;>
      simp [pairs, List.lookup_cons, hs, hd, Solution.toValue_eq]

/-- The three names are made of letters and underscores. -/
theorem isName_of_mem_names : ∀ x ∈ names, IsName x := by
  decide +kernel

/-- Every name that is written of a descriptor can be read as one. -/
theorem isName_of_mem_pairs (d : Descriptor) : ∀ p ∈ d.pairs, IsName p.1 :=
  fun p hp => isName_of_mem_names p.1 (d.map_fst_pairs_subset (List.mem_map_of_mem hp))

end Descriptor

/-! ## Variables

The values of the variables are the only ones that come from elsewhere; what is written around them
are texts, lists and tables. -/

/-- The values of all variables satisfy `P`. -/
def Descriptor.EveryVar (P : Value → Prop) (d : Descriptor) : Prop :=
  ∀ s ∈ d.solutions, ∀ vars ∈ s.customVars, ∀ e ∈ vars.entries, P e.2

/-- A property that texts have, and lists and tables as far as their values do. -/
structure Hereditary (P : Value → Prop) : Prop where
  none : P .none
  str : ∀ x, P (.str x)
  list : ∀ items, (∀ v ∈ items, P v) → P (.list items)
  table : ∀ m : OrderedMap String Value, (∀ e ∈ m.entries, P e.2) → P (.ofTable m)

/-- Values in canonical form are made of such values, and their tables are in order. -/
theorem hereditary_canonical : Hereditary Value.Canonical where
  none := trivial
  str _ := trivial
  list _ h := Value.canonicalItems_iff.2 h
  table m h := ⟨m.ascending, Value.canonicalEntries_iff.2 h⟩

/-- The least integer is in no list or table that has it in no value. -/
theorem hereditary_withoutLeast : Hereditary fun v => v.hasLeast = false where
  none := rfl
  str _ := rfl
  list items h := by
    rw [Value.hasLeast, Value.hasLeastItem_eq_any, List.any_eq_false]
    exact fun v hv => Bool.eq_false_iff.1 (h v hv)
  table m h := by
    rw [Value.ofTable, Value.hasLeast, Value.hasLeastEntry_eq_any, List.any_eq_false]
    exact fun e he => Bool.eq_false_iff.1 (h e he)

namespace Hereditary

variable {P : Value → Prop}

/-- A source has every such property. -/
theorem ofOption (h : Hereditary P) (source : Option String) : P (.ofOption source) := by
  cases source with
  | none => exact h.none
  | some x => exact h.str x

/-- What is written of a solution has a property that its variables have. -/
theorem toValue (h : Hereditary P) {s : Solution}
    (vars : ∀ m ∈ s.customVars, ∀ e ∈ m.entries, P e.2) : P s.toValue := by
  refine h.table s.table fun e he => ?_
  have hpair : e ∈ s.pairs := Deps.HoldsLatest.mem (Deps.holdsLatest_iff.2 rfl) he
  simp only [Solution.pairs, List.mem_append, List.mem_cons, List.not_mem_nil, or_false,
    Option.mem_toList, Option.map_eq_some_iff] at hpair
  obtain ((rfl | rfl | rfl) | ⟨m, hm, rfl⟩) | ⟨file, -, rfl⟩ := hpair
  · exact h.str _
  · exact h.str _
  · refine h.table _ fun dep hdep => ?_
    obtain ⟨source, -, rfl⟩ := List.mem_map.1 hdep
    exact h.ofOption _
  · exact h.table m (vars m hm)
  · exact h.str _

/-- What is written of a descriptor has a property that its variables have. -/
theorem pairs (h : Hereditary P) {d : Descriptor} (vars : d.EveryVar P) :
    ∀ p ∈ d.pairs, P p.2 := by
  intro p hp
  simp only [Descriptor.pairs, List.mem_append, List.mem_cons, List.not_mem_nil, or_false,
    Option.mem_toList, Option.map_eq_some_iff] at hp
  obtain (rfl | ⟨systems, -, rfl⟩) | ⟨dir, -, rfl⟩ := hp
  · refine h.list _ fun v hv => ?_
    obtain ⟨s, hs, rfl⟩ := List.mem_map.1 hv
    exact h.toValue (vars s hs)
  · refine h.list _ fun v hv => ?_
    obtain ⟨system, -, rfl⟩ := List.mem_map.1 hv
    exact h.str system
  · exact h.str dir

end Hereditary

/-! ## Reading the text, and telling texts apart -/

namespace Descriptor

/-- The text of a descriptor is read as the bindings that are written of it, if no variable holds
the least integer. -/
theorem parse_render {d : Descriptor} (canonical : d.EveryVar Value.Canonical)
    (least : d.EveryVar fun v => v.hasLeast = false) :
    Deps.parse d.render = .ok (OrderedMap.ofList d.pairs) := by
  have written := Deps.writes_assignments d.isName_of_mem_pairs
    (Value.canonicalEntries_iff.2 (hereditary_canonical.pairs canonical))
  have without : Value.hasLeastEntry d.pairs = false := by
    rw [Value.hasLeastEntry_eq_any, List.any_eq_false]
    exact fun p hp => Bool.eq_false_iff.1 (hereditary_withoutLeast.pairs least p hp)
  rw [without, ← toList_render] at written
  exact Deps.parse_of_writesFile written

/-- Different descriptors have different texts. -/
theorem eq_of_render_eq {d e : Descriptor} (h : d.render = e.render) : d = e := by
  have characters : Deps.assignments d.pairs = Deps.assignments e.pairs := by
    rw [← toList_render, ← toList_render, h]
  have same := Deps.assignments_inj d.isName_of_mem_pairs e.isName_of_mem_pairs characters
  have held := e.heldBy_ofList
  rw [← same] at held
  exact d.heldBy_ofList.unique held

/-- The text of a descriptor is read as bindings that hold what the descriptor says and nothing
else, if no variable holds the least integer; and any two descriptors with the same text are the
same. -/
theorem render_says :
    (∀ d : Descriptor, d.EveryVar Value.Canonical → (d.EveryVar fun v => v.hasLeast = false) →
      ∃ b, Deps.parse d.render = .ok b ∧ d.HeldBy b) ∧
    ∀ d e : Descriptor, d.render = e.render → d = e :=
  ⟨fun d canonical least =>
    ⟨OrderedMap.ofList d.pairs, parse_render canonical least, d.heldBy_ofList⟩,
  fun _ _ => eq_of_render_eq⟩

/-- Two solutions, one of them with an empty table of variables, are read back. Paths that are given
in another order, and again, make no other descriptor and so no other text; the text is not even
read here, because of the least integer. -/
theorem render_says_two_solutions :
    (∃ d : Descriptor,
      d = ⟨[⟨"40.0", "it's", .ofList [("src/a", none), ("src", some "x")],
          some (.ofList [("n", .list [.int (-3), .dict []])]), none⟩,
        ⟨"", "", ∅, some ∅, some ".DEPS.git"⟩], some [], none⟩ ∧
      d.EveryVar Value.Canonical ∧ (d.EveryVar fun v => v.hasLeast = false) ∧
      ∃ b, Deps.parse d.render = .ok b ∧ d.HeldBy b) ∧
    ∃ d e : Descriptor,
      d = ⟨[⟨"", "", .ofList [("a", none), ("b", none)],
        some (.ofList [("n", .int Int64.minValue)]), none⟩], none, none⟩ ∧
      e = ⟨[⟨"", "", .ofList [("b", some "x"), ("a", none), ("b", none)],
        some (.ofList [("n", .int Int64.minValue)]), none⟩], none, none⟩ ∧
      d.render = e.render ∧ (Deps.parse d.render).toOption = none ∧ d = e := by
  refine ⟨⟨_, rfl, ?canonical, ?least, render_says.1 _ ?canonical ?least⟩,
    _, _, rfl, rfl, ?same, by decide +kernel, render_says.2 _ _ ?same⟩
  case canonical =>
    have entries : (OrderedMap.ofList [("n", Value.list [.int (-3), .dict []])]).entries =
        [("n", .list [.int (-3), .dict []])] := by decide +kernel
    have canonical : (Value.list [.int (-3), .dict []]).Canonical :=
      ⟨trivial, ⟨List.Pairwise.nil, trivial⟩, trivial⟩
    simp [EveryVar, entries, canonical]
  case least =>
    show ∀ s ∈ _, ∀ vars ∈ Solution.customVars s, ∀ e ∈ vars.entries, e.2.hasLeast = false
    decide +kernel
  case same => decide +kernel

end Descriptor

end OverlaySync
