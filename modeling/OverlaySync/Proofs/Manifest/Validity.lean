import OverlaySync.Manifest
import OverlaySync.Proofs.Deps.Stability

/-! # Which sources are manifests

A source is a manifest if it binds the three names that have to be bound, and perhaps the fourth
one, to values of the right kind, and if there is a dependency for the root. The dependency for the
root is looked for when all else is in order, so a failure that names it means that nothing else is
wrong. What a source binds besides the four names makes no difference.

`Manifest.Shaped` and `Manifest.ListsRoot` are the conditions on the bindings, `Manifest.HeldBy`
says what the manifest has from them. Main statement: `Manifest.parse_validates`. -/

namespace OverlaySync.Manifest

open Deps (Value Bindings)

/-! ## What bindings have to be like -/

/-- All that is asked of the bindings of a manifest, but for the entry of the root. -/
structure Shaped (b : Bindings) : Prop where
  /-- The dependencies are a dict, and each of them comes from a text or from nothing. -/
  deps : ∃ es, b.get? "deps_xwalk" = some (.dict es) ∧
    ∀ e ∈ es, e.2 = .none ∨ ∃ url, e.2 = .str url
  /-- The variables are a dict. -/
  vars : ∃ es, b.get? "vars_xwalk" = some (.dict es)
  /-- The release is a text that is not empty. -/
  version : ∃ release, b.get? "chromium_version" = some (.str release) ∧ release ≠ ""
  /-- If there is a revision of the root, it is a text. -/
  point : b.get? "chromium_crosswalk_point" = none ∨
    b.get? "chromium_crosswalk_point" = some .none ∨
    ∃ revision, b.get? "chromium_crosswalk_point" = some (.str revision)

/-- There is a dependency for the root. -/
def ListsRoot (b : Bindings) : Prop :=
  ∃ es, b.get? "deps_xwalk" = some (.dict es) ∧ "src" ∈ es.map Prod.fst

/-- The manifest has what the bindings say. -/
structure HeldBy (m : Manifest) (b : Bindings) : Prop where
  deps : b.get? "deps_xwalk" = some (.ofTable (m.deps.mapValues Value.ofOption))
  vars : b.get? "vars_xwalk" = some (.ofTable m.vars)
  version : b.get? "chromium_version" = some (.str m.version)
  /-- A revision that is not bound counts as one that is bound to nothing. -/
  point : (b.get? "chromium_crosswalk_point").getD .none = .ofOption m.point

/-! ## One binding -/

variable {b : Bindings} {m : Manifest}

/-- A name that is required has to be bound. -/
theorem require_eq_ok_iff {name : Binding} {v : Value} :
    require b name = .ok v ↔ b.get? name.name = some v := by
  unfold require
  split <;> simp_all

/-- A name that is not bound is another fault than a missing root. -/
theorem require_ne_missingRoot (b : Bindings) (name : Binding) :
    require b name ≠ .error .missingRoot := by
  unfold require
  split <;> simp

/-- A source is what an option writes. -/
theorem sourceOf_eq_ok_iff {path : String} {v : Value} {source : Option String} :
    sourceOf path v = .ok source ↔ v = .ofOption source := by
  cases source <;> cases v <;> simp [sourceOf, Value.ofOption]

/-- The root is not missed where the source of a dependency is malformed. -/
theorem sourceOf_ne_missingRoot (path : String) (v : Value) :
    sourceOf path v ≠ .error .missingRoot := by
  cases v <;> simp [sourceOf]

/-- Entries are read one by one, each with its source. -/
theorem mapM_sourceOf_eq_ok_iff {es : List (String × Value)} {ps : List (String × Option String)} :
    (es.mapM fun e => do return (e.1, ← sourceOf e.1 e.2)) = .ok ps ↔
      es = Entries.mapValues Value.ofOption ps := by
  induction es generalizing ps with
  | nil => cases ps <;> simp [Entries.mapValues, Outcome.pure_eq_ok_iff]
  | cons e es ih =>
    obtain ⟨path, v⟩ := e
    simp only [List.mapM_cons, Outcome.bind_eq_ok_iff, Outcome.pure_eq_ok_iff, ih,
      sourceOf_eq_ok_iff]
    constructor
    · rintro ⟨_, ⟨source, rfl, rfl⟩, qs, rfl, rfl⟩
      rfl
    · cases ps with
      | nil =>
        intro h
        cases h
      | cons p ps =>
        intro h
        obtain ⟨⟨rfl, rfl⟩, rfl⟩ : (path = p.1 ∧ v = .ofOption p.2) ∧
            es = Entries.mapValues Value.ofOption ps := by
          simpa [Entries.mapValues] using h
        exact ⟨_, ⟨p.2, rfl, rfl⟩, ps, rfl, rfl⟩

/-- The root is not missed while the sources of all dependencies are read. -/
theorem mapM_sourceOf_ne_missingRoot (es : List (String × Value)) :
    (es.mapM fun e => do return (e.1, ← sourceOf e.1 e.2)) ≠ .error Fault.missingRoot := by
  induction es with
  | nil => exact nofun
  | cons e es ih =>
    rw [List.mapM_cons]
    refine Outcome.bind_ne_error ?_ fun p => Outcome.bind_ne_error ih fun ps => nofun
    exact Outcome.bind_ne_error (sourceOf_ne_missingRoot e.1 e.2) fun source => nofun

/-- Entries have sources if each of them has a text or nothing. -/
theorem exists_mapValues_iff {es : List (String × Value)} :
    (∃ ps, es = Entries.mapValues Value.ofOption ps) ↔
      ∀ e ∈ es, e.2 = .none ∨ ∃ url, e.2 = .str url := by
  constructor
  · rintro ⟨ps, rfl⟩ e he
    obtain ⟨p, -, rfl⟩ := List.mem_map.1 he
    cases p.2 with
    | none => exact .inl rfl
    | some url => exact .inr ⟨url, rfl⟩
  · intro all
    induction es with
    | nil => exact ⟨[], rfl⟩
    | cons e es ih =>
      obtain ⟨head, tail⟩ := List.forall_mem_cons.1 all
      obtain ⟨ps, rfl⟩ := ih tail
      obtain ⟨path, v⟩ := e
      rcases head with rfl | ⟨url, rfl⟩
      · exact ⟨(path, none) :: ps, rfl⟩
      · exact ⟨(path, some url) :: ps, rfl⟩

/-- The dependencies are read before the root is looked for among them. -/
theorem depsOf_ne_missingRoot (v : Value) : depsOf v ≠ .error .missingRoot := by
  cases v with
  | dict es => exact Outcome.bind_ne_error (mapM_sourceOf_ne_missingRoot es) fun ps => nofun
  | none | bool | int | str | list => exact nofun

/-- The dependencies are read from the table of what they come from. -/
theorem depsOf_eq_ok_iff {v : Value} (canonical : v.Canonical)
    {deps : OrderedMap String (Option String)} :
    depsOf v = .ok deps ↔ v = .ofTable (deps.mapValues Value.ofOption) := by
  cases v with
  | dict es =>
    simp only [depsOf, Outcome.bind_eq_ok_iff, mapM_sourceOf_eq_ok_iff, Outcome.pure_eq_ok_iff]
    constructor
    · rintro ⟨ps, rfl, rfl⟩
      -- The pairs have the keys of the entries, which ascend.
      have ascending : Entries.Ascending ps := List.pairwise_map.1 canonical.1
      change Value.dict _ = Value.dict (Entries.mapValues _ (Entries.ofList ps))
      rw [Deps.ofList_eq_self ascending]
    · intro h
      obtain rfl := Value.dict.inj h
      exact ⟨deps.entries, rfl, OrderedMap.eq_of_entries (Deps.ofList_eq_self deps.ascending)⟩
  | none | bool | int | str | list => constructor <;> intro h <;> cases h

/-- The variables are read from their table. -/
theorem varsOf_eq_ok_iff {v : Value} (canonical : v.Canonical) {vars : OrderedMap String Value} :
    varsOf v = .ok vars ↔ v = .ofTable vars := by
  cases v with
  | dict es =>
    have table : OrderedMap.ofList es = ⟨es, canonical.1⟩ :=
      OrderedMap.eq_of_entries (Deps.ofList_eq_self canonical.1)
    rw [varsOf, table, Except.ok.injEq]
    constructor
    · rintro rfl
      rfl
    · intro h
      exact OrderedMap.eq_of_entries (Value.dict.inj h)
  | none | bool | int | str | list => exact ⟨nofun, nofun⟩

/-- Variables that are no dict are another fault. -/
theorem varsOf_ne_missingRoot (v : Value) : varsOf v ≠ .error .missingRoot := by
  cases v <;> exact nofun

/-- A release is a text that is not empty. -/
theorem versionOf_eq_ok_iff {v : Value} {release : String} :
    versionOf v = .ok release ↔ v = .str release ∧ release ≠ "" := by
  unfold versionOf
  split
  · next => simp
  · next version nonempty =>
    rw [Except.ok.injEq, Value.str.injEq]
    constructor
    · rintro rfl
      exact ⟨rfl, nonempty⟩
    · exact And.left
  · next other => exact ⟨nofun, fun h => absurd h.1 (other release)⟩

/-- A release that is no text, or an empty one, is another fault than a missing root. -/
theorem versionOf_ne_missingRoot (v : Value) : versionOf v ≠ .error .missingRoot := by
  unfold versionOf
  split <;> exact nofun

/-- A revision of the root is a text or none, and none if nothing is bound. -/
theorem pointOf_eq_ok_iff {v : Option Value} {revision : Option String} :
    pointOf v = .ok revision ↔ v.getD .none = .ofOption revision := by
  rcases v with _ | v
  · cases revision <;> simp [pointOf, Value.ofOption]
  · cases revision <;> cases v <;> simp [pointOf, Value.ofOption]

/-- A revision that is no text is another fault than a missing root. -/
theorem pointOf_ne_missingRoot (v : Option Value) : pointOf v ≠ .error .missingRoot := by
  unfold pointOf
  split <;> exact nofun

/-! ## All bindings -/

/-- What the bindings say, whether there is an entry for the root or not. -/
def fields (b : Bindings) : Except Fault Manifest := do
  let deps ← require b .deps
  let vars ← require b .vars
  let version ← require b .version
  let deps ← depsOf deps
  let vars ← varsOf vars
  let version ← versionOf version
  let point ← pointOf (b.get? Binding.point.name)
  return { deps, vars, version, point }

/-- The root is looked for when all else has been read. -/
theorem ofBindings_eq (b : Bindings) :
    ofBindings b = fields b >>= fun m =>
      if m.deps.contains rootName then .ok m else .error .missingRoot := by
  simp only [ofBindings, fields, bind_assoc, pure_bind]
  rfl

/-- What is read of the bindings is what they say. -/
theorem fields_eq_ok_iff (canonical : Deps.CanonicalScope b.get?) :
    fields b = .ok m ↔ m.HeldBy b ∧ m.version ≠ "" := by
  simp only [fields, Outcome.bind_eq_ok_iff, Outcome.pure_eq_ok_iff, require_eq_ok_iff,
    versionOf_eq_ok_iff, pointOf_eq_ok_iff]
  constructor
  · rintro ⟨dict, hdict, table, htable, text, htext, deps, hdeps, vars, hvars, version,
      ⟨rfl, nonempty⟩, point, hpoint, rfl⟩
    rw [depsOf_eq_ok_iff (canonical _ _ hdict)] at hdeps
    rw [varsOf_eq_ok_iff (canonical _ _ htable)] at hvars
    subst hdeps hvars
    exact ⟨⟨hdict, htable, htext, hpoint⟩, nonempty⟩
  · rintro ⟨⟨hdeps, hvars, hversion, hpoint⟩, nonempty⟩
    refine ⟨_, hdeps, _, hvars, _, hversion, m.deps, ?_, m.vars, ?_, m.version, ⟨rfl, nonempty⟩,
      m.point, hpoint, rfl⟩
    · exact (depsOf_eq_ok_iff (canonical _ _ hdeps)).2 rfl
    · exact (varsOf_eq_ok_iff (canonical _ _ hvars)).2 rfl

/-- A missing entry for the root is no reason why something cannot be read. -/
theorem fields_ne_missingRoot (b : Bindings) : fields b ≠ .error .missingRoot := by
  refine Outcome.bind_ne_error (require_ne_missingRoot b _) fun deps => ?_
  refine Outcome.bind_ne_error (require_ne_missingRoot b _) fun vars => ?_
  refine Outcome.bind_ne_error (require_ne_missingRoot b _) fun version => ?_
  refine Outcome.bind_ne_error (depsOf_ne_missingRoot deps) fun deps => ?_
  refine Outcome.bind_ne_error (varsOf_ne_missingRoot vars) fun vars => ?_
  refine Outcome.bind_ne_error (versionOf_ne_missingRoot version) fun version => ?_
  exact Outcome.bind_ne_error (pointOf_ne_missingRoot _) fun point => nofun

/-- The bindings can be read if they are as they have to be. -/
theorem exists_fields_iff (canonical : Deps.CanonicalScope b.get?) :
    (∃ m, fields b = .ok m) ↔ Shaped b := by
  simp only [fields_eq_ok_iff canonical]
  constructor
  · rintro ⟨m, ⟨hdeps, hvars, hversion, hpoint⟩, nonempty⟩
    refine ⟨⟨_, hdeps, exists_mapValues_iff.1 ⟨m.deps.entries, rfl⟩⟩, ⟨_, hvars⟩,
      ⟨m.version, hversion, nonempty⟩, ?_⟩
    rcases hb : b.get? "chromium_crosswalk_point" with _ | v
    · exact .inl rfl
    · rw [hb, Option.getD_some] at hpoint
      subst hpoint
      cases m.point with
      | none => exact .inr (.inl rfl)
      | some revision => exact .inr (.inr ⟨revision, rfl⟩)
  · rintro ⟨⟨es, hdeps, sources⟩, ⟨table, hvars⟩, ⟨version, hversion, nonempty⟩, hpoint⟩
    obtain ⟨ps, rfl⟩ := exists_mapValues_iff.2 sources
    have ascending : Entries.Ascending ps := List.pairwise_map.1 (canonical _ _ hdeps).1
    obtain ⟨point, hpoint⟩ : ∃ point : Option String,
        (b.get? "chromium_crosswalk_point").getD .none = .ofOption point := by
      -- A revision is left out, nothing or a text; the manifest has none in the first two cases.
      rcases hpoint with h | h | ⟨revision, h⟩ <;> rw [h]
      · exact ⟨none, rfl⟩
      · exact ⟨none, rfl⟩
      · exact ⟨some revision, rfl⟩
    exact ⟨⟨⟨ps, ascending⟩, ⟨table, (canonical _ _ hvars).1⟩, version, point⟩,
      ⟨hdeps, hvars, hversion, hpoint⟩, nonempty⟩

/-- The entry for the root is one of the dependencies. -/
theorem HeldBy.contains_root_iff (h : m.HeldBy b) :
    m.deps.contains rootName = true ↔ ListsRoot b := by
  have keys : (Entries.mapValues Value.ofOption m.deps.entries).map Prod.fst = m.deps.keys := by
    simp [Entries.mapValues, OrderedMap.keys]
  rw [OrderedMap.contains_iff_mem_keys, ← keys]
  constructor
  · intro root
    exact ⟨_, h.deps, root⟩
  · rintro ⟨es, hes, root⟩
    obtain rfl := Value.dict.inj (Option.some.inj (h.deps.symm.trans hes))
    exact root

/-- Bindings make up a manifest if they are as they have to be and there is an entry for the
root. -/
theorem exists_ofBindings_iff (canonical : Deps.CanonicalScope b.get?) :
    (∃ m, ofBindings b = .ok m) ↔ Shaped b ∧ ListsRoot b := by
  rw [← exists_fields_iff canonical]
  simp only [ofBindings_eq, Outcome.bind_eq_ok_iff]
  constructor
  · rintro ⟨_, m, hm, root⟩
    have held := ((fields_eq_ok_iff canonical).1 hm).1
    split at root
    · next listed => exact ⟨⟨m, hm⟩, held.contains_root_iff.1 listed⟩
    · cases root
  · rintro ⟨⟨m, hm⟩, listed⟩
    have held := ((fields_eq_ok_iff canonical).1 hm).1
    exact ⟨m, m, hm, if_pos (held.contains_root_iff.2 listed)⟩

/-- Nothing else is wrong where the entry for the root is said to be missing. -/
theorem ofBindings_eq_missingRoot_iff (canonical : Deps.CanonicalScope b.get?) :
    ofBindings b = .error .missingRoot ↔ Shaped b ∧ ¬ListsRoot b := by
  rw [← exists_fields_iff canonical, ofBindings_eq]
  cases hm : fields b with
  | error e =>
    constructor
    · intro h
      exact absurd (hm.trans h) (fields_ne_missingRoot b)
    · rintro ⟨⟨m, ⟨⟩⟩, -⟩
  | ok m =>
    have held := ((fields_eq_ok_iff canonical).1 hm).1
    change (if m.deps.contains rootName then Except.ok m else .error Fault.missingRoot) = _ ↔ _
    rw [← held.contains_root_iff]
    split
    · next listed => simp [listed]
    · next unlisted => simp [unlisted]

/-- A manifest that is made of bindings has what they say. -/
theorem HeldBy.of_ofBindings (canonical : Deps.CanonicalScope b.get?)
    (h : ofBindings b = .ok m) : m.HeldBy b := by
  rw [ofBindings_eq, Outcome.bind_eq_ok_iff] at h
  obtain ⟨m', hm, root⟩ := h
  split at root
  · cases root
    exact ((fields_eq_ok_iff canonical).1 hm).1
  · cases root

/-- The manifest has a revision of the root if one is bound. -/
theorem HeldBy.point_eq_some_iff (h : m.HeldBy b) {revision : String} :
    m.point = some revision ↔ b.get? "chromium_crosswalk_point" = some (.str revision) := by
  have point := h.point
  constructor
  · intro held
    rw [held] at point
    cases bound : b.get? "chromium_crosswalk_point" <;> rw [bound] at point <;> cases point
    rfl
  · intro bound
    rw [bound] at point
    cases held : m.point <;> rw [held] at point <;> cases point
    rfl

/-- A manifest has an entry for the root. -/
theorem contains_root_of_ofBindings (h : ofBindings b = .ok m) :
    m.deps.contains rootName = true := by
  rw [ofBindings_eq, Outcome.bind_eq_ok_iff] at h
  obtain ⟨m', -, root⟩ := h
  split at root
  · next listed =>
    cases root
    exact listed
  · cases root

/-- No other names are looked up. -/
theorem ofBindings_congr {b b' : Bindings}
    (same : ∀ name : Binding, b.get? name.name = b'.get? name.name) :
    ofBindings b = ofBindings b' := by
  simp only [ofBindings, require, same]

/-! ## Sources -/

section Sources

variable {source : String} {path : Path}

/-- What a source that is accepted comes to is what its bindings do. -/
theorem parse_of_parse (h : Deps.parse source = .ok b) :
    parse source path = (ofBindings b).mapError (Fault.toFailure path) := by
  rw [parse, ofSource, h]

/-- A source that is refused is no manifest. -/
theorem parse_of_refused {e : Deps.SyntaxError} (h : Deps.parse source = .error e) :
    parse source path = .error ((Fault.refused e).toFailure path) := by
  rw [parse, ofSource, h]
  rfl

/-- A failure is about the entry for the root, or about something else. -/
theorem Fault.toFailure_cases (path : Path) (f : Fault) :
    f = .missingRoot ∧ f.toFailure path = .missingRootDependency "src" path ∨
      f ≠ .missingRoot ∧
        ∃ message hint, f.toFailure path = .manifestMalformed path message hint := by
  cases f with
  | missingRoot => exact .inl ⟨rfl, rfl⟩
  | refused | missing | wrongType | wrongSource | emptyVersion =>
    exact .inr ⟨nofun, _, _, rfl⟩

/-- The failure about the root tells its reason. -/
theorem Fault.toFailure_eq_missingRoot_iff {f : Fault} :
    f.toFailure path = .missingRootDependency "src" path ↔ f = .missingRoot := by
  rcases f.toFailure_cases path with ⟨rfl, h⟩ | ⟨other, message, hint, h⟩
  · exact iff_of_true h rfl
  · refine iff_of_false (fun same => ?_) other
    rw [h] at same
    cases same

/-- A manifest is made of the bindings of its source. -/
theorem parse_eq_ok_iff :
    parse source path = .ok m ↔ ∃ b, Deps.parse source = .ok b ∧ ofBindings b = .ok m := by
  cases h : Deps.parse source with
  | error e =>
    rw [parse_of_refused h]
    simp
  | ok b =>
    rw [parse_of_parse h]
    cases made : ofBindings b <;> simp [Outcome.mapError_ok, Outcome.mapError_error, made]

/-- What is read from a source is what it binds. -/
theorem HeldBy.of_parse (accepted : Deps.parse source = .ok b)
    (parsed : parse source path = .ok m) : m.HeldBy b := by
  obtain ⟨b', accepted', made⟩ := parse_eq_ok_iff.1 parsed
  cases accepted.symm.trans accepted'
  exact .of_ofBindings (Deps.canonicalScope_of_parse accepted) made

/-- The root is missed exactly where the bindings of a source miss it. -/
theorem parse_eq_missingRoot_iff :
    parse source path = .error (.missingRootDependency "src" path) ↔
      ∃ b, Deps.parse source = .ok b ∧ ofBindings b = .error .missingRoot := by
  cases h : Deps.parse source with
  | error e =>
    rw [parse_of_refused h]
    simp [Fault.toFailure]
  | ok b =>
    rw [parse_of_parse h]
    cases made : ofBindings b <;>
      simp [Outcome.mapError_ok, Outcome.mapError_error, made, Fault.toFailure_eq_missingRoot_iff]

/-- A source is a manifest exactly if it is accepted, its bindings are as they have to be and there
is an entry for the root; the manifest has what they say. If only the entry for the root is missing,
this is the failure, and it is the failure of no other source; all the others are malformed. Two
sources that bind the four names to the same make the same manifest, or fail in the same way,
whatever else they bind. -/
theorem parse_validates (source : String) (path : Path) :
    ((∃ m, parse source path = .ok m) ↔
      ∃ b, Deps.parse source = .ok b ∧ Shaped b ∧ ListsRoot b) ∧
    (∀ m, parse source path = .ok m → ∃ b, Deps.parse source = .ok b ∧ m.HeldBy b) ∧
    (parse source path = .error (.missingRootDependency "src" path) ↔
      ∃ b, Deps.parse source = .ok b ∧ Shaped b ∧ ¬ListsRoot b) ∧
    (∀ e, parse source path = .error e → e = .missingRootDependency "src" path ∨
      ∃ message hint, e = .manifestMalformed path message hint) ∧
    ∀ (source' : String) (b b' : Bindings), Deps.parse source = .ok b →
      Deps.parse source' = .ok b' →
      (∀ name ∈ ["deps_xwalk", "vars_xwalk", "chromium_version", "chromium_crosswalk_point"],
        b.get? name = b'.get? name) →
      parse source path = parse source' path := by
  refine ⟨?_, fun m h => ?_, ?_, fun e h => ?_, fun source' b b' hb hb' same => ?_⟩
  · simp only [parse_eq_ok_iff]
    constructor
    · rintro ⟨m, b, hb, hm⟩
      exact ⟨b, hb, (exists_ofBindings_iff (Deps.canonicalScope_of_parse hb)).1 ⟨m, hm⟩⟩
    · rintro ⟨b, hb, shaped⟩
      obtain ⟨m, hm⟩ := (exists_ofBindings_iff (Deps.canonicalScope_of_parse hb)).2 shaped
      exact ⟨m, b, hb, hm⟩
  · obtain ⟨b, hb, -⟩ := parse_eq_ok_iff.1 h
    exact ⟨b, hb, .of_parse hb h⟩
  · rw [parse_eq_missingRoot_iff]
    refine exists_congr fun b => and_congr_right fun hb => ?_
    exact ofBindings_eq_missingRoot_iff (Deps.canonicalScope_of_parse hb)
  · cases hs : ofSource source with
    | ok m =>
      rw [parse, hs] at h
      cases h
    | error f =>
      rw [parse, hs] at h
      cases h
      exact (f.toFailure_cases path).imp And.right And.right
  · have agree : ofBindings b = ofBindings b' := ofBindings_congr fun name => by
      cases name <;> exact same _ (by simp [Binding.name])
    rw [parse_of_parse hb, parse_of_parse hb', agree]

end Sources

/-! ## Manifests with one dependency -/

/-- Bindings with a dependency at a path, which is left out. -/
def smallBindings (path : String) : List (String × Value) :=
  [("chromium_version", .str "9"), ("deps_xwalk", .dict [(path, .none)]), ("vars_xwalk", .dict [])]

/-- A source that binds a list to a name of its own, and then what a manifest does. -/
def smallSource (helpers : List (String × Value)) (path : String) : String :=
  String.ofList (Deps.assignments (helpers ++ smallBindings path))

/-- Both sources are accepted, with the helper or without. -/
theorem parse_smallSource (helpers : List (String × Value)) (path : String)
    (helper : helpers ∈ [[], [("helper", .list [])]]) :
    Deps.parse (smallSource helpers path) = .ok (.ofList (helpers ++ smallBindings path)) := by
  simp only [List.mem_cons, List.not_mem_nil, or_false] at helper
  refine Deps.parse_assignments ?_ ?_ ?_
  · rcases helper with rfl | rfl <;> simp [smallBindings] <;> decide
  · rcases helper with rfl | rfl <;>
      simp [smallBindings, Value.CanonicalEntries, Value.Canonical, Value.CanonicalItems,
        Entries.Ascending]
  · rcases helper with rfl | rfl <;> rfl

/-- The bindings are as they have to be, and what stands before them makes no difference. -/
theorem shaped_smallBindings (path : String) : Shaped (.ofList (smallBindings path)) := by
  constructor <;> simp [Deps.sameScope_ofList _ _, smallBindings, List.lookup_cons]

/-- The only dependency is the root's if its path says so. -/
theorem listsRoot_smallBindings (path : String) :
    ListsRoot (.ofList (smallBindings path)) ↔ path = "src" := by
  simp [ListsRoot, Deps.sameScope_ofList _ _, smallBindings, List.lookup_cons, eq_comm]

/-- A manifest for the root is made with the helper and without it, and one for another path misses
the root. -/
theorem parse_validates_small :
    (∃ m, parse (smallSource [] "src") ⟨"m"⟩ = .ok m) ∧
    parse (smallSource [] "src") ⟨"m"⟩ =
      parse (smallSource [("helper", .list [])] "src") ⟨"m"⟩ ∧
    parse (smallSource [] "src/v8") ⟨"m"⟩ = .error (.missingRootDependency "src" ⟨"m"⟩) := by
  have plain (path : String) := parse_smallSource [] path (by simp)
  have helped := parse_smallSource [("helper", .list [])] "src" (by simp)
  obtain ⟨accepted, -, -, -, same⟩ := parse_validates (smallSource [] "src") ⟨"m"⟩
  obtain ⟨-, -, rootless, -, -⟩ := parse_validates (smallSource [] "src/v8") ⟨"m"⟩
  refine ⟨?_, same _ _ _ (plain "src") helped fun name there => ?_, ?_⟩
  · exact accepted.2 ⟨_, plain "src", shaped_smallBindings _, (listsRoot_smallBindings _).2 rfl⟩
  · rw [Deps.sameScope_ofList _ name, Deps.sameScope_ofList _ name]
    revert name
    decide
  · refine rootless.2 ⟨_, plain "src/v8", shaped_smallBindings _, fun root => ?_⟩
    exact absurd ((listsRoot_smallBindings _).1 root) (by decide)

end OverlaySync.Manifest
