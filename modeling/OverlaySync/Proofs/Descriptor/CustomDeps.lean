import OverlaySync.Descriptor
import OverlaySync.Proofs.Manifest.Validity

/-! # What becomes of the dependencies of a manifest

Three writers share the table of dependencies: the manifest, the sets of ignored paths, and git
mode, which leaves the root out. A path is in the table if one of them has it, and it keeps its
source only if the manifest is the only one; so neither the order of the sets nor their number
matters, and what has been left out never comes back.

Main statement: `Descriptor.ofManifest_ignoreAll`. -/

namespace OverlaySync

/-! ## Ignored paths -/

namespace Manifest

/-- Leave out what several sets ask for, one set after the other. -/
def ignoreAll (m : Manifest) (sets : List PathSet) : Manifest :=
  sets.foldl ignore m

/-- The path is in one of the sets. -/
def IgnoredBy (sets : List PathSet) (path : String) : Prop :=
  ∃ s ∈ sets, path ∈ s.toList

instance (sets : List PathSet) (path : String) : Decidable (IgnoredBy sets path) :=
  inferInstanceAs (Decidable (∃ s ∈ sets, path ∈ s.toList))

/-- Where there are no sets nothing is ignored. -/
@[simp] theorem ignoredBy_nil (path : String) : ¬IgnoredBy [] path := by
  simp [IgnoredBy]

/-- A path is ignored by the first set or by one of the others. -/
@[simp] theorem ignoredBy_cons {s : PathSet} {sets : List PathSet} {path : String} :
    IgnoredBy (s :: sets) path ↔ path ∈ s.toList ∨ IgnoredBy sets path := by
  simp [IgnoredBy]

/-- Paths that are inserted without a source have none, and the others keep theirs. -/
theorem get?_foldl_insert_none (paths : List String)
    (deps : OrderedMap String (Option String)) (path : String) :
    (paths.foldl (fun deps p => deps.insert p none) deps).get? path =
      if path ∈ paths then some none else deps.get? path := by
  induction paths generalizing deps with
  | nil => simp
  | cons p paths ih =>
    rw [List.foldl_cons, ih, OrderedMap.get?_insert]
    by_cases later : path ∈ paths
    · simp [later]
    · simp [later]

/-- One set leaves out its paths and nothing else. -/
theorem get?_deps_ignore (m : Manifest) (s : PathSet) (path : String) :
    (m.ignore s).deps.get? path = if path ∈ s.toList then some none else m.deps.get? path :=
  get?_foldl_insert_none s.toList m.deps path

/-- Several sets leave out the paths of all of them. -/
theorem get?_deps_ignoreAll (m : Manifest) (sets : List PathSet) (path : String) :
    (m.ignoreAll sets).deps.get? path =
      if IgnoredBy sets path then some none else m.deps.get? path := by
  induction sets generalizing m with
  | nil => simp [ignoreAll]
  | cons s sets ih =>
    rw [ignoreAll, List.foldl_cons]
    change ((m.ignore s).ignoreAll sets).deps.get? path = _
    rw [ih, get?_deps_ignore]
    by_cases later : IgnoredBy sets path
    · simp [later]
    · simp [later]

/-- Nothing but the dependencies is touched. -/
theorem ignoreAll_eq (m : Manifest) (sets : List PathSet) :
    m.ignoreAll sets = { m with deps := (m.ignoreAll sets).deps } := by
  induction sets generalizing m with
  | nil => rfl
  | cons s sets ih => exact ih (m.ignore s)

/-- The release is the same, whatever is ignored. -/
@[simp] theorem version_ignoreAll (m : Manifest) (sets : List PathSet) :
    (m.ignoreAll sets).version = m.version := by
  rw [ignoreAll_eq]

/-- The variables are the same, whatever is ignored. -/
@[simp] theorem vars_ignoreAll (m : Manifest) (sets : List PathSet) :
    (m.ignoreAll sets).vars = m.vars := by
  rw [ignoreAll_eq]

end Manifest

/-! ## The only solution -/

namespace Descriptor

open Manifest (IgnoredBy)

variable {m : Manifest}

/-- A table of variables is given to the solution unless it is empty. -/
theorem ite_isEmpty_eq_some_iff {vars vars' : OrderedMap String Deps.Value} :
    (if vars.isEmpty then none else some vars) = some vars' ↔ vars' = vars ∧ vars' ≠ ∅ := by
  have empty : vars.isEmpty = true ↔ vars = ∅ := by
    rw [OrderedMap.isEmpty, List.isEmpty_iff]
    exact ⟨fun h => OrderedMap.eq_of_entries h, fun h => congrArg OrderedMap.entries h⟩
  split
  · next h =>
    rw [empty.1 h]
    simp
  · next h =>
    rw [Option.some.injEq]
    constructor
    · rintro rfl
      exact ⟨rfl, fun none => h (empty.2 none)⟩
    · rintro ⟨rfl, -⟩
      rfl

/-- What is made of a manifest. A path has no source if one of the sets or git mode leaves it out,
and what the manifest says otherwise. -/
theorem exists_ofManifest_eq (m : Manifest) (sets : List PathSet) (ignores : PathSet)
    (transport : Transport) (extras : Extras) :
    ∃ deps : OrderedMap String (Option String),
      ofManifest (m.ignoreAll sets) ignores transport extras =
        { solutions := [{
            name := m.version
            url := Release.url m.version
            customDeps := deps
            customVars := if m.vars.isEmpty then none else some m.vars
            depsFile := if transport = .git then some ".DEPS.git" else none }]
          targetOs := if extras.targetOs.isEmpty then none else some extras.targetOs
          cacheDir := extras.cacheDir.map Path.text } ∧
      ∀ path, deps.get? path =
        if transport = .git ∧ path = "src" ∨ IgnoredBy (ignores :: sets) path then some none
        else m.deps.get? path := by
  have ignored (path : String) : ((m.ignoreAll sets).ignore ignores).deps.get? path =
      if IgnoredBy (ignores :: sets) path then some none else m.deps.get? path := by
    rw [Manifest.get?_deps_ignore, Manifest.get?_deps_ignoreAll]
    by_cases last : path ∈ ignores.toList
    · simp [last]
    · simp [last]
  cases transport with
  | subversion =>
    refine ⟨((m.ignoreAll sets).ignore ignores).deps, by simp [ofManifest], fun path => ?_⟩
    simp [ignored]
  | git =>
    refine ⟨((m.ignoreAll sets).ignore ignores).deps.insert rootName none,
      by simp [ofManifest, Release.gitDepsName], fun path => ?_⟩
    -- The root is inserted last, so its source is lost whatever the sets say.
    rw [OrderedMap.get?_insert, ignored]
    by_cases root : path = "src"
    · simp [root, rootName]
    · simp [root, rootName]

/-- From a manifest that was read, with any sets of paths left out one after the other and one more
at the end, comes a single solution. Its table has the paths of the manifest and those of the sets,
the root among them. A path keeps the source that the manifest gives it if no set has it and it is
not the root in git mode; all other paths have none. The sets change nothing else, and their order
and number do not matter as long as they have the same paths together. -/
theorem ofManifest_ignoreAll {source : String} {file : Path}
    (parsed : Manifest.parse source file = .ok m) (sets : List PathSet) (ignores : PathSet)
    (transport : Transport) (extras : Extras) :
    (∃ b, Deps.parse source = .ok b ∧ m.HeldBy b) ∧
    (∃ s : Solution,
      ofManifest (m.ignoreAll sets) ignores transport extras =
        { solutions := [s]
          targetOs := if extras.targetOs.isEmpty then none else some extras.targetOs
          cacheDir := extras.cacheDir.map Path.text } ∧
      s.name = m.version ∧ s.url = Release.url m.version ∧
      s.depsFile = (if transport = .git then some ".DEPS.git" else none) ∧
      (∀ vars, s.customVars = some vars ↔ vars = m.vars ∧ vars ≠ ∅) ∧
      s.customDeps.contains "src" = true ∧
      ∀ path,
        (s.customDeps.contains path = true ↔
          m.deps.contains path = true ∨ IgnoredBy (ignores :: sets) path) ∧
        (∀ url, s.customDeps.get? path = some (some url) ↔
          m.deps.get? path = some (some url) ∧ ¬IgnoredBy (ignores :: sets) path ∧
            ¬(transport = .git ∧ path = "src")) ∧
        (s.customDeps.get? path = some none ↔
          (m.deps.contains path = true ∨ IgnoredBy (ignores :: sets) path) ∧
            ¬∃ url, m.deps.get? path = some (some url) ∧
              ¬IgnoredBy (ignores :: sets) path ∧ ¬(transport = .git ∧ path = "src"))) ∧
    ∀ (sets' : List PathSet) (ignores' : PathSet),
      (∀ path, IgnoredBy (ignores' :: sets') path ↔ IgnoredBy (ignores :: sets) path) →
      ofManifest (m.ignoreAll sets') ignores' transport extras =
        ofManifest (m.ignoreAll sets) ignores transport extras := by
  obtain ⟨b, hb, made⟩ := Manifest.parse_eq_ok_iff.1 parsed
  have root : m.deps.contains "src" = true := Manifest.contains_root_of_ofBindings made
  obtain ⟨deps, whole, found⟩ := exists_ofManifest_eq m sets ignores transport extras
  refine ⟨⟨b, hb, .of_parse hb parsed⟩, ⟨_, whole, rfl, rfl, rfl, ?_, ?_, ?_⟩, ?_⟩
  · exact fun vars => ite_isEmpty_eq_some_iff
  · change (deps.get? "src").isSome = true
    rw [found]
    split
    · rfl
    · exact root
  · intro path
    simp only [OrderedMap.contains, found]
    by_cases git : transport = .git ∧ path = "src"
    · -- The root is left out, and it is in the table as the manifest has it.
      obtain ⟨rfl, rfl⟩ := git
      have listed : (m.deps.get? "src").isSome = true := root
      simp [listed]
    · by_cases ignored : IgnoredBy (ignores :: sets) path
      · simp only [ignored, or_true, if_true]
        simp
      · -- Nobody leaves the path out, so the manifest alone decides.
        simp only [git, ignored, or_false, if_false, not_false_eq_true, and_true]
        rcases m.deps.get? path with _ | _ | url <;> simp
  · -- The two tables have the same at every path.
    intro sets' ignores' same
    obtain ⟨deps', whole', found'⟩ := exists_ofManifest_eq m sets' ignores' transport extras
    have equal : deps' = deps := OrderedMap.ext fun path => by
      simp only [found', found, same path]
    rw [whole', whole, equal]

/-! ## Three dependencies -/

/-- What a manifest with three dependencies binds. -/
def smallBindings : List (String × Deps.Value) :=
  [("chromium_version", .str "9"),
    ("deps_xwalk", .dict [("src", .str "u"), ("src/a", .str "v"), ("src/b", .str "w")]),
    ("vars_xwalk", .dict [])]

/-- The manifest. -/
def smallManifest : Manifest where
  deps := .ofList [("src", some "u"), ("src/a", some "v"), ("src/b", some "w")]
  vars := ∅
  version := "9"
  point := none

/-- The bindings are read as this manifest. -/
theorem parse_smallBindings :
    Manifest.parse (String.ofList (Deps.assignments smallBindings)) ⟨"m"⟩ = .ok smallManifest := by
  have accepted : Deps.parse (String.ofList (Deps.assignments smallBindings)) =
      .ok (.ofList smallBindings) :=
    Deps.parse_assignments (by decide +kernel) (by
      simp [smallBindings, Deps.Value.CanonicalEntries, Deps.Value.Canonical, Entries.Ascending]
      decide) (by decide +kernel)
  rw [Manifest.parse_of_parse accepted]
  exact Outcome.eq_ok_of_toOption (by decide +kernel)

/-- One of three paths keeps its source: another one is ignored twice, and git mode leaves the root
out. It is the same with all ignored paths in one set. -/
theorem ofManifest_ignoreAll_small :
    Manifest.parse (String.ofList (Deps.assignments smallBindings)) ⟨"m"⟩ = .ok smallManifest ∧
    (∃ s, ofManifest (smallManifest.ignoreAll [.ofList ["src/b"], .ofList ["build"]])
        (.ofList ["src/b"]) .git ⟨[], none⟩ = ⟨[s], none, none⟩ ∧
      s.customDeps.get? "src" = some none ∧ s.customDeps.get? "src/a" = some (some "v") ∧
      s.customDeps.get? "src/b" = some none ∧ s.customDeps.get? "build" = some none) ∧
    ofManifest (smallManifest.ignoreAll []) (.ofList ["src/b", "build"]) .git ⟨[], none⟩ =
      ofManifest (smallManifest.ignoreAll [.ofList ["src/b"], .ofList ["build"]])
        (.ofList ["src/b"]) .git ⟨[], none⟩ := by
  obtain ⟨-, ⟨s, made, -, -, -, -, -, paths⟩, same⟩ := ofManifest_ignoreAll parse_smallBindings
    [.ofList ["src/b"], .ofList ["build"]] (.ofList ["src/b"]) .git ⟨[], none⟩
  refine ⟨parse_smallBindings, ⟨s, made, ?_, ?_, ?_, ?_⟩, same [] _ fun path => ?_⟩
  · refine (paths "src").2.2.2 ⟨by decide +kernel, ?_⟩
    rintro ⟨-, -, -, noRoot⟩
    exact noRoot ⟨rfl, rfl⟩
  · exact ((paths "src/a").2.1 "v").2 (by decide +kernel)
  · refine (paths "src/b").2.2.2 ⟨by decide +kernel, ?_⟩
    rintro ⟨-, -, kept, -⟩
    exact kept (by decide +kernel)
  · refine (paths "build").2.2.2 ⟨by decide +kernel, ?_⟩
    rintro ⟨-, -, kept, -⟩
    exact kept (by decide +kernel)
  · have one : (PathSet.ofList ["src/b"]).toList = ["src/b"] := by decide +kernel
    have other : (PathSet.ofList ["build"]).toList = ["build"] := by decide +kernel
    have both : (PathSet.ofList ["src/b", "build"]).toList = ["build", "src/b"] := by
      decide +kernel
    simp only [Manifest.ignoredBy_cons, Manifest.ignoredBy_nil, one, other, both, List.mem_cons,
      List.not_mem_nil, or_false]
    grind

end Descriptor

end OverlaySync
