import OverlaySync.Proofs.Deps.Assignments
import OverlaySync.Proofs.Release.Making

/-! # What a run changes

A run that makes a descriptor changes little beyond what the checkout changes: the deps file for git
in git mode, when everything before it has gone well, and last the descriptor. So a run that fails
leaves the descriptor of an earlier one alone (`Generation.run_effects`). -/

namespace OverlaySync

/-! ## Entries -/

/-- What there is at a path. -/
def World.entryAt (w : World) (p : Path) : Option Node :=
  (w.files.find w.current p).toOption.map Prod.snd

/-- The calls of a checkout leave the entry at a path alone, whether they succeed or not. -/
def Checkout.Spares (c : Checkout (StateM World)) (p : Path) : Prop :=
  ∀ (w : World) (call : Request), (w.execute (c.handle call)).2.entryAt p = w.entryAt p

/-- What every call leaves alone, any number of calls leave alone. -/
theorem Checkout.Spares.entryAt_after {c : Checkout (StateM World)} {p : Path} (h : c.Spares p)
    (w : World) (calls : List Request) : (c.after w calls).entryAt p = w.entryAt p := by
  induction calls generalizing w with
  | nil => rfl
  | cons call calls ih => exact (ih _).trans (h w call)

namespace World

variable {w : World} {p : Path} {content : ByteArray} {l : Location} {files : FileTree}

/-- The file that is put at a path is the entry there. -/
theorem entryAt_of_puts (h : w.files.Puts w.current p content l files) :
    (w.withFiles files).entryAt p = some (.file content) := by
  have found : (w.withFiles files).files.find (w.withFiles files).current p = _ := h.find_self
  rw [entryAt, found]
  rfl

/-- A file that is put at a path is no entry of another name. -/
theorem entryAt_child_of_puts {name name' : String}
    (h : w.files.Puts w.current (p.child name) content l files) (hname : Path.IsEntryName name)
    (hname' : Path.IsEntryName name') (ne : name' ≠ name) (q : Path) :
    (w.withFiles files).entryAt (q.child name') = w.entryAt (q.child name') :=
  congrArg (Option.map Prod.snd) (h.toOption_find_child hname hname' ne q)

end World

/-! ## Names of entries -/

/-- The descriptor is an entry of its directory. -/
theorem Workspace.isEntryName_descriptorName : Path.IsEntryName Workspace.descriptorName := by
  decide

/-- The deps file for git is an entry of its directory. -/
theorem Release.isEntryName_gitDepsName : Path.IsEntryName Release.gitDepsName := by
  decide

namespace Generation

/-! ## The course of a run -/

variable (o : Options) (ws : Workspace) (s : Settings) (checkout : Option (Checkout (StateM World)))
  (w : World)

/-- What the calls of a run can leave of its world. Calls are made in git mode only, for the version
in the manifest. -/
inductive Leaves : World → Prop where
  | uncalled : Leaves w
  | called {c : Checkout (StateM World)} {m : Manifest} {calls : List Request}
      (git : s.transport o.wantsGit = .git) (given : checkout = some c)
      (manifest : (w.execute (Manifest.ofFile (o.manifestIn ws))).1 = .ok m)
      (made : Release.Calls c (.of ws m.version) m.version w calls) :
      Leaves (c.after w calls)

/-- The run gets as far as writing the deps file for git: it is in git mode, both calls have
succeeded and left the world `left`, and the diff has made `text`. -/
def Patches (left : World) (gitDeps : Path) (text : String) : Prop :=
  s.transport o.wantsGit = .git ∧ ∃ c m branch, checkout = some c ∧
    (w.execute (Manifest.ofFile (o.manifestIn ws))).1 = .ok m ∧
    Release.Prepared c (.of ws m.version) m.version w branch text ∧
    left = Release.fetchedWorld c (.of ws m.version) m.version w branch ∧
    gitDeps = (Release.Places.of ws m.version).gitDeps

/-- What a run makes of the world that its calls leave, up to where it writes the descriptor. -/
inductive Updates (left : World) : World → Prop where
  | nothing : Updates left left
  | gitDeps {gitDeps : Path} {text : String} {l : Location} {files : FileTree}
      (patches : Patches o ws s checkout w left gitDeps text)
      (puts : left.files.Puts left.current gitDeps text.toUTF8 l files) :
      Updates left (left.withFiles files)

/-- However what is done for a release ends, it leaves what its calls leave, updated at most by the
deps file for git. -/
theorem execute_prepareRelease {m : Manifest}
    (manifest : (w.execute (Manifest.ofFile (o.manifestIn ws))).1 = .ok m) :
    ∃ r left here, Leaves o ws s checkout w left ∧ Updates o ws s checkout w left here ∧
      w.execute (prepareRelease (s.transport o.wantsGit) ws m.version checkout) = (r, here) := by
  cases git : s.transport o.wantsGit with
  | subversion => exact ⟨_, w, w, .uncalled, .nothing, rfl⟩
  | git =>
    cases given : checkout with
    | none => exact ⟨_, w, w, .uncalled, .nothing, rfl⟩
    | some c =>
      dsimp only [prepareRelease]
      rw [World.execute_bind]
      obtain ⟨e, calls, made, h⟩ | ⟨branch, text, l, files, prepared, puts, h⟩ :=
        Release.execute_makeGitDeps c (.of ws m.version) m.version w
      · rw [h]
        exact ⟨_, _, _, .called git rfl manifest made, .nothing, rfl⟩
      · rw [h]
        refine ⟨_, _, _, .called git rfl manifest prepared.calls, .gitDeps ?_ puts, rfl⟩
        exact ⟨git, c, m, branch, rfl, manifest, prepared, rfl, rfl⟩

/-- The course of a run: calls, then the deps file for git, then the descriptor, and nothing behind
a failure. -/
theorem execute_run : ∃ left here, Leaves o ws s checkout w left ∧
    Updates o ws s checkout w left here ∧
    ((∃ e, w.execute (run o ws s checkout) = (.error e, here)) ∨
      (∃ p, o.dryRun = true ∧ w.execute (run o ws s checkout) = (.ok p, here)) ∨
      ∃ p l files, o.dryRun = false ∧
        here.files.Puts here.current ws.descriptor p.descriptor.render.toUTF8 l files ∧
        w.execute (run o ws s checkout) = (.ok p, here.withFiles files)) := by
  unfold run
  dsimp only
  rw [World.execute_bind_of_readsOnly (readsOnly_ofFile _)]
  cases manifest : (w.execute (Manifest.ofFile (o.manifestIn ws))).1 with
  | error e => exact ⟨w, w, .uncalled, .nothing, .inl ⟨e, rfl⟩⟩
  | ok m =>
  dsimp only
  rw [World.execute_bind]
  obtain ⟨r, left, here, leaves, updates, h⟩ := execute_prepareRelease o ws s checkout w manifest
  refine ⟨left, here, leaves, updates, ?_⟩
  rw [h]
  cases r with
  | error e => exact .inl ⟨e, rfl⟩
  | ok branch =>
  dsimp only
  -- Which descriptor is made does not matter here, only that it is the one that is returned.
  generalize Descriptor.ofManifest m _ _ _ = d
  cases dry : o.dryRun with
  | true => exact .inr (.inl ⟨_, rfl, rfl⟩)
  | false =>
    rw [if_neg Bool.false_ne_true, World.execute_bind]
    obtain ⟨e, hwrite⟩ | ⟨l, files, puts, hwrite⟩ := here.execute_writeDescriptor d ws.descriptor
    · rw [hwrite]
      exact .inl ⟨e, rfl⟩
    · rw [hwrite]
      exact .inr (.inr ⟨⟨ws.descriptor, d, branch⟩, l, files, rfl, puts, rfl⟩)

variable {o ws s checkout w}

/-- Without git mode it makes no difference which checkout there is, or whether there is one. -/
theorem execute_run_of_subversion (h : s.transport o.wantsGit = .subversion)
    (checkout' : Option (Checkout (StateM World))) :
    w.execute (run o ws s checkout') = w.execute (run o ws s checkout) := by
  unfold run
  rw [h]
  rfl

/-! ## What remains as it is -/

/-- The calls of a run spare what its checkout spares. -/
theorem Leaves.entryAt {left : World} (h : Leaves o ws s checkout w left) {p : Path}
    (spares : ∀ c, checkout = some c → c.Spares p) : left.entryAt p = w.entryAt p := by
  cases h with
  | uncalled => rfl
  | called git given manifest made => exact (spares _ given).entryAt_after w _

namespace Updates

variable {left here : World}

/-- Nothing but the files is updated. -/
theorem withFiles (h : Updates o ws s checkout w left here) : here = left.withFiles here.files := by
  cases h <;> rfl

/-- The deps file for git is no descriptor. -/
theorem entryAt (h : Updates o ws s checkout w left here) :
    here.entryAt ws.descriptor = left.entryAt ws.descriptor := by
  cases h with
  | nothing => rfl
  | gitDeps patches puts =>
    obtain ⟨-, c, m, branch, -, -, -, -, rfl⟩ := patches
    exact World.entryAt_child_of_puts puts Release.isEntryName_gitDepsName
      Workspace.isEntryName_descriptorName (by decide) ws.root

/-- No path leads elsewhere. -/
theorem toOption_locate (h : Updates o ws s checkout w left here) (p : Path) :
    (here.files.locate here.current p).toOption = (left.files.locate left.current p).toOption := by
  cases h with
  | nothing => rfl
  | gitDeps patches puts => exact puts.toOption_locate left.current p

/-- The only place that is changed is that of the deps file for git. -/
theorem of_lookup_ne (h : Updates o ws s checkout w left here) {l : Location}
    (ne : here.files.lookup l ≠ left.files.lookup l) :
    ∃ gitDeps text, Patches o ws s checkout w left gitDeps text ∧
      left.files.locate left.current gitDeps = .ok l ∧
      here.files.lookup l = some (.file text.toUTF8) := by
  cases h with
  | nothing => exact absurd rfl ne
  | @gitDeps gitDeps text place files patches puts =>
    have same : l = place := Decidable.byContradiction fun other => ne (puts.lookup_of_ne other)
    subst same
    exact ⟨gitDeps, text, patches, puts.locate, puts.lookup_self⟩

end Updates

variable {result : Except Failure Product} {final : World}

/-- A run that fails or is not to write the descriptor leaves the one that is there. -/
theorem entryAt_of_unwritten (h : w.execute (run o ws s checkout) = (result, final))
    (spares : ∀ c, checkout = some c → c.Spares ws.descriptor)
    (unwritten : (∃ e, result = .error e) ∨ o.dryRun = true) :
    final.entryAt ws.descriptor = w.entryAt ws.descriptor := by
  obtain ⟨left, here, leaves, updates, ending⟩ := execute_run o ws s checkout w
  have kept : here.entryAt ws.descriptor = w.entryAt ws.descriptor :=
    updates.entryAt.trans (leaves.entryAt spares)
  rw [h] at ending
  obtain ⟨e, ⟨⟩⟩ | ⟨p, dry, ⟨⟩⟩ | ⟨p, l, files, notDry, puts, ⟨⟩⟩ := ending
  · exact kept
  · exact kept
  · obtain ⟨e, ⟨⟩⟩ | dry := unwritten
    rw [notDry] at dry
    cases dry

/-- A run that succeeds and is to write the descriptor has written what it made. -/
theorem entryAt_of_written {p : Product} (h : w.execute (run o ws s checkout) = (.ok p, final))
    (notDry : o.dryRun = false) :
    final.entryAt ws.descriptor = some (.file p.descriptor.render.toUTF8) := by
  obtain ⟨left, here, leaves, updates, ending⟩ := execute_run o ws s checkout w
  rw [h] at ending
  obtain ⟨e, ⟨⟩⟩ | ⟨p, dry, ⟨⟩⟩ | ⟨p, l, files, -, puts, ⟨⟩⟩ := ending
  · rw [notDry] at dry
    cases dry
  · exact World.entryAt_of_puts puts

/-- Beyond what calls of the checkout leave, a run changes the places of the descriptor and of the
deps file for git at most. -/
theorem places_of_run (h : w.execute (run o ws s checkout) = (result, final)) :
    ∃ left, Leaves o ws s checkout w left ∧ final = left.withFiles final.files ∧
      ∀ l, final.files.lookup l ≠ left.files.lookup l →
        ((∃ p, result = .ok p) ∧ o.dryRun = false ∧
          left.files.locate left.current ws.descriptor = .ok l) ∨
        ∃ gitDeps text, Patches o ws s checkout w left gitDeps text ∧
          left.files.locate left.current gitDeps = .ok l ∧
          final.files.lookup l = some (.file text.toUTF8) := by
  obtain ⟨left, here, leaves, updates, ending⟩ := execute_run o ws s checkout w
  rw [h] at ending
  obtain ⟨e, ⟨⟩⟩ | ⟨p, dry, ⟨⟩⟩ | ⟨p, l, files, notDry, puts, ⟨⟩⟩ := ending
  · exact ⟨left, leaves, updates.withFiles, fun l ne => .inr (updates.of_lookup_ne ne)⟩
  · exact ⟨left, leaves, updates.withFiles, fun l ne => .inr (updates.of_lookup_ne ne)⟩
  · refine ⟨left, leaves, by rw [updates.withFiles]; rfl, fun l' ne => ?_⟩
    by_cases place : l' = l
    · -- The deps file for git is in place already, but leads no path elsewhere.
      subst place
      refine .inl ⟨⟨p, rfl⟩, notDry, Outcome.eq_ok_of_toOption ?_⟩
      rw [← updates.toOption_locate, puts.locate]
      rfl
    · have same : (here.withFiles files).files.lookup l' = here.files.lookup l' :=
        puts.lookup_of_ne place
      rw [same] at ne ⊢
      exact .inr (updates.of_lookup_ne ne)

/-- A run leaves the descriptor alone unless it succeeds and is to write it, and then writes what it
made. What else it changes is the deps file for git at most, once all that this takes has gone well.
Calls of the checkout come before both, and there is none without git mode. -/
theorem run_effects (h : w.execute (run o ws s checkout) = (result, final)) :
    ((∀ c, checkout = some c → c.Spares ws.descriptor) →
      (∃ e, result = .error e) ∨ o.dryRun = true →
      final.entryAt ws.descriptor = w.entryAt ws.descriptor) ∧
    (∀ p, result = .ok p → o.dryRun = false →
      final.entryAt ws.descriptor = some (.file p.descriptor.render.toUTF8)) ∧
    (∃ left, Leaves o ws s checkout w left ∧ final = left.withFiles final.files ∧
      ∀ l, final.files.lookup l ≠ left.files.lookup l →
        ((∃ p, result = .ok p) ∧ o.dryRun = false ∧
          left.files.locate left.current ws.descriptor = .ok l) ∨
        ∃ gitDeps text, Patches o ws s checkout w left gitDeps text ∧
          left.files.locate left.current gitDeps = .ok l ∧
          final.files.lookup l = some (.file text.toUTF8)) ∧
    (s.transport o.wantsGit = .subversion →
      ∀ checkout', w.execute (run o ws s checkout') = (result, final)) := by
  refine ⟨entryAt_of_unwritten h, ?_, places_of_run h, ?_⟩
  · rintro p rfl notDry
    exact entryAt_of_written h notDry
  · intro svn checkout'
    rw [← h, execute_run_of_subversion svn]

/-! ## A small world -/

/-- What the manifest binds. -/
def smallManifest : List (String × Deps.Value) :=
  [("deps_xwalk", .dict [("src", .none)]), ("vars_xwalk", .dict []), ("chromium_version", .str "9")]

/-- A world in which a release is fetched, and which has the descriptor of an earlier run. -/
def smallWorld : World where
  files := ⟨.ofList [
    (["o"], .directory),
    (["o", "DEPS.xwalk"], .file (String.ofList (Deps.assignments smallManifest)).toUTF8),
    (["o", "tools"], .directory),
    (["o", "tools", "DEPS_git.diff"], .file "@@ -1 +1 @@\n-a\n+b\n".toUTF8),
    (["r"], .directory),
    (["r", ".gclient-xwalk"], .file "earlier".toUTF8),
    (["r", "9"], .directory),
    (["r", "9", "DEPS"], .file "/branches/chromium/7@".toUTF8),
    (["r", "9", "deps_git"], .directory),
    (["r", "9", "deps_git", ".DEPS.git"], .file "a\n".toUTF8)]⟩
  current := []
  tools := []
  respond _ _ files := ⟨files, 0, .empty, .empty⟩
  runs := []
  requests := []

/-- The overlay project of the small world lies beside its root. -/
def smallWorkspace : Workspace where
  overlay := ⟨"/o"⟩
  root := ⟨"/r"⟩

/-- Git mode. -/
def smallOptions : Options where
  manifest := none
  cacheDir := none
  wantsGit := true
  dryRun := false

/-- A checkout that has nothing left to do, and whose second call may still fail. -/
def smallCheckout (succeeds : Bool) : Checkout (StateM World) where
  tool := "svn"
  handle
    | .tree .. => pure ()
    | .files .. => if succeeds then pure () else throw checkoutMissing

/-- The run of the small world. -/
def smallRun (succeeds : Bool) : Session Product :=
  run smallOptions smallWorkspace (.ofLookup fun _ => none) (some (smallCheckout succeeds))

/-- The small checkout touches no file at all. -/
theorem spares_smallCheckout (succeeds : Bool) (p : Path) : (smallCheckout succeeds).Spares p := by
  intro w call
  cases call <;> cases succeeds <;> rfl

/-- The manifest of the small world names its release and has the root for its only dependency. -/
theorem execute_ofFile_smallWorld :
    (smallWorld.execute (Manifest.ofFile (smallOptions.manifestIn smallWorkspace))).1 =
      .ok ⟨.ofList [("src", none)], ∅, "9", none⟩ := by
  have parsed : Deps.parse (String.ofList (Deps.assignments smallManifest)) =
      .ok (.ofList smallManifest) :=
    Deps.parse_assignments (by decide +kernel) (by
      simp [smallManifest, Deps.Value.CanonicalEntries, Deps.Value.Canonical, Entries.Ascending])
      (by decide +kernel)
  have text : (smallWorld.execute
      (Host.readText (smallOptions.manifestIn smallWorkspace))).1 =
      .ok (String.ofList (Deps.assignments smallManifest)) :=
    Outcome.eq_ok_of_toOption (by decide +kernel)
  rw [World.execute_ofFile (by decide +kernel) text, Manifest.parse, Manifest.ofSource, parsed]
  exact Outcome.eq_ok_of_toOption (by decide +kernel)

/-- The run succeeds if the second call does. -/
theorem branch_smallRun (succeeds : Bool) :
    (smallWorld.execute (smallRun succeeds)).1.toOption.map Product.branch =
      if succeeds then some (some "7") else none := by
  unfold smallRun run
  dsimp only
  rw [World.execute_bind_of_readsOnly (readsOnly_ofFile _), execute_ofFile_smallWorld]
  dsimp only
  revert succeeds
  decide +kernel

/-- The run that succeeds writes the descriptor, and the one whose second call fails leaves the
earlier one in place. -/
theorem run_effects_small :
    (∃ p final, smallWorld.execute (smallRun true) = (.ok p, final) ∧ p.branch = some "7" ∧
      final.entryAt smallWorkspace.descriptor = some (.file p.descriptor.render.toUTF8)) ∧
    ∃ e final, smallWorld.execute (smallRun false) = (.error e, final) ∧
      final.entryAt smallWorkspace.descriptor = some (.file "earlier".toUTF8) := by
  obtain ⟨p, hp, branch⟩ := Option.map_eq_some_iff.1 (branch_smallRun true)
  have good : smallWorld.execute (smallRun true) = (.ok p, _) :=
    Prod.ext (Outcome.eq_ok_of_toOption hp) rfl
  have unmade := Option.map_eq_none_iff.1 (branch_smallRun false)
  cases he : (smallWorld.execute (smallRun false)).1 with
  | ok p' =>
    rw [he] at unmade
    cases unmade
  | error e =>
    have bad : smallWorld.execute (smallRun false) = (.error e, _) := Prod.ext he rfl
    have before : smallWorld.entryAt smallWorkspace.descriptor = some (.file "earlier".toUTF8) := by
      decide +kernel
    have spares (c : Checkout (StateM World)) (hc : some (smallCheckout false) = some c) :
        c.Spares smallWorkspace.descriptor :=
      Option.some.inj hc ▸ spares_smallCheckout false _
    refine ⟨⟨p, _, good, branch, (run_effects good).2.1 p rfl rfl⟩, e, _, bad, ?_⟩
    rw [← before]
    exact (run_effects bad).1 spares (.inl ⟨e, rfl⟩)

end Generation

end OverlaySync
