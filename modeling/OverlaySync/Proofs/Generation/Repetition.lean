import OverlaySync.Proofs.Host.Courses
import OverlaySync.Proofs.Release.Protocol

/-! # Runs that are repeated

A run that makes a descriptor reads what its checkout brings, and writes elsewhere: it patches the
branch's own deps file for git and never the one that it has made. So with a checkout that always
brings the same, a second run ends as the first one and changes nothing
(`Generation.run_repeats`). -/

namespace OverlaySync

/-! ## Checkouts that always do the same -/

/-- A file that a checkout lays out below its destination. -/
structure Placement where
  /-- The directories that lead to the file. -/
  directories : List String
  /-- The name of the file. -/
  name : String
  /-- Its content. -/
  content : ByteArray
  /-- The file is below the destination. -/
  proper : ∀ entry ∈ directories ++ [name], Path.IsEntryName entry

namespace Placement

/-- The path of the directory that holds the file. -/
def holder (f : Placement) (dest : Path) : Path :=
  f.directories.foldl Path.child dest

/-- The path of the file. -/
def path (f : Placement) (dest : Path) : Path :=
  (f.holder dest).child f.name

/-- The name of a file that is laid out is that of an entry. -/
theorem isEntryName (f : Placement) : Path.IsEntryName f.name :=
  f.proper f.name (List.mem_append_right _ (List.mem_singleton_self _))

/-- Write the file, in directories that are made where they are missing. -/
def layOut (f : Placement) (dest : Path) : Session Unit := do
  Host.attempt (Host.makeDirectories (f.holder dest))
  Host.attempt (Host.write (f.path dest) f.content)

end Placement

/-- Calls with equal arguments always do the same: they fail, or they make the destination a
directory and write a fixed list of files below it. -/
def Checkout.LaysOut (c : Checkout (StateM World))
    (does : Request → Except Failure (List Placement)) : Prop :=
  ∀ call, c.handle call = do
    let files ← MonadExcept.ofExcept (does call)
    Host.attempt (Host.makeDirectories call.dest)
    files.forM fun f => f.layOut call.dest

/-- A place where one of the files is laid out. -/
def Placement.IsPlaced (files : List Placement) (dest : Path) (t : FileTree) (current : Location)
    (l : Location) : Prop :=
  ∃ f ∈ files, t.locate current (f.path dest) = .ok l

namespace Course

variable {w w' : World} {dest : Path}

/-- Laying a file out takes its course. -/
theorem layOut {f : Placement} (h : w.execute (f.layOut dest) = (.ok (), w')) :
    ∃ l t, w' = w.withFiles t ∧ t.locate w.current (f.path dest) = .ok l ∧
      Course (f.layOut dest) w () [] [(l, f.content)] t := by
  obtain ⟨_, w₁, made, written⟩ := World.execute_bind_eq_ok h
  obtain ⟨t₁, rfl, first⟩ := World.course_makeDirectories made
  obtain ⟨l, t, rfl, puts, second⟩ := World.course_write written
  exact ⟨l, t, rfl, puts.grows.locate puts.locate, first.andThen second⟩

/-- Laying files out takes its course. -/
theorem layOutAll {files : List Placement}
    (h : w.execute (files.forM fun f => f.layOut dest) = (.ok (), w')) :
    ∃ puts t, w' = w.withFiles t ∧
      (∀ l ∈ puts.map Prod.fst, Placement.IsPlaced files dest t w.current l) ∧
      Course (files.forM fun f => f.layOut dest) w () [] puts t := by
  induction files generalizing w with
  | nil =>
    obtain rfl : w = w' := congrArg Prod.snd h
    exact ⟨[], w.files, rfl, nofun, .pure w ()⟩
  | cons f files ih =>
    obtain ⟨_, w₁, first, rest⟩ := World.execute_bind_eq_ok h
    obtain ⟨l, t₁, rfl, place, first⟩ := layOut first
    obtain ⟨puts, t, rfl, placed, rest⟩ := ih rest
    refine ⟨(l, f.content) :: puts, t, rfl, fun l' there => ?_, first.andThen rest⟩
    obtain rfl | there := List.mem_cons.1 there
    · exact ⟨f, List.mem_cons_self, rest.grows.locate place⟩
    · obtain ⟨f', there, place'⟩ := placed l' there
      exact ⟨f', List.mem_cons_of_mem f there, place'⟩

/-- A call that ends well takes its course. -/
theorem call {c : Checkout (StateM World)} {does : Request → Except Failure (List Placement)}
    (lays : c.LaysOut does) {call : Request} (h : w.execute (c.handle call) = (.ok (), w')) :
    ∃ files puts t, does call = .ok files ∧ w' = w.withFiles t ∧
      (∀ l ∈ puts.map Prod.fst, Placement.IsPlaced files call.dest t w.current l) ∧
      Course (c.handle call) w () [] puts t := by
  rw [lays call] at h ⊢
  cases done : does call with
  | error e =>
    rw [done] at h
    obtain ⟨_, _, ⟨⟩, -⟩ := World.execute_bind_eq_ok h
  | ok files =>
    rw [done] at h
    obtain ⟨_, _, ⟨⟩, rest⟩ := World.execute_bind_eq_ok h
    obtain ⟨_, w₁, made, rest⟩ := World.execute_bind_eq_ok rest
    obtain ⟨t₁, rfl, first⟩ := World.course_makeDirectories made
    obtain ⟨puts, t, rfl, placed, second⟩ := layOutAll rest
    exact ⟨files, puts, t, rfl, rfl, placed, first.andThen second⟩

/-- Patching a file takes its course, if the result goes elsewhere. -/
theorem patchFile {source : Path} {diff : String} {dest : Path}
    (h : w.execute (Diff.patchFile source diff dest) = (.ok (), w'))
    (apart : ∀ l l', w.files.locate w.current source = .ok l →
      w.files.locate w.current dest = .ok l' → l ≠ l') :
    ∃ l l' content t, w' = w.withFiles t ∧ w.files.locate w.current source = .ok l ∧
      w.files.locate w.current dest = .ok l' ∧
      Course (Diff.patchFile source diff dest) w () [l] [(l', content)] t := by
  unfold Diff.patchFile at h ⊢
  dsimp only at h ⊢
  cases parsed : Diff.FileDiff.parse (source.fileName?.getD "") diff with
  | error f =>
    rw [parsed] at h
    cases h
  | ok d =>
    rw [parsed] at h
    dsimp only at h ⊢
    obtain ⟨content, w₁, read, rest⟩ := World.execute_bind_eq_ok h
    -- Reading has left the world as it was, so both places are those of one tree.
    have same : w₁ = w := by
      rw [← readsOnly_readText source w, read]
    subst same
    obtain ⟨l, place, first⟩ := Course.readText (congrArg Prod.fst read)
    cases applied : d.apply content with
    | error f =>
      rw [applied] at rest
      cases rest
    | ok patched =>
      rw [applied] at rest
      obtain ⟨l', t, rfl, puts, second⟩ := World.course_write rest
      refine ⟨l, l', patched.toUTF8, t, rfl, place, puts.locate, ?_⟩
      refine first.bind_of_reads (by rw [applied]; exact second) fun l₁ there put => ?_
      obtain rfl := List.mem_singleton.1 there
      exact apart l₁ l' place puts.locate (List.mem_singleton.1 put)

end Course

/-! ## The deps file for git -/

namespace Release

/-- The release's deps file is an entry of its directory. -/
theorem isEntryName_depsName : Path.IsEntryName depsName := by
  decide

/-- What the diff is called in its directory. -/
def diffFileName : String := "DEPS_git.diff"

/-- The diff is an entry of its directory. -/
theorem isEntryName_diffFileName : Path.IsEntryName diffFileName := by
  decide

/-- The diff stands in the directory of tools. -/
theorem Places.diff_eq (ws : Workspace) (place : String) :
    (Places.of ws place).diff = (ws.overlay.child "tools").child diffFileName := by
  have tools : Path.IsEntryName "tools" := by decide
  exact (Path.child_child ws.overlay tools isEntryName_diffFileName).symm

/-- The names of the files that are read to make the deps file for git. -/
def sourceNames : List String :=
  [depsName, diffFileName, gitDepsName]

/-- The files that are read are entries of their directories. -/
theorem isEntryName_of_mem_sourceNames {name : String} (h : name ∈ sourceNames) :
    Path.IsEntryName name := by
  simp only [sourceNames, List.mem_cons, List.not_mem_nil, or_false] at h
  obtain rfl | rfl | rfl := h
  · exact isEntryName_depsName
  · exact isEntryName_diffFileName
  · exact isEntryName_gitDepsName

/-- No file that is read is the descriptor, which is written at the end. -/
theorem ne_descriptorName_of_mem_sourceNames {name : String} (h : name ∈ sourceNames) :
    name ≠ Workspace.descriptorName := by
  revert name
  decide

variable {c : Checkout (StateM World)} {does : Request → Except Failure (List Placement)}
  {ws : Workspace} {place version branch branch' : String} {w w' : World}

/-- A place where a call for the release lays out a file. -/
def IsFetched (c : Checkout (StateM World)) (does : Request → Except Failure (List Placement))
    (p : Places) (version : String) (w : World) (t : FileTree) (l : Location) : Prop :=
  ∃ calls call files, Calls c p version w calls ∧ call ∈ calls ∧ does call = .ok files ∧
    Placement.IsPlaced files call.dest t w.current l

/-- What has been laid out stays in its place. -/
theorem IsFetched.later {p : Places} {t t' : FileTree} {l : Location} {changed : List Location}
    (h : IsFetched c does p version w t l) (grows : t.Grows changed t') :
    IsFetched c does p version w t' l := by
  obtain ⟨calls, call, files, made, there, done, f, hf, place⟩ := h
  exact ⟨calls, call, files, made, there, done, f, hf, grows.locate place⟩

/-- What is done for a release once its branch is known. -/
def patchBranch (c : Checkout (StateM World)) (p : Places) (branch : String) : Session String := do
  c.handle (branchRequest p branch)
  let diff ← Host.readText p.diff
  Diff.patchFile p.branchGitDeps diff p.gitDeps
  return branch

/-- What is done for a branch takes its course. The diff and the branch's own file are read, unless
they are among the branch's files, and they are not in the place of the file that is made. -/
theorem course_patchBranch (lays : c.LaysOut does)
    (h : w.execute (patchBranch c (.of ws place) branch) = (.ok branch', w')) :
    ∃ files reads puts t, does (branchRequest (.of ws place) branch) = .ok files ∧
      w' = w.withFiles t ∧
      (∀ l ∈ reads, ∃ p, ∃ name ∈ sourceNames, t.locate w.current (Path.child p name) = .ok l) ∧
      (∀ l ∈ puts.map Prod.fst, t.locate w.current (Places.of ws place).gitDeps = .ok l ∨
        Placement.IsPlaced files (Places.of ws place).branchCheckout t w.current l) ∧
      Course (patchBranch c (.of ws place) branch) w branch' reads puts t := by
  obtain ⟨⟨⟩, w₁, fetched, h⟩ := World.execute_bind_eq_ok h
  obtain ⟨files, puts, t₁, done, rfl, placed, first⟩ := Course.call lays fetched
  obtain ⟨text, w₂, read, h⟩ := World.execute_bind_eq_ok h
  obtain rfl : _ = w₂ := (readsOnly_readText _ _).symm.trans (congrArg Prod.snd read)
  obtain ⟨diff, hdiff, second⟩ := Course.readText (congrArg Prod.fst read)
  obtain ⟨⟨⟩, w₃, patched, h⟩ := World.execute_bind_eq_ok h
  obtain ⟨original, gitDeps, content, t, rfl, horiginal, hgitDeps, third⟩ :=
    Course.patchFile patched fun l l' hl hl' => Places.locate_branchGitDeps_ne hl' hl
  obtain ⟨⟨⟩, ⟨⟩⟩ := Prod.mk.inj h
  -- The branch's file is in a directory of its own, and the diff has a name of its own.
  rw [Places.diff_eq] at hdiff
  have diff_ne : diff ≠ gitDeps :=
    FileTree.locate_ne_of_name_ne isEntryName_gitDepsName isEntryName_diffFileName (by decide)
      hgitDeps hdiff
  have patching : Course _ ((w.withFiles t₁)) branch [original] [(gitDeps, content)] t :=
    third.bind (f := fun _ => pure branch) (.pure _ branch) fun _ _ => nofun
  have reading := second.bind_of_reads
    (f := fun diff => do
      Diff.patchFile (Places.of ws place).branchGitDeps diff (Places.of ws place).gitDeps
      return branch) patching fun l there put =>
    diff_ne ((List.mem_singleton.1 there).symm.trans (List.mem_singleton.1 put))
  refine ⟨files, _, _, t, done, rfl, ?_, ?_,
    first.bind_of_writes (f := fun _ => do
      let diff ← Host.readText (Places.of ws place).diff
      Diff.patchFile (Places.of ws place).branchGitDeps diff (Places.of ws place).gitDeps
      return branch) reading⟩
  · intro l there
    obtain rfl | there := List.mem_cons.1 (List.mem_filter.1 there).1
    · exact ⟨_, diffFileName, by decide, third.grows.locate hdiff⟩
    · obtain rfl := List.mem_singleton.1 there
      exact ⟨_, gitDepsName, by decide, third.grows.locate horiginal⟩
  · intro l there
    rw [List.map_append, List.mem_append] at there
    obtain there | there := there
    · obtain ⟨f, hf, place⟩ := placed l there
      exact .inr ⟨f, hf, third.grows.locate place⟩
    · obtain rfl := List.mem_singleton.1 there
      exact .inl (third.grows.locate hgitDeps)

/-- Making the deps file for git takes its course: what is brought for the branch and what is made
of it is not in the place of the release's own deps file. -/
theorem course_makeGitDeps (lays : c.LaysOut does)
    (h : w.execute (makeGitDeps c (.of ws place) version) = (.ok branch, w')) :
    ∃ reads puts t, w' = w.withFiles t ∧
      (∀ l ∈ reads, ∃ p, ∃ name ∈ sourceNames, t.locate w.current (Path.child p name) = .ok l) ∧
      (∀ l ∈ puts.map Prod.fst, t.locate w.current (Places.of ws place).gitDeps = .ok l ∨
        IsFetched c does (.of ws place) version w t l) ∧
      Course (makeGitDeps c (.of ws place) version) w branch reads puts t := by
  obtain ⟨⟨⟩, w₁, fetched, h⟩ := World.execute_bind_eq_ok h
  obtain ⟨files, puts, t₁, done, rfl, placed, first⟩ := Course.call lays fetched
  obtain ⟨branch', w₂, found, h⟩ := World.execute_bind_eq_ok h
  obtain rfl : w.withFiles t₁ = w₂ :=
    (readsOnly_branchOf _ version _).symm.trans (congrArg Prod.snd found)
  obtain ⟨deps, hdeps, second⟩ := Course.branchOf (congrArg Prod.fst found)
  have patched : (w.withFiles t₁).execute (patchBranch c (.of ws place) branch') =
      (.ok branch, w') := h
  obtain ⟨files', reads', puts', t, done', rfl, sources', placed', third⟩ :=
    course_patchBranch lays patched
  -- The file that is made has another name, and what is fetched for the branch is further below.
  have deps_apart : ∀ l ∈ [deps], l ∉ puts'.map Prod.fst := by
    intro l there put
    obtain rfl := List.mem_singleton.1 there
    have hdeps := third.grows.locate hdeps
    obtain hl | ⟨f, -, hf⟩ := placed' l put
    · exact FileTree.locate_ne_of_name_ne isEntryName_depsName isEntryName_gitDepsName (by decide)
        hdeps hl rfl
    · exact Places.locate_ne_of_branch isEntryName_depsName
        (fun n there => f.proper n (List.mem_append_left _ there)) f.isEntryName hdeps hf rfl
  have calls : Calls c (.of ws place) version w
      [request (.of ws place) version, branchRequest (.of ws place) branch'] := by
    refine .branch (congrArg Prod.fst fetched) ?_
    rw [show c.after w [request (.of ws place) version] = w.withFiles t₁ from
      congrArg Prod.snd fetched, found]
  refine ⟨_, _, t, rfl, ?_, ?_, first.bind_of_writes (f := fun _ => do
    let branch ← branchOf (Places.of ws place).deps version
    patchBranch c (.of ws place) branch) (second.bind_of_reads third deps_apart)⟩
  · intro l there
    obtain rfl | there := List.mem_cons.1 (List.mem_filter.1 there).1
    · exact ⟨_, depsName, by decide, third.grows.locate hdeps⟩
    · exact sources' l there
  · intro l there
    rw [List.map_append, List.mem_append] at there
    obtain there | there := there
    · obtain ⟨f, hf, place⟩ := placed l there
      exact .inr ⟨_, _, files, calls, List.mem_cons_self, done, f, hf, third.grows.locate place⟩
    · obtain hl | here := placed' l there
      · exact .inl hl
      · exact .inr ⟨_, _, files', calls, List.mem_cons_of_mem _ List.mem_cons_self, done', here⟩

end Release

/-! ## Runs -/

/-- Two paths lead to the same place. -/
def World.SamePlace (w : World) (p q : Path) : Prop :=
  ∃ l, w.files.locate w.current p = .ok l ∧ w.files.locate w.current q = .ok l

/-- The manifest is an entry of its directory. -/
theorem Workspace.isEntryName_manifestName : Path.IsEntryName Workspace.manifestName := by
  decide

namespace Generation

variable {o : Options} {ws : Workspace} {s : Settings} {checkout : Option (Checkout (StateM World))}
  {does : Request → Except Failure (List Placement)} {w w' : World}

/-- What is done for a release takes its course. -/
theorem course_prepareRelease {transport : Transport} {version : String} {branch : Option String}
    (lays : ∀ c, checkout = some c → c.LaysOut does)
    (h : w.execute (prepareRelease transport ws version checkout) = (.ok branch, w')) :
    ∃ reads puts t, w' = w.withFiles t ∧
      (∀ l ∈ reads, ∃ p, ∃ name ∈ Release.sourceNames,
        t.locate w.current (Path.child p name) = .ok l) ∧
      (∀ l ∈ puts.map Prod.fst, t.locate w.current (Release.Places.of ws version).gitDeps = .ok l ∨
        ∃ c, checkout = some c ∧ Release.IsFetched c does (.of ws version) version w t l) ∧
      Course (prepareRelease transport ws version checkout) w branch reads puts t := by
  cases transport with
  | subversion =>
    obtain ⟨⟨⟩, ⟨⟩⟩ := Prod.mk.inj h
    exact ⟨[], [], w.files, rfl, nofun, nofun, .pure w none⟩
  | git =>
    cases checkout with
    | none => obtain ⟨⟨⟩, -⟩ := Prod.mk.inj h
    | some c =>
      obtain ⟨b, w₁, made, h⟩ := World.execute_bind_eq_ok h
      obtain ⟨⟨⟩, ⟨⟩⟩ := Prod.mk.inj h
      obtain ⟨reads, puts, t, rfl, sources, placed, course⟩ :=
        Release.course_makeGitDeps (lays c rfl) made
      refine ⟨reads, puts, t, rfl, sources, fun l there => ?_, ?_⟩
      · exact (placed l there).imp_right fun fetched => ⟨c, rfl, fetched⟩
      · have both := course.bind (f := fun b => pure (some b)) (.pure _ (some b)) fun _ _ => nofun
        rwa [List.filter_nil, List.append_nil, List.append_nil] at both

/-- What is done once the descriptor is made. -/
def finish (dryRun : Bool) (g : Product) : Session Product := do
  unless dryRun do g.descriptor.write g.path
  return g

/-- Writing the descriptor, if it is to be written, takes its course. -/
theorem course_finish {dryRun : Bool} {g g' : Product}
    (h : w.execute (finish dryRun g) = (.ok g', w')) :
    ∃ puts t, g' = g ∧ w' = w.withFiles t ∧
      (∀ l ∈ puts.map Prod.fst, t.locate w.current g.path = .ok l) ∧
      Course (finish dryRun g) w g [] puts t := by
  cases dryRun with
  | true =>
    obtain ⟨⟨⟩, ⟨⟩⟩ := Prod.mk.inj h
    exact ⟨[], w.files, rfl, rfl, nofun, .pure w g⟩
  | false =>
    obtain ⟨⟨⟩, w₁, written, h⟩ := World.execute_bind_eq_ok h
    obtain ⟨l, t, rfl, puts, course⟩ := World.course_replace written
    obtain ⟨⟨⟩, ⟨⟩⟩ := Prod.mk.inj h
    refine ⟨[(l, g.descriptor.render.toUTF8)], t, rfl, rfl, fun l' there => ?_,
      course.andThen (.pure _ g)⟩
    obtain rfl := List.mem_singleton.1 there
    exact puts.grows.locate puts.locate

/-- Nothing that a run writes is in the place of its manifest `m`: neither the descriptor nor the
deps file for git nor a file of the checkout, as paths lead in the world `final` that it leaves. -/
structure SparesManifest (o : Options) (ws : Workspace)
    (checkout : Option (Checkout (StateM World)))
    (does : Request → Except Failure (List Placement)) (w : World) (m : Manifest) (final : World) :
    Prop where
  descriptor : ¬final.SamePlace (o.manifestIn ws) ws.descriptor
  gitDeps : ¬final.SamePlace (o.manifestIn ws) (Release.Places.of ws m.version).gitDeps
  fetched {c : Checkout (StateM World)} {l : Location} (given : checkout = some c)
    (fetched : Release.IsFetched c does (.of ws m.version) m.version w final.files l) :
    final.files.locate final.current (o.manifestIn ws) ≠ .ok l

/-- What a run makes of a manifest and a branch. -/
def productOf (o : Options) (ws : Workspace) (s : Settings) (m : Manifest)
    (branch : Option String) : Product where
  path := ws.descriptor
  descriptor :=
    .ofManifest m (IgnorePolicy.paths s.ignoreOverride) (s.transport o.wantsGit) (o.extras s)
  branch := branch

/-- The steps of a run. -/
theorem run_eq : run o ws s checkout = (do
    let m ← Manifest.ofFile (o.manifestIn ws)
    let branch ← prepareRelease (s.transport o.wantsGit) ws m.version checkout
    finish o.dryRun (productOf o ws s m branch)) := rfl

/-- A run takes its course, if it writes nothing in the place of its manifest. -/
theorem course_run {g : Product} {final : World}
    (lays : ∀ c, checkout = some c → c.LaysOut does)
    (spares : ∀ m, (w.execute (Manifest.ofFile (o.manifestIn ws))).1 = .ok m →
      SparesManifest o ws checkout does w m final)
    (h : w.execute (run o ws s checkout) = (.ok g, final)) :
    ∃ reads puts t, final = w.withFiles t ∧ Course (run o ws s checkout) w g reads puts t := by
  rw [run_eq] at h ⊢
  obtain ⟨m, w₁, read, h⟩ := World.execute_bind_eq_ok h
  obtain rfl : w = w₁ := (readsOnly_ofFile _ w).symm.trans (congrArg Prod.snd read)
  obtain ⟨manifest, hmanifest, first⟩ := Course.ofFile (congrArg Prod.fst read)
  obtain ⟨branch, w₂, prepared, h⟩ := World.execute_bind_eq_ok h
  obtain ⟨reads, puts, t₁, rfl, sources, placed, second⟩ := course_prepareRelease lays prepared
  obtain ⟨puts', t, rfl, rfl, placed', third⟩ := course_finish h
  have spares := spares m (congrArg Prod.fst read)
  -- Trees only grow, so the places of the files can be compared in the last one.
  have hmanifest := (second.grows.trans third.grows).locate hmanifest
  have descriptor_apart : ∀ l ∈ reads, l ∉ puts'.map Prod.fst := by
    intro l there put
    obtain ⟨p, name, hname, hl⟩ := sources l there
    exact FileTree.locate_ne_of_name_ne Workspace.isEntryName_descriptorName
      (Release.isEntryName_of_mem_sourceNames hname)
      (Release.ne_descriptorName_of_mem_sourceNames hname) (placed' l put)
      (third.grows.locate hl) rfl
  have manifest_apart : ∀ l ∈ [manifest], l ∉ (puts ++ puts').map Prod.fst := by
    intro l there put
    obtain rfl := List.mem_singleton.1 there
    rw [List.map_append, List.mem_append] at put
    obtain put | put := put
    · obtain here | ⟨c, given, fetched⟩ := placed l put
      · exact spares.gitDeps ⟨l, hmanifest, third.grows.locate here⟩
      · exact spares.fetched given (fetched.later third.grows) hmanifest
    · exact spares.descriptor ⟨l, hmanifest, placed' l put⟩
  have both := second.bind
    (f := fun branch => finish o.dryRun (productOf o ws s m branch)) third descriptor_apart
  exact ⟨_, _, t, rfl, first.bind_of_reads both manifest_apart⟩

/-- A run that has succeeded succeeds again with the same result, and changes nothing. -/
theorem run_repeats {g : Product} {final : World}
    (h : w.execute (run o ws s checkout) = (.ok g, final))
    (lays : ∀ c, checkout = some c → c.LaysOut does)
    (spares : ∀ m, (w.execute (Manifest.ofFile (o.manifestIn ws))).1 = .ok m →
      SparesManifest o ws checkout does w m final) :
    final.execute (run o ws s checkout) = (.ok g, final) := by
  obtain ⟨reads, puts, t, rfl, course⟩ := course_run lays spares h
  exact course.repeats

/-! ## A checkout for the small world -/

/-- What is laid out in the small world. The release refers to another branch than the one that is
there before. -/
def smallFiles : Request → List Placement
  | .tree .. => [
    ⟨[], "DEPS", "/branches/chromium/8@".toUTF8, by decide⟩,
    ⟨["build", "linux"], "all.gyp", .empty, by decide⟩]
  | .files .. => [⟨[], ".DEPS.git", "a\n".toUTF8, by decide⟩]

/-- No manifest is laid out. -/
theorem ne_manifestName_of_mem_smallFiles {call : Request} {f : Placement}
    (h : f ∈ smallFiles call) : Workspace.manifestName ≠ f.name := by
  cases call with
  | tree =>
    obtain rfl | h := List.mem_cons.1 h
    · decide
    · obtain rfl := List.mem_singleton.1 h
      decide
  | files =>
    obtain rfl := List.mem_singleton.1 h
    decide

/-- The checkout that lays these files out. -/
def layingCheckout : Checkout (StateM World) where
  tool := "svn"
  handle call := do
    let files ← MonadExcept.ofExcept (.ok (smallFiles call))
    Host.attempt (Host.makeDirectories call.dest)
    files.forM fun f => f.layOut call.dest

/-- The run of the small world with this checkout. -/
def layingRun : Session Product :=
  run smallOptions smallWorkspace (.ofLookup fun _ => none) (some layingCheckout)

/-- The run finds the branch of the release that it has laid out. -/
theorem branch_layingRun :
    (smallWorld.execute layingRun).1.toOption.map Product.branch = some (some "8") := by
  unfold layingRun run
  dsimp only
  rw [World.execute_bind_of_readsOnly (readsOnly_ofFile _), execute_ofFile_smallWorld]
  dsimp only
  decide +kernel

/-- The run succeeds twice with the same result, and the second one changes nothing. -/
theorem run_repeats_small : ∃ g final, g.branch = some "8" ∧
    smallWorld.execute layingRun = (.ok g, final) ∧ final.execute layingRun = (.ok g, final) := by
  obtain ⟨g, hg, branch⟩ := Option.map_eq_some_iff.1 branch_layingRun
  have first : smallWorld.execute layingRun = (.ok g, _) :=
    Prod.ext (Outcome.eq_ok_of_toOption hg) rfl
  have elsewhere {t : FileTree} {current l l' : Location} {p : Path} {name : String}
      (hname : Path.IsEntryName name) (ne : Workspace.manifestName ≠ name)
      (h : t.locate current (p.child name) = .ok l)
      (h' : t.locate current smallWorkspace.manifest = .ok l') : l' ≠ l :=
    FileTree.locate_ne_of_name_ne hname Workspace.isEntryName_manifestName ne h h'
  have lays (c : Checkout (StateM World)) (given : some layingCheckout = some c) :
      c.LaysOut fun call => .ok (smallFiles call) :=
    Option.some.inj given ▸ fun _ => rfl
  refine ⟨g, _, branch, first, run_repeats first lays fun m _ => ⟨?_, ?_, ?_⟩⟩
  · rintro ⟨l, hl, hl'⟩
    exact elsewhere Workspace.isEntryName_descriptorName (by decide) hl' hl rfl
  · rintro ⟨l, hl, hl'⟩
    exact elsewhere Release.isEntryName_gitDepsName (by decide) hl' hl rfl
  · rintro c l - ⟨calls, call, files, -, -, ⟨⟩, f, hf, place⟩ hl
    exact elsewhere f.isEntryName (ne_manifestName_of_mem_smallFiles hf) place hl rfl

end Generation

end OverlaySync
