import OverlaySync.CommandLine.Run
import OverlaySync.Proofs.CommandLine.Switches
import OverlaySync.Proofs.Descriptor.Text
import OverlaySync.Proofs.Generation.Repetition
import OverlaySync.Proofs.Release.WorkingCopies

/-! # Dry runs

A dry run does all that is done before the descriptor is written. So it fails as the run fails that
writes it, or says what this one says, and prints the text that is put into the file
(`Chronicle.invoke_agrees`).

It writes nothing in the descriptor's place, but it is not without effect: in git mode the release
is fetched, and where it is to be fetched into the descriptor's place, a directory is made there
(`Chronicle.descriptor_disturbed`). -/

namespace OverlaySync

open Unicode (isBlank trimEnd)

/-! ## What is printed -/

/-- A text or a list is written with something solid at its end, and then the line ends. -/
theorem Deps.exists_renderAssignment (name : String) {v : Deps.Value}
    (closed : (∃ s, v = .str s) ∨ ∃ vs, v = .list vs) :
    ∃ front c, (Deps.renderAssignment name v).toList = front ++ [c, '\n'] ∧ isBlank c = false := by
  have layout : ∃ front c, v.layout 0 = front ++ [c] ∧ isBlank c = false := by
    obtain ⟨s, rfl⟩ | ⟨vs, rfl⟩ := closed
    · exact ⟨'\'' :: s.toList.flatMap Deps.escape, '\'', by rfl, by decide⟩
    · rw [Deps.Value.layout]
      split
      · exact ⟨'[' :: Deps.Value.inlineItems vs, ']', by rfl, by decide⟩
      · refine ⟨'[' :: '\n' :: (Deps.Value.layoutItems 1 vs ++ Deps.indent 0), ']', ?_, by decide⟩
        simp
  obtain ⟨front, c, layout, solid⟩ := layout
  refine ⟨name.toList ++ ' ' :: '=' :: ' ' :: front, c, ?_, solid⟩
  rw [Deps.renderAssignment, String.toList_ofList, layout]
  simp

namespace Descriptor

/-- The last binding ends the text of a descriptor. -/
theorem exists_render (d : Descriptor) :
    ∃ front c, d.render.toList = front ++ [c, '\n'] ∧ isBlank c = false := by
  obtain ⟨bs, x, v, whole, closed⟩ : ∃ bs x v, d.pairs = bs ++ [(x, v)] ∧
      ((∃ s, v = .str s) ∨ ∃ vs, v = .list vs) := by
    unfold pairs
    cases d.cacheDir with
    | some dir => exact ⟨_, _, _, rfl, .inl ⟨_, rfl⟩⟩
    | none =>
      cases d.targetOs with
      | some systems => exact ⟨[_], _, _, rfl, .inr ⟨_, rfl⟩⟩
      | none => exact ⟨[], _, _, rfl, .inr ⟨_, rfl⟩⟩
  obtain ⟨front, c, text, solid⟩ := Deps.exists_renderAssignment x closed
  rw [toList_render, whole, Deps.assignments, List.flatMap_append, List.flatMap_singleton, text]
  exact ⟨_, c, (List.append_assoc ..).symm, solid⟩

/-- Trimming takes nothing but the end of the last line away. -/
theorem trimEnd_render (d : Descriptor) :
    String.ofList (trimEnd d.render.toList) ++ "\n" = d.render := by
  obtain ⟨front, c, text, solid⟩ := d.exists_render
  have newline : isBlank '\n' = true := by decide
  rw [← String.toList_inj, text]
  simp [trimEnd, newline, solid]

end Descriptor

namespace CommandLine

/-- The line that says where the descriptor is placed, or would be. -/
def statusLine (style : OutputStyle) (verb : String) (p : Path) : String :=
  s!"{style.doneMark} {verb} {style.bold p.text} with solutions:\n"

/-- What is printed before this line. -/
def patchedLine (style : OutputStyle) : Option String → String
  | some branch =>
    s!"{style.doneMark} Patched {Release.gitDepsName} from chromium branch {branch}\n"
  | none => ""

/-- The line that says where no descriptor could be made. -/
def failedLine (style : OutputStyle) (p : Path) : String :=
  s!"{style.failedMark} Failed to generate {p.text}\n"

/-- A report ends with the descriptor as it is rendered: the newline that is trimmed off is put
back. A dry run differs in the verb alone. -/
theorem report_eq (style : OutputStyle) (dryRun : Bool) (made : Generation.Product) :
    report style dryRun made = patchedLine style made.branch ++
      statusLine style (if dryRun then "Would place" else "Place") made.path ++
      made.descriptor.render := by
  rw [← made.descriptor.trimEnd_render]
  unfold report patchedLine statusLine
  simp only [String.append_assoc]
  rfl

/-- The workspace of a run, if its overlay project is there. -/
def Understood.workspaceIn (u : Understood) (w : World) : Except Refusal Workspace :=
  (w.files.resolve w.current u.overlay).map fun l => .ofOverlay l.path

end CommandLine

/-! ## The descriptor's place -/

/-- The descriptor's place is directly below that of the workspace's root. -/
theorem Workspace.place_descriptor (ws : Workspace) (current : Location) :
    ws.descriptor.place current = ws.root.place current ++ [descriptorName] :=
  Path.place_child _ isEntryName_descriptorName current

namespace Release

variable {ws : Workspace} {version : String}

/-- The deps file for git has another name than the descriptor. -/
theorem Places.place_gitDeps_ne (ws : Workspace) (version : String) (current : Location) :
    (Places.of ws version).gitDeps.place current ≠ ws.descriptor.place current := by
  intro same
  have hgitDeps : (Places.of ws version).gitDeps.place current =
      (Places.of ws version).checkout.place current ++ [gitDepsName] :=
    Path.place_child _ isEntryName_gitDepsName current
  rw [hgitDeps, ws.place_descriptor] at same
  have names := (List.append_inj' same rfl).2
  revert names
  decide

/-- No directory above the checkouts is in the descriptor's place, unless steps lead upwards or the
release is to be checked out there, or below. -/
theorem Places.place_ne_descriptor (current : Location)
    (direct : ".." ∉ (Places.of ws version).checkout.steps)
    (beside : ¬ws.descriptor.place current <+: (Places.of ws version).checkout.place current) :
    ∀ q ∈ (Places.of ws version).checkout.ancestors ++
        (Places.of ws version).branchCheckout.ancestors,
      q.place current ≠ ws.descriptor.place current := by
  intro q above same
  have below := place_of_above current direct q above
  rw [same, place_branchCheckout, List.prefix_concat_iff] at below
  obtain whole | below := below
  · rw [ws.place_descriptor] at whole
    have names := (List.append_inj' whole rfl).2
    revert names
    decide
  · exact beside below

end Release

/-! ## The course of a run -/

namespace Generation

variable {m : Type → Type} [Monad m] [Host m]

/-- What is made before the descriptor is written. Whether it is written makes no difference. -/
def make (o : Options) (ws : Workspace) (s : Settings) (checkout : Option (Checkout m)) :
    ExceptT Failure m Product := do
  let manifest ← Manifest.ofFile (o.manifestIn ws)
  let branch ← prepareRelease (s.transport o.wantsGit) ws manifest.version checkout
  return productOf o ws s manifest branch

end Generation

namespace Chronicle

open CommandLine Generation

variable {c start : Chronicle} {o : Options} {ws : Workspace} {s : Settings}

/-- First everything is made, and then it is written. -/
theorem execute_run (c : Chronicle) (o : Options) (ws : Workspace) (s : Settings)
    (checkout : Option (Checkout (StateM Chronicle))) :
    c.execute (Generation.run o ws s checkout) =
      match c.execute (make o ws s checkout) with
      | (.ok made, c') =>
        if o.dryRun then (.ok made, c')
        else match c'.execute (made.descriptor.write ws.descriptor) with
          | (.ok (), c'') => (.ok made, c'')
          | (.error e, c'') => (.error e, c'')
      | (.error e, c') => (.error e, c') := by
  unfold Generation.run make
  dsimp only
  rw [execute_bind, execute_bind]
  rcases c.execute (Manifest.ofFile (o.manifestIn ws)) with ⟨_ | manifest, c₁⟩
  · rfl
  dsimp only
  rw [execute_bind, execute_bind]
  rcases c₁.execute (prepareRelease (s.transport o.wantsGit) ws manifest.version checkout) with
    ⟨_ | branch, c₂⟩
  · rfl
  dsimp only
  rw [execute_pure]
  -- What is made is the same either way; only whether it is written depends on the option.
  change c₂.execute (do
    unless o.dryRun do (productOf o ws s manifest branch).descriptor.write ws.descriptor
    return productOf o ws s manifest branch) = _
  generalize productOf o ws s manifest branch = made
  dsimp only
  cases o.dryRun with
  | true => rfl
  | false =>
    rw [if_neg Bool.false_ne_true, execute_bind]
    rcases c₂.execute (made.descriptor.write ws.descriptor) with ⟨_ | _, c₃⟩ <;> rfl

/-- What is made belongs in the workspace. -/
theorem path_of_make {checkout : Option (Checkout (StateM Chronicle))} {made : Product}
    {c' : Chronicle} (h : c.execute (make o ws s checkout) = (.ok made, c')) :
    made.path = ws.descriptor := by
  unfold make at h
  rw [execute_bind] at h
  split at h
  · rw [execute_bind] at h
    split at h
    · cases h
      rfl
    · cases h
  · cases h

/-- What a run of the program comes to, and the chronicle that it leaves. -/
def invoke (c : Chronicle) (arguments : List String) (env : Environment) : Outcome × Chronicle :=
  c.act (CommandLine.run arguments env)

/-- The course of a run that makes a descriptor. -/
theorem act_generate (c : Chronicle) (style : OutputStyle) (s : Settings) (overlay : Path)
    (o : Options) :
    c.act (generate style s overlay o) =
      match c.world.files.resolve c.world.current overlay with
      | .error e =>
        (.failure "" s!"Cannot use {overlay.text} as the xwalk directory" (some e.message), c)
      | .ok l =>
        match c.execute (checkoutFor (s.transport o.wantsGit)) with
        | (.error e, c') => (.ofFailure "" e, c')
        | (.ok checkout, c') =>
          match c'.execute (Generation.run o (.ofOverlay l.path) s checkout) with
          | (.error e, c'') =>
            (.ofFailure (failedLine style (Workspace.ofOverlay l.path).descriptor) e, c'')
          | (.ok made, c'') => (.success (report style o.dryRun made), c'') := by
  have found : c.act (Host.realPath overlay) =
    ((c.world.files.resolve c.world.current overlay).map Location.path, c) := rfl
  unfold generate onOverlay
  rw [act_bind, found]
  rcases c.world.files.resolve c.world.current overlay with e | l
  · rfl
  dsimp only [Except.map]
  rw [act_bind, act_run]
  rcases c.execute (checkoutFor (s.transport o.wantsGit)) with ⟨_ | checkout, c'⟩
  · rfl
  dsimp only
  rw [act_bind, act_run]
  rcases c'.execute (Generation.run o (.ofOverlay l.path) s checkout) with ⟨_ | made, c''⟩ <;> rfl

/-- The options of a dry run. -/
def dryOptions (o : Options) : Options :=
  { o with dryRun := true }

/-- A dry run ends when everything is made. -/
theorem act_generate_dry (c : Chronicle) (style : OutputStyle) (s : Settings) (overlay : Path)
    (o : Options) :
    c.act (generate style s overlay (dryOptions o)) =
      match c.world.files.resolve c.world.current overlay with
      | .error e =>
        (.failure "" s!"Cannot use {overlay.text} as the xwalk directory" (some e.message), c)
      | .ok l =>
        match c.execute (checkoutFor (s.transport o.wantsGit)) with
        | (.error e, c') => (.ofFailure "" e, c')
        | (.ok checkout, c') =>
          match c'.execute (make o (.ofOverlay l.path) s checkout) with
          | (.error e, c'') =>
            (.ofFailure (failedLine style (Workspace.ofOverlay l.path).descriptor) e, c'')
          | (.ok made, c'') => (.success (report style true made), c'') := by
  rw [act_generate]
  rcases c.world.files.resolve c.world.current overlay with e | l
  · rfl
  have transport : s.transport (dryOptions o).wantsGit = s.transport o.wantsGit := rfl
  rw [transport]
  dsimp only
  rcases c.execute (checkoutFor (s.transport o.wantsGit)) with ⟨_ | checkout, c'⟩
  · rfl
  have same : make (dryOptions o) (.ofOverlay l.path) s checkout =
    make o (.ofOverlay l.path) s checkout := rfl
  dsimp only
  rw [execute_run, same]
  rcases c'.execute (make o (.ofOverlay l.path) s checkout) with ⟨_ | made, c''⟩ <;> rfl

/-! ## Both runs -/

/-- The run `real` does what the dry run `dry` does and prints the same, but for the words in which
it says so. Behind this line both print a text, and `real` writes it to the descriptor's place. -/
structure Agree (style : OutputStyle) (ws : Workspace) (branch : Option String) (text : String)
    (real dry : Outcome × Chronicle) : Prop where
  prints : real.1 =
    .success (patchedLine style branch ++ statusLine style "Place" ws.descriptor ++ text)
  printsDry : dry.1 =
    .success (patchedLine style branch ++ statusLine style "Would place" ws.descriptor ++ text)
  written : real.2.world.files.read real.2.world.current ws.descriptor = .ok text.toUTF8
  commands : real.2.ended = dry.2.ended
  others : ∃ l files,
    dry.2.world.files.Puts dry.2.world.current ws.descriptor text.toUTF8 l files ∧
      real.2 = { dry.2 with world := dry.2.world.withFiles files }

/-- Both runs fail in the same way, or only writing can fail. -/
theorem act_generate_cases (c : Chronicle) (style : OutputStyle) (s : Settings) (overlay : Path)
    (real : o.dryRun = false) :
    ((c.act (generate style s overlay (dryOptions o))).1.status = 1 ∧
      c.act (generate style s overlay o) = c.act (generate style s overlay (dryOptions o))) ∨
    (c.act (generate style s overlay (dryOptions o))).1.status = 0 ∧
      ((c.act (generate style s overlay o)).1.status = 1 ∨
        ∃ l branch text, c.world.files.resolve c.world.current overlay = .ok l ∧
          Agree style (.ofOverlay l.path) branch text (c.act (generate style s overlay o))
            (c.act (generate style s overlay (dryOptions o)))) := by
  rw [act_generate_dry, act_generate]
  rcases c.world.files.resolve c.world.current overlay with e | l
  · exact .inl ⟨rfl, rfl⟩
  dsimp only
  rcases c.execute (checkoutFor (s.transport o.wantsGit)) with ⟨_ | checkout, c'⟩
  · exact .inl ⟨rfl, rfl⟩
  dsimp only
  rw [execute_run, real]
  rcases made : c'.execute (make o (.ofOverlay l.path) s checkout) with ⟨_ | product, c''⟩
  · exact .inl ⟨rfl, rfl⟩
  -- From here on the dry run has succeeded, and only writing can make a difference.
  refine .inr ⟨rfl, ?_⟩
  have path := path_of_make made
  dsimp only
  rw [if_neg Bool.false_ne_true]
  obtain ⟨e, hwrite⟩ | ⟨place, files, puts, hwrite⟩ :=
    c''.execute_writeDescriptor product.descriptor (Workspace.ofOverlay l.path).descriptor
  · rw [hwrite]
    exact .inl rfl
  · rw [hwrite]
    refine .inr ⟨l, product.branch, product.descriptor.render, rfl, ?_, ?_, ?_, rfl, ?_⟩
    · dsimp only
      rw [report_eq, path]
      rfl
    · dsimp only
      rw [report_eq, path]
      rfl
    · change files.read c''.world.current _ = _
      rw [FileTree.read, puts.find_self]
      rfl
    · exact ⟨place, files, puts, rfl⟩

/-! ## What a dry run leaves alone -/

/-- Nothing but the program itself would bring something into the descriptor's place: the client
leaves alone what is there, and where there is nothing, no directory has to be made above the
checkouts of the release. -/
structure Undisturbed (o : Options) (ws : Workspace) (w : World) : Prop where
  client {runs : List ToolRun} {r : ToolRun} {files : FileTree} (svn : r.tool = Subversion.tool) :
    (w.respond runs r files).files.lookup (ws.descriptor.place w.current) =
      files.lookup (ws.descriptor.place w.current)
  directories (free : w.files.lookup (ws.descriptor.place w.current) = none) {m : Manifest}
    (manifest : (w.execute (Manifest.ofFile (o.manifestIn ws))).1 = .ok m) :
    ∀ q ∈ (Release.Places.of ws m.version).checkout.ancestors ++
        (Release.Places.of ws m.version).branchCheckout.ancestors,
      q.place w.current ≠ ws.descriptor.place w.current

/-- The descriptor's place is as it was in the world `w`, and so is how the tools behave. -/
structure Holds (w : World) (ws : Workspace) (c : Chronicle) : Prop where
  respond : c.world.respond = w.respond
  current : c.world.current = w.current
  lookup : c.world.files.lookup (ws.descriptor.place w.current) =
    w.files.lookup (ws.descriptor.place w.current)

namespace Holds

variable {w : World}

/-- A change of the files elsewhere is allowed. -/
theorem withFiles (h : Holds w ws c) {files : FileTree}
    (same : files.lookup (ws.descriptor.place w.current) =
      c.world.files.lookup (ws.descriptor.place w.current)) :
    Holds w ws { c with world := c.world.withFiles files } :=
  ⟨h.respond, h.current, same.trans h.lookup⟩

/-- A command of the client does not come near the descriptor's place. -/
theorem run (h : Holds w ws c) (undisturbed : Undisturbed o ws w) {command : Command}
    (svn : command.tool = Subversion.tool) : Holds w ws (c.run command).2 := by
  refine ⟨(respond_run c command).trans h.respond, (current_run c command).trans h.current, ?_⟩
  obtain ⟨-, same⟩ | ⟨r, htool, -, -, -, left⟩ := c.run_cases command
  · rw [same, h.lookup]
  · rw [left, ← h.lookup, h.respond]
    exact undisturbed.client (htool.trans svn)

/-- A directory is made in the descriptor's place only if there was nothing. -/
theorem keeps_makeParent {dest : Path}
    (apart : w.files.lookup (ws.descriptor.place w.current) = none →
      ∀ q ∈ dest.ancestors, q.place w.current ≠ ws.descriptor.place w.current) :
    Keeps (Holds w ws) (Checkout.makeParent dest) := by
  refine .makeParent fun parent hparent c h => h.withFiles ?_
  have grows := c.world.files.grows_makeDirectories c.world.current parent
  match there : c.world.files.lookup (ws.descriptor.place w.current) with
  | some .directory => exact grows.directory there
  | some (.file content) => exact grows.same there List.not_mem_nil
  | none =>
    rw [c.world.files.lookup_makeDirectories_parent hparent, there]
    rw [h.current]
    exact apart (h.lookup.symm.trans there)

/-- A file that is written elsewhere makes no difference. -/
theorem keeps_writeText {dest : Path} (text : String)
    (ne : dest.place w.current ≠ ws.descriptor.place w.current) :
    Keeps (Holds w ws) (Host.writeText dest text) := by
  refine .writeText fun c h l files puts => h.withFiles (puts.lookup_of_ne fun same => ne ?_)
  rw [same, ← h.current, FileTree.eq_place_of_locate puts.locate]

/-- A request leaves the descriptor's place alone: its directories are made elsewhere, and what it
runs is the client. -/
theorem keeps_handle (undisturbed : Undisturbed o ws w) {call : Request}
    (apart : w.files.lookup (ws.descriptor.place w.current) = none →
      ∀ q ∈ call.dest.ancestors, q.place w.current ≠ ws.descriptor.place w.current) :
    Keeps (Holds w ws) (Subversion.checkout.handle call) := by
  refine .bind (.ask fun _ h => h) fun isWorkingCopy => ?_
  have svn : ∀ command ∈ (Subversion.plan isWorkingCopy call).commands,
      command.tool = Subversion.tool := by
    cases call <;> cases isWorkingCopy <;> simp [Subversion.plan, Subversion.command]
  exact .carryOut (keeps_makeParent apart) fun command there c h =>
    h.run undisturbed (svn command there)

/-- What is done for a release leaves the descriptor's place alone. -/
theorem keeps_prepareRelease (undisturbed : Undisturbed o ws w) {m : Manifest}
    (manifest : (w.execute (Manifest.ofFile (o.manifestIn ws))).1 = .ok m) :
    Keeps (Holds w ws) (prepareRelease .git ws m.version (some Subversion.checkout)) := by
  have apart := fun free => List.forall_mem_append.1 (undisturbed.directories free manifest)
  refine .bind ?_ fun branch => .pure (some branch)
  refine .bind (keeps_handle undisturbed fun free => (apart free).1) fun _ => ?_
  refine .bind (.branchOf _ _) fun branch => ?_
  refine .bind (keeps_handle undisturbed fun free => (apart free).2) fun _ => ?_
  refine .bind (.readText _) fun diff => ?_
  refine .bind (.patchFile _ _ fun text => ?_) fun _ => .pure branch
  exact keeps_writeText text (Release.Places.place_gitDeps_ne ws m.version w.current)

/-- What is made before the descriptor is written leaves its place alone. -/
theorem execute_make {checkout : Option (Checkout (StateM Chronicle))}
    (undisturbed : s.transport o.wantsGit = .git →
      checkout = some Subversion.checkout ∧ Undisturbed o ws c.world) :
    Holds c.world ws (c.execute (make o ws s checkout)).2 := by
  have start : Holds c.world ws c := ⟨rfl, rfl, rfl⟩
  unfold make
  -- Reading the manifest changes nothing, so it is the one of which the condition speaks.
  rw [execute_bind, execute_ofFile]
  cases manifest : (c.world.execute (Manifest.ofFile (o.manifestIn ws))).1 with
  | error e => exact start
  | ok m =>
    dsimp only
    refine Keeps.bind ?_ (fun branch => .pure _) c start
    cases git : s.transport o.wantsGit with
    | subversion => exact .pure none
    | git =>
      obtain ⟨rfl, clear⟩ := undisturbed git
      exact keeps_prepareRelease clear manifest

end Holds

/-- In git mode there has to be a client, and it is looked for without a change. -/
theorem execute_checkoutFor (c : Chronicle) (t : Transport) :
    (∃ e, c.execute (checkoutFor t) = (.error e, c)) ∨
      ∃ checkout, c.execute (checkoutFor t) = (.ok checkout, c) ∧
        (t = .git → checkout = some Subversion.checkout) := by
  cases t with
  | subversion => exact .inr ⟨none, rfl, nofun⟩
  | git =>
    have asked : c.execute (Host.ask (Host.isInstalled Subversion.tool)) =
        (.ok (c.world.tools.contains Subversion.tool), c) := rfl
    unfold checkoutFor Subversion.client
    dsimp only
    rw [execute_bind, execute_bind, asked]
    cases c.world.tools.contains Subversion.tool with
    | false => exact .inl ⟨_, rfl⟩
    | true => exact .inr ⟨_, rfl, fun _ => rfl⟩

/-- A dry run leaves the descriptor's place alone, unless it is disturbed. -/
theorem lookup_act_generate {l : Location} {style : OutputStyle} {overlay : Path}
    (found : c.world.files.resolve c.world.current overlay = .ok l)
    (undisturbed : s.transport o.wantsGit = .git → Undisturbed o (.ofOverlay l.path) c.world) :
    (c.act (generate style s overlay (dryOptions o))).2.world.files.lookup
        ((Workspace.ofOverlay l.path).descriptor.place c.world.current) =
      c.world.files.lookup ((Workspace.ofOverlay l.path).descriptor.place c.world.current) := by
  rw [act_generate_dry, found]
  dsimp only
  obtain ⟨e, client⟩ | ⟨checkout, client, svn⟩ := c.execute_checkoutFor (s.transport o.wantsGit)
  · rw [client]
  have made := Holds.execute_make fun git => ⟨svn git, undisturbed git⟩
  rw [client]
  dsimp only
  rcases hmade : c.execute (make o (.ofOverlay l.path) s checkout) with ⟨_ | product, c'⟩
  all_goals
    rw [hmade] at made
    exact made.lookup

/-! ## The command line -/

section

variable {arguments arguments' : List String} {u u' : Understood}

/-- A run that makes a descriptor. -/
theorem invoke_of_read (asked : read arguments = .ok u) (making : u.subcommand = .generate)
    (c : Chronicle) (env : Environment) :
    c.invoke arguments env = c.act (generate (u.style env) (.ofLookup env.lookup) u.overlay
      u.generationOptions) := by
  rw [invoke, CommandLine.run, asked]
  dsimp only
  rw [Understood.carryOut, making]

/-- The dry run of the same. -/
theorem invoke_of_previews (asked : read arguments' = .ok u') (previews : u'.Previews u)
    (making : u.subcommand = .generate) (c : Chronicle) (env : Environment) :
    c.invoke arguments' env = c.act (generate (u.style env) (.ofLookup env.lookup) u.overlay
      (dryOptions u.generationOptions)) := by
  have style : u'.style env = u.style env := by
    rw [Understood.style, previews.value, Understood.style]
  have overlay : u'.overlay = u.overlay := by
    rw [Understood.overlay, previews.value, Understood.overlay]
  have options : u'.generationOptions = dryOptions u.generationOptions := by
    rw [Understood.generationOptions, previews.value, previews.value, previews.isOn,
      previews.isOn]
    rfl
  rw [invoke_of_read asked (previews.subcommand.trans making), style, overlay, options]

variable {env : Environment}

/-- When the run succeeds, so does the dry run, and says the same. -/
theorem agree_of_succeeds (asked : read arguments = .ok u) (making : u.subcommand = .generate)
    (real : u.isOn .dryRun = false) (asked' : read arguments' = .ok u') (previews : u'.Previews u)
    (succeeds : (c.invoke arguments env).1.status = 0) :
    ∃ ws branch text, u.workspaceIn c.world = .ok ws ∧
      Agree (u.style env) ws branch text (c.invoke arguments env) (c.invoke arguments' env) := by
  rw [invoke_of_read asked making] at succeeds ⊢
  rw [invoke_of_previews asked' previews making]
  obtain ⟨fails, same⟩ | ⟨-, fails | ⟨l, branch, text, found, agree⟩⟩ :=
    c.act_generate_cases (u.style env) (.ofLookup env.lookup) u.overlay
      (o := u.generationOptions) real
  · rw [same, fails] at succeeds
    cases succeeds
  · rw [fails] at succeeds
    cases succeeds
  · exact ⟨_, branch, text, Outcome.map_eq_ok_iff.2 ⟨l, found, rfl⟩, agree⟩

/-- When the dry run fails, so does the run, in the same way. -/
theorem eq_of_dry_fails (asked : read arguments = .ok u) (making : u.subcommand = .generate)
    (real : u.isOn .dryRun = false) (asked' : read arguments' = .ok u') (previews : u'.Previews u)
    (fails : (c.invoke arguments' env).1.status = 1) :
    c.invoke arguments env = c.invoke arguments' env := by
  rw [invoke_of_previews asked' previews making] at fails ⊢
  rw [invoke_of_read asked making]
  obtain ⟨-, same⟩ | ⟨succeeds, -⟩ :=
    c.act_generate_cases (u.style env) (.ofLookup env.lookup) u.overlay
      (o := u.generationOptions) real
  · exact same
  · rw [succeeds] at fails
    cases fails

/-- A command line on which the descriptor is to be made becomes one for a dry run. When the one
succeeds, so does the other: both print the text that is written and carry out the same commands.
When the dry run fails, both fail in the same way. And a dry run leaves the descriptor's place as it
was, unless in git mode the client does something there, or it is in the way of the release's
checkout and there was nothing. -/
theorem invoke_agrees (c : Chronicle) (env : Environment) (asked : read arguments = .ok u)
    (making : u.subcommand = .generate) (real : u.isOn .dryRun = false) :
    (∃ front rest u', arguments = front ++ "generate" :: rest ∧
      read (front ++ "generate" :: "--dry-run" :: rest) = .ok u' ∧ u'.Previews u) ∧
    ∀ arguments' u', read arguments' = .ok u' → u'.Previews u →
      ((c.invoke arguments env).1.status = 0 →
        ∃ ws branch text, u.workspaceIn c.world = .ok ws ∧
          Agree (u.style env) ws branch text (c.invoke arguments env)
            (c.invoke arguments' env)) ∧
      ((c.invoke arguments' env).1.status = 1 →
        c.invoke arguments env = c.invoke arguments' env) ∧
      ∀ ws, u.workspaceIn c.world = .ok ws →
        ((Settings.ofLookup env.lookup).transport (u.isOn .wantsGit) = .git →
          Undisturbed u.generationOptions ws c.world) →
        (c.invoke arguments' env).2.world.files.lookup (ws.descriptor.place c.world.current) =
          c.world.files.lookup (ws.descriptor.place c.world.current) := by
  refine ⟨exists_dryRun asked making real, fun arguments' u' asked' previews => ⟨?_, ?_, ?_⟩⟩
  · exact agree_of_succeeds asked making real asked' previews
  · exact eq_of_dry_fails asked making real asked' previews
  · intro ws found undisturbed
    obtain ⟨l, resolved, rfl⟩ := Outcome.map_eq_ok_iff.1 found
    rw [invoke_of_previews asked' previews making]
    exact lookup_act_generate resolved undisturbed

end

/-! ## A small overlay project -/

/-- A manifest for a release. -/
def releaseManifest (version : String) : List (String × Deps.Value) :=
  [("deps_xwalk", .dict [("src", .none)]), ("vars_xwalk", .dict []),
    ("chromium_version", .str version)]

/-- A release, and whether a checkout makes a directory in the descriptor's place before it fails.
The first release has been fetched; the others are to be checked out into this place. -/
def smallCases : List (String × Bool) :=
  [("9", false), (".gclient-xwalk/9", false), (".gclient-xwalk", true)]

/-- An overlay project for one of these releases. Only updates succeed. -/
def smallOverlay (e : String × Bool) : Chronicle where
  world := {
    files := ⟨.ofList [
      (["r"], .directory),
      (["r", "src"], .directory),
      (["r", "src", "xwalk"], .directory),
      (["r", "src", "xwalk", "DEPS.xwalk"],
        .file (String.ofList (Deps.assignments (releaseManifest e.1))).toUTF8),
      (["r", "src", "xwalk", "tools"], .directory),
      (["r", "src", "xwalk", "tools", "DEPS_git.diff"], .file "@@ -1 +1 @@\n-a\n+b\n".toUTF8),
      (["r", "9"], .directory),
      (["r", "9", ".svn"], .directory),
      (["r", "9", "DEPS"], .file "/branches/chromium/7@".toUTF8),
      (["r", "9", "deps_git"], .directory),
      (["r", "9", "deps_git", ".svn"], .directory),
      (["r", "9", "deps_git", ".DEPS.git"], .file "a\n".toUTF8)]⟩
    current := ["r", "src", "xwalk"]
    tools := ["svn"]
    respond := fun _ r files =>
      if r.arguments.head? = some "update" then ⟨files, 0, .empty, .empty⟩
      else ⟨if e.2 then files.set ["r", ".gclient-xwalk"] .directory else files, 1, .empty, .empty⟩
    runs := []
    requests := [] }
  ended := []

/-- Nothing is set, and the output goes to a file. -/
def smallEnvironment : Environment where
  lookup := fun _ => none
  terminal := false

/-- The workspace of the overlay project. -/
def smallProject : Workspace :=
  .ofOverlay ⟨"/r/src/xwalk"⟩

/-- What is asked for on the small command line. -/
def smallAsked : Understood where
  subcommand := .generate
  atTop := { switches := [], values := [], shell := none }
  behind := { switches := [.wantsGit], values := [], shell := none }

/-- The dry run of the same. -/
def smallAskedDry : Understood where
  subcommand := .generate
  atTop := { switches := [], values := [], shell := none }
  behind := { switches := [.dryRun, .wantsGit], values := [], shell := none }

/-- The command line asks for git mode. -/
theorem read_small : read ["generate", "--use-git"] = .ok smallAsked :=
  Outcome.eq_ok_of_toOption (by decide)

/-- The other command line asks for a dry run of the same. -/
theorem read_smallDry : read ["generate", "--use-git", "--dry-run"] = .ok smallAskedDry :=
  Outcome.eq_ok_of_toOption (by decide)

/-- The two command lines differ in the switch for a dry run alone. -/
theorem previews_small : smallAskedDry.Previews smallAsked where
  subcommand := rfl
  value _ := rfl
  isOn s := by cases s <;> rfl

section

variable {e : String × Bool}

/-- Each of the overlay projects has a manifest that names its release. -/
theorem execute_ofFile_small (known : e ∈ smallCases) :
    ((smallOverlay e).world.execute
      (Manifest.ofFile (smallAsked.generationOptions.manifestIn smallProject))).1 =
      .ok ⟨.ofList [("src", none)], ∅, e.1, none⟩ := by
  have names : ∀ x ∈ ["deps_xwalk", "vars_xwalk", "chromium_version"], Deps.IsName x := by
    decide +kernel
  have parsed : Deps.parse (String.ofList (Deps.assignments (releaseManifest e.1))) =
      .ok (.ofList (releaseManifest e.1)) :=
    Deps.parse_assignments (fun b there => names b.1 (List.mem_map_of_mem there)) (by
      simp [releaseManifest, Deps.Value.CanonicalEntries, Deps.Value.Canonical, Entries.Ascending])
      rfl
  refine World.execute_ofFile_eq_ok_iff.2
    ⟨String.ofList (Deps.assignments (releaseManifest e.1)), ?_, ?_⟩
  · clear parsed
    refine Outcome.eq_ok_of_toOption ?_
    revert e
    decide +kernel
  · rw [Manifest.parse, Manifest.ofSource, parsed]
    clear parsed
    refine Outcome.eq_ok_of_toOption ?_
    revert e
    decide +kernel

/-- Both runs get as far as making everything. -/
theorem begin_small (known : e ∈ smallCases) :
    (smallOverlay e).world.files.resolve (smallOverlay e).world.current smallAsked.overlay =
      .ok ["r", "src", "xwalk"] ∧
    Location.path ["r", "src", "xwalk"] = ⟨"/r/src/xwalk"⟩ ∧
    (smallOverlay e).execute (checkoutFor ((Settings.ofLookup smallEnvironment.lookup).transport
      smallAsked.generationOptions.wantsGit)) =
      (.ok (some Subversion.checkout), smallOverlay e) := by
  refine ⟨Outcome.eq_ok_of_toOption ?_, by decide +kernel, rfl⟩
  revert e
  decide +kernel

/-- What is made before the descriptor is written. -/
def smallMade (e : String × Bool) : Except Failure Product × Chronicle :=
  (smallOverlay e).execute (make smallAsked.generationOptions smallProject
    (.ofLookup smallEnvironment.lookup) (some Subversion.checkout))

/-- The dry run ends with what is made. -/
theorem invoke_smallDry (known : e ∈ smallCases) :
    (smallOverlay e).invoke ["generate", "--use-git", "--dry-run"] smallEnvironment =
      match smallMade e with
      | (.error e, c) => (.ofFailure "[ERR] Failed to generate /r/.gclient-xwalk\n" e, c)
      | (.ok made, c) => (.success (report ⟨false⟩ true made), c) := by
  obtain ⟨place, project, client⟩ := begin_small known
  have style : smallAsked.style smallEnvironment = ⟨false⟩ := by decide +kernel
  have failed : failedLine ⟨false⟩ (Workspace.ofOverlay ⟨"/r/src/xwalk"⟩).descriptor =
      "[ERR] Failed to generate /r/.gclient-xwalk\n" := by
    decide +kernel
  rw [invoke_of_previews read_smallDry previews_small rfl, act_generate_dry, place]
  dsimp only
  rw [client, project, style, failed]
  unfold smallMade smallProject
  dsimp only

/-- Where the release is to be checked out into the descriptor's place, its checkout fails. -/
theorem smallMade_eq (known : e ∈ smallCases.tail) :
    (smallMade e).1.toOption.isSome = false ∧
      (smallMade e).2.world.files.lookup ["r", ".gclient-xwalk"] = some .directory := by
  -- What `decide` is left with are the requests: how the manifest is read has been settled.
  have manifest := execute_ofFile_small (List.mem_of_mem_tail known)
  unfold smallMade make
  rw [execute_bind, execute_ofFile, manifest]
  dsimp only
  clear manifest
  revert e
  decide +kernel

/-- A run and its dry run fail, and leave a directory in the descriptor's place, where there was
nothing. -/
structure LeavesDirectory (e : String × Bool) : Prop where
  free : (smallOverlay e).world.files.lookup ["r", ".gclient-xwalk"] = none
  fails : ((smallOverlay e).invoke ["generate", "--use-git", "--dry-run"]
    smallEnvironment).1.status = 1
  dry : ((smallOverlay e).invoke ["generate", "--use-git", "--dry-run"]
    smallEnvironment).2.world.files.lookup ["r", ".gclient-xwalk"] = some .directory
  real : ((smallOverlay e).invoke ["generate", "--use-git"]
    smallEnvironment).2.world.files.lookup ["r", ".gclient-xwalk"] = some .directory

/-- Both runs fail for these releases, and the directory stays. -/
theorem leavesDirectory_small (known : e ∈ smallCases.tail) : LeavesDirectory e := by
  have free : (smallOverlay e).world.files.lookup ["r", ".gclient-xwalk"] = none := by
    revert e
    decide +kernel
  obtain ⟨unmade, directory⟩ := smallMade_eq known
  have dry := invoke_smallDry (List.mem_of_mem_tail known)
  rcases hmade : smallMade e with ⟨_ | product, c⟩
  · rw [hmade] at dry directory
    have status : ((smallOverlay e).invoke ["generate", "--use-git", "--dry-run"]
        smallEnvironment).1.status = 1 := by
      rw [dry]
      rfl
    have same := eq_of_dry_fails read_small rfl rfl read_smallDry previews_small status
    exact ⟨free, status, by rw [dry]; exact directory, by rw [same, dry]; exact directory⟩
  · rw [hmade] at unmade
    cases unmade

end

/-- It can be made above the checkout of the release, while the client does nothing, or the client
makes it. -/
theorem descriptor_disturbed :
    (∀ runs r files,
      ((smallOverlay (".gclient-xwalk/9", false)).world.respond runs r files).files = files) ∧
    LeavesDirectory (".gclient-xwalk/9", false) ∧ LeavesDirectory (".gclient-xwalk", true) := by
  refine ⟨fun runs r files => ?_, leavesDirectory_small (by decide),
    leavesDirectory_small (by decide)⟩
  change (if r.arguments.head? = some "update" then _ else _ : Response).files = files
  split <;> rfl

/-- The small run succeeds. -/
theorem status_small : ((smallOverlay ("9", false)).invoke ["generate", "--use-git"]
    smallEnvironment).1.status = 0 := by
  have known : ("9", false) ∈ smallCases := by decide
  obtain ⟨place, project, client⟩ := begin_small known
  have made : ((smallOverlay ("9", false)).execute (Generation.run smallAsked.generationOptions
      smallProject (.ofLookup smallEnvironment.lookup)
      (some Subversion.checkout))).1.toOption.isSome = true := by
    unfold Generation.run
    dsimp only
    rw [execute_bind, execute_ofFile, execute_ofFile_small known]
    dsimp only
    decide +kernel
  rw [invoke_of_read read_small rfl, act_generate, place]
  dsimp only
  rw [client, project]
  dsimp only
  unfold smallProject at made
  rcases hrun : (smallOverlay ("9", false)).execute (Generation.run smallAsked.generationOptions
    (.ofOverlay ⟨"/r/src/xwalk"⟩) (.ofLookup smallEnvironment.lookup) (some Subversion.checkout))
    with ⟨_ | _, c⟩
  · rw [hrun] at made
    cases made
  · rfl

/-- The release has been fetched, and both runs update it. Only the run itself writes the
descriptor. -/
theorem invoke_agrees_small :
    read ["generate", "--use-git"] = .ok smallAsked ∧
    read ["generate", "--use-git", "--dry-run"] = .ok smallAskedDry ∧
    (∃ branch text, Agree (smallAsked.style smallEnvironment) smallProject branch text
      ((smallOverlay ("9", false)).invoke ["generate", "--use-git"] smallEnvironment)
      ((smallOverlay ("9", false)).invoke ["generate", "--use-git", "--dry-run"]
        smallEnvironment)) ∧
    ((smallOverlay ("9", false)).invoke ["generate", "--use-git", "--dry-run"]
      smallEnvironment).2.world.files.lookup ["r", ".gclient-xwalk"] = none := by
  obtain ⟨-, agrees⟩ := invoke_agrees (smallOverlay ("9", false)) smallEnvironment read_small rfl
    rfl
  obtain ⟨succeeds, -, untouched⟩ := agrees _ _ read_smallDry previews_small
  have known : ("9", false) ∈ smallCases := by decide
  obtain ⟨place, project, -⟩ := begin_small known
  have workspace : smallAsked.workspaceIn (smallOverlay ("9", false)).world = .ok smallProject :=
    Outcome.map_eq_ok_iff.2 ⟨_, place, congrArg Workspace.ofOverlay project⟩
  obtain ⟨ws, branch, text, found, agree⟩ := succeeds status_small
  cases found.symm.trans workspace
  have descriptor : smallProject.descriptor.place (smallOverlay ("9", false)).world.current =
      ["r", ".gclient-xwalk"] := by
    decide +kernel
  have same := untouched smallProject workspace fun _ =>
    { client := fun {runs r files} _ => by
        change (if r.arguments.head? = some "update" then _ else _ : Response).files.lookup _ = _
        split <;> rfl
      directories := fun _ m manifest => by
        rw [execute_ofFile_small known] at manifest
        cases manifest
        exact Release.Places.place_ne_descriptor _ (by decide +kernel) (by decide +kernel) }
  rw [descriptor] at same
  exact ⟨read_small, read_smallDry, ⟨branch, text, agree⟩, same.trans (by decide +kernel)⟩

end Chronicle

end OverlaySync
