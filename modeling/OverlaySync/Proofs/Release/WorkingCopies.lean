import OverlaySync.Checkout.Subversion
import OverlaySync.Proofs.Files.Growth
import OverlaySync.Proofs.Host.Chronicle
import OverlaySync.Proofs.Release.Protocol

/-! # Working copies in the long run

A branch is checked out once: from then on there is a working copy, which is only updated. So when
the deps file for git is made again and again at the same places, the branch that is returned is the
one that has been fetched as long as the release refers to the same branch, and only then
(`Release.fetched_branch_iff`). -/

namespace OverlaySync

namespace Subversion

/-- Where the client keeps what it knows of a working copy. -/
def metadata (dest : Path) : Path :=
  dest.child ".svn"

/-- The address in the arguments of a checkout into `dest`. -/
def checkoutUrl? (dest : Path) (arguments : List String) : Option String :=
  match arguments.head?, arguments.reverse with
  | some "checkout", last :: url :: _ => if last = dest.text then some url else none
  | _, _ => none

/-- The destination is the last argument. -/
theorem getLast?_of_checkoutUrl? {dest : Path} {arguments : List String}
    (h : (checkoutUrl? dest arguments).isSome) : arguments.getLast? = some dest.text := by
  unfold checkoutUrl? at h
  split at h
  · next last url rest _ reversed =>
    split at h
    · next same => rw [List.getLast?_eq_head?_reverse, reversed, same, List.head?_cons]
    · cases h
  · cases h

/-- The client and the metadata of a working copy at `dest`: a checkout that succeeds makes them,
they stay, and nothing else makes them. -/
structure Tracks (respond : List ToolRun → ToolRun → FileTree → Response) (current : Location)
    (dest : Path) : Prop where
  made {runs : List ToolRun} {r : ToolRun} {files : FileTree} {url : String} (svn : r.tool = tool)
    (here : r.directory = current) (asked : checkoutUrl? dest r.arguments = some url)
    (succeeds : (respond runs r files).status = 0) :
    (respond runs r files).files.isDirectory current (metadata dest) = true
  kept {runs : List ToolRun} {r : ToolRun} {files : FileTree} (svn : r.tool = tool)
    (there : files.isDirectory current (metadata dest) = true) :
    (respond runs r files).files.isDirectory current (metadata dest) = true
  only {runs : List ToolRun} {r : ToolRun} {files : FileTree} (svn : r.tool = tool)
    (free : files.lookup ((metadata dest).place current) ≠ some .directory)
    (there : (respond runs r files).files.lookup ((metadata dest).place current) =
      some .directory) :
    (∃ url, checkoutUrl? dest r.arguments = some url) ∧ (respond runs r files).status = 0

/-- Whether a working copy is found at a destination. -/
def found (c : Chronicle) (dest : Path) : Bool :=
  c.world.files.isDirectory c.world.current (metadata dest)

/-- A request is carried out as the plan for what is found at its destination. -/
theorem execute_handle (c : Chronicle) (call : Request) :
    c.execute (checkout.handle call) =
      c.execute ((plan (found c call.dest) call).carryOut call.dest) := by
  have asked : c.execute (Host.ask (Host.isDirectory (metadata call.dest))) =
      (.ok (found c call.dest), c) := rfl
  change c.execute (Host.ask (Host.isDirectory (metadata call.dest)) >>= _) = _
  rw [Chronicle.execute_bind, asked]

end Subversion

open Subversion (checkoutUrl? metadata)

/-- The addresses of the checkouts into `dest` that have succeeded. -/
def Chronicle.checkouts (c : Chronicle) (dest : Path) : List String :=
  c.ended.filterMap fun e => if e.2.succeeded then checkoutUrl? dest e.1.arguments else none

/-- A command is one more checkout if it is one and succeeds. -/
theorem Chronicle.checkouts_run (c : Chronicle) (command : Command) (dest : Path) :
    (c.run command).2.checkouts dest = c.checkouts dest ++
      (if (c.run command).1.succeeded then
        checkoutUrl? dest command.arguments else none).toList := by
  have noted : (c.run command).2.ended = c.ended ++ [(command, (c.run command).1)] := rfl
  rw [checkouts, noted, List.filterMap_append]
  rfl

namespace Release

variable {p : Places} {urls : List String} {c : Chronicle}

/-- What there is of a branch's working copy: `urls` have been checked out for it, and it is there
if they are any. It is not in the place of a directory above the checkouts. -/
structure WorkingCopy (p : Places) (urls : List String) (c : Chronicle) : Prop where
  tracks : Subversion.Tracks c.world.respond c.world.current p.branchCheckout
  apart : ∀ q ∈ p.checkout.ancestors ++ p.branchCheckout.ancestors,
    q.place c.world.current ≠ (metadata p.branchCheckout).place c.world.current
  fetched : c.checkouts p.branchCheckout = urls
  free : urls = [] → c.world.files.lookup ((metadata p.branchCheckout).place c.world.current) ≠
    some .directory
  there : urls ≠ [] →
    c.world.files.isDirectory c.world.current (metadata p.branchCheckout) = true

namespace WorkingCopy

/-- Other files make no difference if they do not take the working copy away or make one. -/
theorem withFiles (h : WorkingCopy p urls c) {files : FileTree} {changed : List Location}
    (grows : c.world.files.Grows changed files)
    (free : files.lookup ((metadata p.branchCheckout).place c.world.current) = some .directory →
      c.world.files.lookup ((metadata p.branchCheckout).place c.world.current) =
        some .directory) :
    WorkingCopy p urls { c with world := c.world.withFiles files } where
  tracks := h.tracks
  apart := h.apart
  fetched := h.fetched
  free none there := h.free none (free there)
  there some := grows.isDirectory (h.there some)

/-- A file that is written is no working copy. -/
theorem keeps_write (q : Path) (text : String) :
    Chronicle.Keeps (WorkingCopy p urls) (Host.writeText q text) := by
  refine .writeText fun c h l files puts => h.withFiles puts.grows fun there => ?_
  by_cases same : (metadata p.branchCheckout).place c.world.current = l
  · rw [same, puts.lookup_self] at there
    cases there
  · rwa [puts.lookup_of_ne same] at there

/-- The directory above a checkout is no working copy. -/
theorem keeps_makeParent {dest : Path}
    (above : ∀ q ∈ dest.ancestors, q ∈ p.checkout.ancestors ++ p.branchCheckout.ancestors) :
    Chronicle.Keeps (WorkingCopy p urls) (Checkout.makeParent dest) := by
  refine .makeParent fun parent hparent c h =>
    h.withFiles (c.world.files.grows_makeDirectories c.world.current parent) fun there => ?_
  have same := c.world.files.lookup_makeDirectories_parent hparent fun q hq =>
    h.apart q (above q hq)
  exact same.symm.trans there

/-- A command that is no checkout for the branch leaves its working copy as it is. -/
theorem run (h : WorkingCopy p urls c) {command : Command} (svn : command.tool = Subversion.tool)
    (other : checkoutUrl? p.branchCheckout command.arguments = none) :
    WorkingCopy p urls (c.run command).2 := by
  have fetched : (c.run command).2.checkouts p.branchCheckout = urls := by
    rw [c.checkouts_run, other, ite_self, h.fetched]
    exact List.append_nil urls
  obtain ⟨-, same⟩ | ⟨r, htool, harguments, -, -, left⟩ := c.run_cases command
  · exact ⟨same ▸ h.tracks, same ▸ h.apart, fetched, same ▸ h.free, same ▸ h.there⟩
  · refine ⟨?_, ?_, fetched, ?_, ?_⟩ <;> rw [left]
    · exact h.tracks
    · exact h.apart
    · intro none there
      obtain ⟨⟨url, asked⟩, -⟩ := h.tracks.only (htool.trans svn) (h.free none) there
      rw [harguments, other] at asked
      cases asked
    · exact fun some => h.tracks.kept (htool.trans svn) (h.there some)

/-- The first checkout for the branch makes its working copy, or fails and makes none. -/
theorem run_checkout (h : WorkingCopy p [] c) {command : Command} {url : String}
    (svn : command.tool = Subversion.tool) (here : command.directory = none)
    (asked : checkoutUrl? p.branchCheckout command.arguments = some url) :
    ((c.run command).1.succeeded = true ∧ WorkingCopy p [url] (c.run command).2) ∨
      (c.run command).1.succeeded = false ∧ WorkingCopy p [] (c.run command).2 := by
  have noted := c.checkouts_run command p.branchCheckout
  rw [asked, h.fetched, List.nil_append] at noted
  obtain ⟨failed, same⟩ | ⟨r, htool, harguments, hdirectory, status, left⟩ := c.run_cases command
  -- A checkout that is not started is one that fails.
  · rw [failed] at noted
    exact .inr ⟨failed, same ▸ h.tracks, same ▸ h.apart, noted, same ▸ h.free, same ▸ h.there⟩
  have asked : checkoutUrl? p.branchCheckout r.arguments = some url := harguments ▸ asked
  cases ends : (c.run command).1.succeeded with
  | true =>
    rw [ends] at noted
    refine .inl ⟨rfl, ?_, ?_, noted, nofun, ?_⟩ <;> rw [left]
    · exact h.tracks
    · exact h.apart
    · refine fun _ => h.tracks.made (htool.trans svn) ?_ asked (status.1 ends)
      rw [World.directoryOf, here] at hdirectory
      exact (Except.ok.inj hdirectory).symm
  | false =>
    rw [ends] at noted
    refine .inr ⟨rfl, ?_, ?_, noted, ?_, nofun⟩ <;> rw [left]
    · exact h.tracks
    · exact h.apart
    · intro none there
      obtain ⟨-, succeeds⟩ := h.tracks.only (htool.trans svn) (h.free none) there
      rw [status.2 succeeds] at ends
      cases ends

/-- Fetching the release is nothing to the branch's working copy. -/
theorem keeps_release (apart : p.checkout.text ≠ p.branchCheckout.text) (version : String) :
    Chronicle.Keeps (WorkingCopy p urls) (Subversion.checkout.handle (request p version)) := by
  refine .bind (.ask fun _ h => h) fun isWorkingCopy => ?_
  refine .carryOut (keeps_makeParent fun q hq => List.mem_append_left _ hq)
    fun command there c h => ?_
  cases isWorkingCopy with
  | true =>
    obtain rfl := List.mem_singleton.1 there
    exact h.run rfl rfl
  | false =>
    obtain rfl := List.mem_singleton.1 there
    exact h.run rfl (if_neg apart)

/-- There is a working copy for the client to find exactly if something has been checked out. -/
theorem isDirectory_iff (h : WorkingCopy p urls c) :
    c.world.files.isDirectory c.world.current (metadata p.branchCheckout) = true ↔ urls ≠ [] := by
  refine ⟨fun there none => ?_, h.there⟩
  obtain ⟨l, place, found⟩ := FileTree.isDirectory_iff.1 there
  rw [FileTree.eq_place_of_locate place] at found
  exact h.free none found

/-- The update of a branch's working copy is nothing to what has been checked out. -/
theorem keeps_update (commands : List Command)
    (updates : ∀ command ∈ commands, command.tool = Subversion.tool ∧
      checkoutUrl? p.branchCheckout command.arguments = none) :
    Chronicle.Keeps (WorkingCopy p urls) (commands.forM Checkout.runCommand) :=
  .forM_runCommand fun command there _ h =>
    h.run (updates command there).1 (updates command there).2

/-- Nothing has been checked out before, so the branch is, in a directory that is made for it. -/
theorem execute_firstFetch (h : WorkingCopy p [] c) (branch : String) :
    ∃ urls, WorkingCopy p urls
        (c.execute ((Subversion.plan false (branchRequest p branch)).carryOut p.branchCheckout)).2 ∧
      (urls = [branchUrl branch] ∨ urls = [] ∧ ∃ e,
        (c.execute ((Subversion.plan false (branchRequest p branch)).carryOut
          p.branchCheckout)).1 = .error e) := by
  let checkout := Subversion.command none
    ["checkout", "--non-interactive", "--depth", "empty", branchUrl branch, p.branchCheckout.text]
  let update := Subversion.command (some p.branchCheckout)
    ["update", "--non-interactive", gitDepsName]
  have steps : (Subversion.plan false (branchRequest p branch)).carryOut p.branchCheckout = (do
      Checkout.makeParent p.branchCheckout
      Checkout.runCommand checkout
      [update].forM Checkout.runCommand : ChronicledSession Unit) := rfl
  -- Of the three steps only the checkout counts, and the others run only if those before succeed.
  have parent := keeps_makeParent (fun q hq => List.mem_append_right _ hq) c h
  rw [steps, Chronicle.execute_bind]
  rcases hparent : c.execute (Checkout.makeParent p.branchCheckout) with ⟨e | _, c₁⟩
  · rw [hparent] at parent
    exact ⟨[], parent, .inr ⟨rfl, e, rfl⟩⟩
  rw [hparent] at parent
  dsimp only
  rw [Chronicle.execute_bind, Chronicle.execute_runCommand]
  have asked : checkoutUrl? p.branchCheckout checkout.arguments = some (branchUrl branch) :=
    if_pos rfl
  have svn : checkout.tool = Subversion.tool := rfl
  obtain ⟨succeeds, first⟩ | ⟨fails, first⟩ := parent.run_checkout svn rfl asked
  · rw [Checkout.failureOf?_eq_none_iff.2 succeeds]
    refine ⟨[branchUrl branch], ?_, .inl rfl⟩
    refine keeps_update _ (fun command there => ?_) _ first
    obtain rfl := List.mem_singleton.1 there
    exact ⟨rfl, rfl⟩
  · cases failure : Checkout.failureOf? checkout (c₁.run checkout).1 with
    | none =>
      rw [Checkout.failureOf?_eq_none_iff.1 failure] at fails
      cases fails
    | some e => exact ⟨[], first, .inr ⟨rfl, e, rfl⟩⟩

/-- When a branch is asked for, it is checked out if nothing has been before. Or the request fails;
then it may have been checked out or not. -/
theorem execute_branchRequest (h : WorkingCopy p urls c) (branch : String) :
    ∃ urls', WorkingCopy p urls'
        (c.execute (Subversion.checkout.handle (branchRequest p branch))).2 ∧
      (urls' = (if urls = [] then [branchUrl branch] else urls) ∨ urls' = urls ∧
        ∃ e, (c.execute (Subversion.checkout.handle (branchRequest p branch))).1 = .error e) := by
  have steps : c.execute (Subversion.checkout.handle (branchRequest p branch)) =
      c.execute ((Subversion.plan
        (c.world.files.isDirectory c.world.current (metadata p.branchCheckout))
        (branchRequest p branch)).carryOut p.branchCheckout) :=
    Subversion.execute_handle c (branchRequest p branch)
  rw [steps]
  by_cases none : urls = []
  · subst none
    rw [Bool.eq_false_iff.2 fun there => h.isDirectory_iff.1 there rfl, if_pos rfl]
    exact h.execute_firstFetch branch
  · rw [h.isDirectory_iff.2 none, if_neg none]
    refine ⟨urls, ?_, .inl rfl⟩
    refine keeps_update _ (fun command there => ?_) c h
    obtain rfl := List.mem_singleton.1 there
    exact ⟨rfl, rfl⟩

end WorkingCopy

/-! ## Many runs -/

/-- What is left of a chronicle when the deps file for git is made for some versions in turn, well
or not. -/
def afterMaking (p : Places) (c : Chronicle) (versions : List String) : Chronicle :=
  versions.foldl (fun c version => (c.execute (makeGitDeps Subversion.checkout p version)).2) c

/-- The last steps of making the deps file for git have no other result than the branch. -/
theorem eq_of_execute_patching {p : Places} {branch branch' : String} {c c' : Chronicle}
    (h : c.execute (do
      let diff ← Host.readText p.diff
      Diff.patchFile p.branchGitDeps diff p.gitDeps
      return branch) = (.ok branch', c')) : branch' = branch := by
  rw [Chronicle.execute_bind] at h
  split at h
  · rw [Chronicle.execute_bind] at h
    split at h
    · cases h
      rfl
    · cases h
  · cases h

/-- When the deps file for git is made, the branch is checked out if nothing has been before; or
nothing is checked out, and the run fails. -/
theorem WorkingCopy.execute_makeGitDeps (h : WorkingCopy p urls c)
    (apart : p.checkout.text ≠ p.branchCheckout.text) (version : String) :
    ∃ urls', WorkingCopy p urls' (c.execute (makeGitDeps Subversion.checkout p version)).2 ∧
      ((∃ branch, urls' = (if urls = [] then [branchUrl branch] else urls) ∧
        ∀ branch', (c.execute (makeGitDeps Subversion.checkout p version)).1 = .ok branch' →
          branch' = branch) ∨
        urls' = urls ∧
          ∃ e, (c.execute (makeGitDeps Subversion.checkout p version)).1 = .error e) := by
  unfold makeGitDeps
  -- What is done before and after the request for the branch is nothing to its working copy.
  have release := keeps_release apart version c h
  rw [Chronicle.execute_bind]
  rcases hrelease : c.execute (Subversion.checkout.handle (request p version)) with ⟨e | _, c₁⟩
  · rw [hrelease] at release
    exact ⟨urls, release, .inr ⟨rfl, e, rfl⟩⟩
  rw [hrelease] at release
  dsimp only
  have found := Chronicle.Keeps.branchOf p.deps version c₁ release
  rw [Chronicle.execute_bind]
  rcases hfound : c₁.execute (branchOf p.deps version) with ⟨e | branch, c₂⟩
  · rw [hfound] at found
    exact ⟨urls, found, .inr ⟨rfl, e, rfl⟩⟩
  rw [hfound] at found
  dsimp only
  obtain ⟨urls', fetched, outcome⟩ := found.execute_branchRequest branch
  rw [Chronicle.execute_bind]
  rcases hfetched : c₂.execute (Subversion.checkout.handle (branchRequest p branch))
    with ⟨e | _, c₃⟩
  · rw [hfetched] at fetched
    refine ⟨urls', fetched, ?_⟩
    obtain rfl | ⟨rfl, -⟩ := outcome
    · exact .inl ⟨branch, rfl, nofun⟩
    · exact .inr ⟨rfl, e, rfl⟩
  rw [hfetched] at fetched outcome
  obtain rfl | ⟨-, e, ⟨⟩⟩ := outcome
  refine ⟨_, ?_, .inl ⟨branch, rfl, fun branch' ends => ?_⟩⟩
  · refine Chronicle.Keeps.bind (.readText p.diff) (fun diff => ?_) c₃ fetched
    exact .bind (.patchFile _ diff fun _ => WorkingCopy.keeps_write _ _) fun _ => .pure branch
  · exact eq_of_execute_patching (Prod.ext ends rfl)

/-- However often the deps file for git is made, no more than one branch is checked out. -/
theorem WorkingCopy.afterMaking (h : WorkingCopy p urls c) (once : urls.length ≤ 1)
    (apart : p.checkout.text ≠ p.branchCheckout.text) (versions : List String) :
    ∃ urls', WorkingCopy p urls' (afterMaking p c versions) ∧ urls'.length ≤ 1 := by
  induction versions generalizing c urls with
  | nil => exact ⟨urls, h, once⟩
  | cons version versions ih =>
    obtain ⟨urls', next, ⟨branch, rfl, -⟩ | ⟨rfl, -⟩⟩ := h.execute_makeGitDeps apart version
    · refine ih next ?_
      split
      · exact Nat.le_refl 1
      · exact once
    · exact ih next once

/-- The branch's checkout is elsewhere than the release's. -/
theorem Places.checkout_ne (ws : Workspace) (place : String) :
    (Places.of ws place).checkout.text ≠ (Places.of ws place).branchCheckout.text := by
  intro same
  have hne := isEntryName_branchCheckoutName.toList_ne_nil
  obtain ⟨empty, hchild⟩ | ⟨-, front, hchild, hp⟩ :=
    (Places.of ws place).checkout.toList_child isEntryName_branchCheckoutName
  · rw [show (Places.of ws place).branchCheckout.text = _ from hchild, empty] at same
    exact hne (congrArg String.toList same.symm)
  · have length := congrArg List.length hchild
    rw [show ((Places.of ws place).checkout.child branchCheckoutName).text = _ from same.symm,
      List.length_append, List.length_cons] at length
    obtain hp | hp := hp
    · rw [hp] at length
      omega
    · have long := List.length_pos_iff.2 hne
      rw [hp, List.length_append, List.length_singleton] at length
      omega

/-- The metadata of a working copy is an entry of its directory. -/
theorem isEntryName_svn : Path.IsEntryName ".svn" := by decide

/-- The branch's checkout is directly below that of the release. -/
theorem Places.place_branchCheckout (ws : Workspace) (place : String) (current : Location) :
    (Places.of ws place).branchCheckout.place current =
      (Places.of ws place).checkout.place current ++ [branchCheckoutName] :=
  Path.place_child _ isEntryName_branchCheckoutName current

/-- What is above the checkouts leads to places above the branch's, unless steps lead upwards. -/
theorem Places.place_of_above {ws : Workspace} {place : String} (current : Location)
    (direct : ".." ∉ (Places.of ws place).checkout.steps) :
    ∀ q ∈ (Places.of ws place).checkout.ancestors ++ (Places.of ws place).branchCheckout.ancestors,
      q.place current <+: (Places.of ws place).branchCheckout.place current := by
  intro q above
  obtain release | branch := List.mem_append.1 above
  · rw [place_branchCheckout]
    exact (Path.place_prefix_of_mem_ancestors current direct release).trans
      (List.prefix_append _ _)
  · refine Path.place_prefix_of_mem_ancestors current (fun there => ?_) branch
    rw [show (Places.of ws place).branchCheckout.steps = _ from
      Path.steps_child _ isEntryName_branchCheckoutName, List.mem_append,
      List.mem_singleton] at there
    exact there.elim direct (by decide)

/-- No directory above the checkouts is in the place of what the client keeps of the branch, unless
steps lead upwards. -/
theorem Places.place_ne_metadata {ws : Workspace} {place : String} (current : Location)
    (direct : ".." ∉ (Places.of ws place).checkout.steps) :
    ∀ q ∈ (Places.of ws place).checkout.ancestors ++ (Places.of ws place).branchCheckout.ancestors,
      q.place current ≠ (metadata (Places.of ws place).branchCheckout).place current := by
  intro q above same
  have hmetadata : (metadata (Places.of ws place).branchCheckout).place current =
      (Places.of ws place).branchCheckout.place current ++ [".svn"] :=
    Path.place_child _ isEntryName_svn current
  have length := (place_of_above current direct q above).length_le
  rw [same, hmetadata, List.length_append, List.length_singleton] at length
  omega

/-- However often the deps file for git has been made before, once it is made well there has been
one checkout for the branch. It is of the branch that is returned exactly if none of another branch
has been made before. Neither is anything checked out at the start, nor are the directories above
the checkouts in the place of what the client makes (`Places.place_ne_metadata`). -/
theorem fetched_branch_iff {ws : Workspace} {place version branch : String}
    {versions : List String} {start final : Chronicle}
    (tracks : Subversion.Tracks start.world.respond start.world.current
      (Places.of ws place).branchCheckout)
    (apart : ∀ q ∈ (Places.of ws place).checkout.ancestors ++
        (Places.of ws place).branchCheckout.ancestors,
      q.place start.world.current ≠
        (metadata (Places.of ws place).branchCheckout).place start.world.current)
    (unended : start.ended = [])
    (free : start.world.files.lookup
      ((metadata (Places.of ws place).branchCheckout).place start.world.current) ≠ some .directory)
    (h : (afterMaking (.of ws place) start versions).execute
      (makeGitDeps Subversion.checkout (.of ws place) version) = (.ok branch, final)) :
    ∃ url, final.checkouts (Places.of ws place).branchCheckout = [url] ∧
      (url = branchUrl branch ↔
        ∀ earlier ∈ (afterMaking (.of ws place) start versions).checkouts
          (Places.of ws place).branchCheckout, earlier = branchUrl branch) := by
  have fresh : WorkingCopy (.of ws place) [] start := by
    refine ⟨tracks, apart, ?_, fun _ => free, nofun⟩
    rw [Chronicle.checkouts, unended]
    rfl
  have elsewhere := Places.checkout_ne ws place
  obtain ⟨urls, before, once⟩ := fresh.afterMaking (Nat.zero_le 1) elsewhere versions
  obtain ⟨urls', last, ⟨branch', rfl, same⟩ | ⟨-, e, failed⟩⟩ :=
    before.execute_makeGitDeps elsewhere version
  · rw [h] at last same
    obtain rfl := same branch rfl
    rw [last.fetched, before.fetched]
    match urls, once with
    | [], _ => exact ⟨branchUrl branch, rfl, fun _ _ => nofun, fun _ => rfl⟩
    | [url], _ => exact ⟨url, rfl, by simp⟩
  · rw [h] at failed
    cases failed

/-! ## A client for the small world -/

/-- The places in the small world. -/
def smallPlaces : Places :=
  .of Generation.smallWorkspace "9"

/-- The checkouts in the small world. -/
def smallCheckouts : List Path :=
  [smallPlaces.checkout, smallPlaces.branchCheckout]

/-- A client that makes the metadata of these checkouts. Its updates let the release refer to
another branch. -/
def smallClient (_ : List ToolRun) (r : ToolRun) (files : FileTree) : Response :=
  let change := match smallCheckouts.find? fun dest => (checkoutUrl? dest r.arguments).isSome with
    | some dest => files.makeDirectory [] (metadata dest)
    | none => files.write [] ⟨"/r/9/DEPS"⟩ "/branches/chromium/8@".toUTF8
  match change with
  | .ok files' => ⟨files', 0, .empty, .empty⟩
  | .error _ => ⟨files, 1, .empty, .empty⟩

/-- The small world with this client, and nothing done yet. -/
def smallStart : Chronicle where
  world := { Generation.smallWorld with tools := ["svn"], respond := smallClient }
  ended := []

/-- The client does nothing, or it makes the metadata of a checkout or the deps file of the
release. -/
theorem smallClient_cases (runs : List ToolRun) (r : ToolRun) (files : FileTree) :
    smallClient runs r files = ⟨files, 1, .empty, .empty⟩ ∨
    (∃ dest ∈ smallCheckouts, (checkoutUrl? dest r.arguments).isSome ∧ ∃ files',
      files.makeDirectory [] (metadata dest) = .ok files' ∧
      smallClient runs r files = ⟨files', 0, .empty, .empty⟩) ∨
    (∀ dest ∈ smallCheckouts, ¬(checkoutUrl? dest r.arguments).isSome) ∧ ∃ l content files',
      files.Puts [] ⟨"/r/9/DEPS"⟩ content l files' ∧
      smallClient runs r files = ⟨files', 0, .empty, .empty⟩ := by
  unfold smallClient
  cases found : smallCheckouts.find? fun dest => (checkoutUrl? dest r.arguments).isSome with
  | some dest =>
    dsimp only
    cases made : files.makeDirectory [] (metadata dest) with
    | error e => exact .inl rfl
    | ok files' =>
      have asked : (checkoutUrl? dest r.arguments).isSome = true := by
        simpa using List.find?_some found
      exact .inr (.inl ⟨dest, List.mem_of_find?_eq_some found, asked, files', made, rfl⟩)
  | none =>
    dsimp only
    cases written : files.write [] ⟨"/r/9/DEPS"⟩ "/branches/chromium/8@".toUTF8 with
    | error e => exact .inl rfl
    | ok files' =>
      obtain ⟨l, puts⟩ := FileTree.puts_of_write written
      exact .inr (.inr ⟨List.find?_eq_none.1 found, l, _, files', puts, rfl⟩)

/-- The client makes the metadata of one of the two working copies only when it is checked out. -/
theorem tracks_smallClient {dest : Path} (h : dest ∈ smallCheckouts) :
    Subversion.Tracks smallClient [] dest where
  made {runs r files url} _ _ asked succeeds := by
    have asked := Option.isSome_of_eq_some asked
    obtain same | ⟨dest', -, asked', files', made, same⟩ | ⟨others, -⟩ :=
      smallClient_cases runs r files
    · rw [same] at succeeds
      cases succeeds
    · have text := (Subversion.getLast?_of_checkoutUrl? asked).symm.trans
        (Subversion.getLast?_of_checkoutUrl? asked')
      obtain rfl : dest = dest' := congrArg Path.mk (Option.some.inj text)
      rw [same]
      exact (FileTree.isDirectory_of_makeDirectory made).2
    · exact absurd asked (others dest h)
  kept {runs r files} _ there := by
    obtain same | ⟨dest', -, -, files', made, same⟩ | ⟨-, l, content, files', puts, same⟩ :=
      smallClient_cases runs r files <;> rw [same]
    · exact there
    · exact (FileTree.isDirectory_of_makeDirectory made).1.isDirectory there
    · exact puts.grows.isDirectory there
  only {runs r files} _ free there := by
    obtain same | ⟨dest', h', asked, files', made, same⟩ | ⟨-, l, content, files', puts, same⟩ :=
      smallClient_cases runs r files <;> rw [same] at there ⊢
    · exact absurd there free
    · have places : ∀ d ∈ smallCheckouts, ∀ d' ∈ smallCheckouts, (metadata d).place [] =
          (metadata d').place [] → d = d' := by
        decide +kernel
      by_cases place : (metadata dest').place [] = (metadata dest).place []
      · obtain rfl := places dest' h' dest h place
        exact ⟨Option.isSome_iff_exists.1 asked, rfl⟩
      · exact absurd ((FileTree.lookup_of_makeDirectory made place).symm.trans there) free
    · by_cases place : (metadata dest).place [] = l
      · rw [place, puts.lookup_self] at there
        cases there
      · exact absurd ((puts.lookup_of_ne place).symm.trans there) free

/-- The branch is asked for twice, and the second time the release refers to another one. -/
theorem making_small :
    (smallStart.execute (makeGitDeps Subversion.checkout smallPlaces "9")).1.toOption = some "7" ∧
    (afterMaking smallPlaces smallStart ["9"]).checkouts smallPlaces.branchCheckout =
      [branchUrl "7"] ∧
    ((afterMaking smallPlaces smallStart ["9"]).execute
      (makeGitDeps Subversion.checkout smallPlaces "9")).1.toOption = some "8" ∧
    (afterMaking smallPlaces smallStart ["9", "9"]).checkouts smallPlaces.branchCheckout =
      [branchUrl "7"] := by
  decide +kernel

/-- What is returned is not what has been fetched, when it was another branch before. -/
theorem returned_branch_not_fetched :
    (∀ dest ∈ [smallPlaces.checkout, smallPlaces.branchCheckout],
      Subversion.Tracks smallStart.world.respond smallStart.world.current dest ∧
      smallStart.world.files.isPresent smallStart.world.current (metadata dest) = false) ∧
    smallStart.ended = [] ∧
    ∃ final, (afterMaking smallPlaces smallStart ["9"]).execute
        (makeGitDeps Subversion.checkout smallPlaces "9") = (.ok "8", final) ∧
      final.checkouts smallPlaces.branchCheckout = [branchUrl "7"] ∧
      branchUrl "7" ≠ branchUrl "8" := by
  obtain ⟨-, -, again, fetched⟩ := making_small
  refine ⟨fun dest h => ⟨tracks_smallClient h, ?_⟩, rfl, _,
    Prod.ext (Outcome.eq_ok_of_toOption again) rfl, fetched, by decide⟩
  revert dest
  decide +kernel

/-- The first time the branch that is returned has been fetched, the second time another one has. -/
theorem fetched_branch_iff_small :
    (∃ final, smallStart.execute (makeGitDeps Subversion.checkout smallPlaces "9") =
        (.ok "7", final) ∧
      final.checkouts smallPlaces.branchCheckout = [branchUrl "7"]) ∧
    ∃ final url, (afterMaking smallPlaces smallStart ["9"]).execute
        (makeGitDeps Subversion.checkout smallPlaces "9") = (.ok "8", final) ∧
      final.checkouts smallPlaces.branchCheckout = [url] ∧ url ≠ branchUrl "8" := by
  have tracks : Subversion.Tracks smallClient [] smallPlaces.branchCheckout :=
    tracks_smallClient (by decide)
  have direct : ".." ∉ smallPlaces.checkout.steps := by decide
  have apart := Places.place_ne_metadata smallStart.world.current direct
  have free : smallStart.world.files.lookup
      ((metadata smallPlaces.branchCheckout).place smallStart.world.current) ≠ some .directory := by
    decide +kernel
  obtain ⟨once, earlier, again, -⟩ := making_small
  have first : (afterMaking smallPlaces smallStart []).execute
      (makeGitDeps Subversion.checkout smallPlaces "9") = (.ok "7", _) :=
    Prod.ext (Outcome.eq_ok_of_toOption once) rfl
  have second : (afterMaking smallPlaces smallStart ["9"]).execute
      (makeGitDeps Subversion.checkout smallPlaces "9") = (.ok "8", _) :=
    Prod.ext (Outcome.eq_ok_of_toOption again) rfl
  obtain ⟨url, fetched, same⟩ := fetched_branch_iff tracks apart rfl free first
  obtain ⟨url', fetched', same'⟩ := fetched_branch_iff tracks apart rfl free second
  have other : branchUrl "7" ≠ branchUrl "8" := by decide
  refine ⟨⟨_, first, fetched.trans (congrArg (fun u => [u]) (same.2 nofun))⟩,
    _, url', second, fetched', fun h => other (same'.1 h _ ?_)⟩
  exact earlier ▸ List.mem_singleton_self _

end Release

end OverlaySync
