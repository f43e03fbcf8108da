import OverlaySync.Checkout.Git
import OverlaySync.Proofs.Files.Growth
import OverlaySync.Proofs.Host.Chronicle

/-! # Repositories that are set up in steps

A repository is cloned at once, or it is initialised in a directory that holds something else, and
then told its origin. A request looks for a repository, and not for what that knows. So when an
origin could not be added, the next request fetches from an origin that the repository has not been
told; and this is the only way to such a fetch (`Git.fetchesToldOrigin_iff`). -/

namespace OverlaySync

namespace Git

/-! ## Runs of the client -/

/-- Where the client keeps the repository of a directory. -/
def metadata (dest : Path) : Path :=
  dest.child ".git"

/-- The metadata of a repository is an entry of its directory. -/
theorem isEntryName_git : Path.IsEntryName ".git" := by decide

/-- A command that fetches from the origin in `dest`. -/
def fetches (dest : Path) (c : Command) : Bool :=
  c.tool = tool && c.directory = some dest && c.arguments.head? = some "fetch" &&
    c.arguments.contains "origin"

/-- The command that adds `url` as the origin in `dest`. -/
def addsOrigin (url : String) (dest : Path) (c : Command) : Bool :=
  c = commandIn dest ["remote", "add", "origin", url]

/-- A command that clones `url` into `dest`. -/
def clones (url : String) (dest : Path) (c : Command) : Bool :=
  c.tool = tool && c.directory = none && c.arguments.head? = some "clone" &&
    [url, dest.text].isSuffixOf c.arguments

/-- The command has told the repository in `dest` its origin. -/
def toldOrigin (url : String) (dest : Path) (e : Command × Exit) : Bool :=
  (addsOrigin url dest e.1 || clones url dest e.1) && e.2.succeeded

/-- A run that is to make a repository: it initialises `dest`, or clones into it. -/
def makesRepository (files : FileTree) (current : Location) (dest : Path) (r : ToolRun) : Bool :=
  (r.arguments.head? = some "init" &&
    (files.findDirectory current dest).toOption = some r.directory) ||
  (r.arguments.head? = some "clone" && r.arguments.getLast? = some dest.text &&
    r.directory = current)

/-- The client and the repository in `dest`: a run that is to make it does so if it succeeds, it
stays, and nothing else makes it. -/
structure Tracks (respond : List ToolRun → ToolRun → FileTree → Response) (current : Location)
    (dest : Path) : Prop where
  made {runs : List ToolRun} {r : ToolRun} {files : FileTree} (git : r.tool = tool)
    (makes : makesRepository files current dest r = true)
    (succeeds : (respond runs r files).status = 0) :
    (respond runs r files).files.isPresent current (metadata dest) = true
  kept {runs : List ToolRun} {r : ToolRun} {files : FileTree} (git : r.tool = tool)
    (there : files.isPresent current (metadata dest) = true) :
    (respond runs r files).files.isPresent current (metadata dest) = true
  only {runs : List ToolRun} {r : ToolRun} {files : FileTree} (git : r.tool = tool)
    (free : files.lookup ((metadata dest).place current) = none)
    (there : (respond runs r files).files.lookup ((metadata dest).place current) ≠ none) :
    makesRepository files current dest r = true ∧ (respond runs r files).status = 0

/-! ## What a record of commands says -/

variable {url : String} {dest : Path} {ended ended' : List (Command × Exit)} {e : Command × Exit}

/-- Every fetch from the origin comes after the origin has been told. -/
def FetchesToldOrigin (url : String) (dest : Path) (ended : List (Command × Exit)) : Prop :=
  ∀ i, (h : i < ended.length) → fetches dest ended[i].1 = true →
    ∃ e ∈ ended.take i, toldOrigin url dest e = true

/-- Whenever the origin was to be added, it has been. -/
def OriginsAdded (url : String) (dest : Path) (ended : List (Command × Exit)) : Prop :=
  ∀ e ∈ ended, addsOrigin url dest e.1 = true → e.2.succeeded = true

instance : Decidable (FetchesToldOrigin url dest ended) :=
  inferInstanceAs (Decidable (∀ i, (h : i < ended.length) → _))

instance : Decidable (OriginsAdded url dest ended) :=
  inferInstanceAs (Decidable (∀ e ∈ ended, _))

/-- What is in order is so after any number of its commands. -/
theorem FetchesToldOrigin.of_append (h : FetchesToldOrigin url dest (ended ++ ended')) :
    FetchesToldOrigin url dest ended := by
  intro i hi fetch
  have told := h i (by rw [List.length_append]; omega)
  rw [List.getElem_append_left hi, List.take_append_of_le_length (Nat.le_of_lt hi)] at told
  exact told fetch

/-- One more command is in order if it is no fetch, or the origin has been told before. -/
theorem fetchesToldOrigin_append_singleton :
    FetchesToldOrigin url dest (ended ++ [e]) ↔ FetchesToldOrigin url dest ended ∧
      (fetches dest e.1 = true → ∃ e' ∈ ended, toldOrigin url dest e' = true) := by
  constructor
  · refine fun h => ⟨h.of_append, fun fetch => ?_⟩
    have told := h ended.length (by simp)
    rw [List.getElem_append_right (Nat.le_refl _), List.take_left] at told
    exact told (by simpa using fetch)
  · rintro ⟨before, last⟩ i hi fetch
    rw [List.length_append, List.length_singleton] at hi
    by_cases here : i = ended.length
    · subst here
      rw [List.take_left]
      exact last (by simpa using fetch)
    · have hi : i < ended.length := by omega
      rw [List.getElem_append_left hi] at fetch
      rw [List.take_append_of_le_length (Nat.le_of_lt hi)]
      exact before i hi fetch

/-- One more command is noted, and if it was to add the origin, it has to succeed. -/
theorem originsAdded_run {c : Chronicle} {command : Command} :
    OriginsAdded url dest (c.run command).2.ended ↔ OriginsAdded url dest c.ended ∧
      (addsOrigin url dest command = true → (c.run command).1.succeeded = true) := by
  simp [OriginsAdded, or_imp, forall_and]

/-! ## One command -/

section Tracks

variable {c : Chronicle} {command : Command}

/-- There is a repository after a run that has made it. -/
theorem Tracks.made_run (h : Tracks c.world.respond c.world.current dest)
    (git : command.tool = tool) (succeeds : (c.run command).1.succeeded = true)
    (makes : ∀ r : ToolRun, r.arguments = command.arguments →
      c.world.directoryOf command = .ok r.directory →
      makesRepository c.world.files c.world.current dest r = true) :
    (c.run command).2.world.files.isPresent c.world.current (metadata dest) = true := by
  obtain ⟨failed, -⟩ | ⟨r, htool, harguments, hdirectory, status, left⟩ := c.run_cases command
  · rw [failed] at succeeds
    cases succeeds
  · rw [left]
    exact h.made (htool.trans git) (makes r harguments hdirectory) (status.1 succeeds)

/-- A repository stays where it is. -/
theorem Tracks.kept_run (h : Tracks c.world.respond c.world.current dest)
    (git : command.tool = tool)
    (there : c.world.files.isPresent c.world.current (metadata dest) = true) :
    (c.run command).2.world.files.isPresent c.world.current (metadata dest) = true := by
  obtain ⟨-, same⟩ | ⟨r, htool, -, -, -, left⟩ := c.run_cases command
  · rwa [same]
  · rw [left]
    exact h.kept (htool.trans git) there

/-- There is none after a run that fails, or that is not to make it. -/
theorem Tracks.free_run (h : Tracks c.world.respond c.world.current dest)
    (git : command.tool = tool)
    (free : c.world.files.lookup ((metadata dest).place c.world.current) = none)
    (idle : (c.run command).1.succeeded = false ∨
      command.arguments.head? ≠ some "init" ∧ command.arguments.head? ≠ some "clone") :
    (c.run command).2.world.files.lookup ((metadata dest).place c.world.current) = none := by
  obtain ⟨-, same⟩ | ⟨r, htool, harguments, -, status, left⟩ := c.run_cases command
  · rwa [same]
  refine Decidable.byContradiction fun there => ?_
  rw [left] at there
  obtain ⟨makes, succeeds⟩ := h.only (htool.trans git) free there
  obtain failed | ⟨noInit, noClone⟩ := idle
  · rw [status.2 succeeds] at failed
    cases failed
  · simp [makesRepository, harguments, noInit, noClone] at makes

end Tracks

/-- How far a repository has come. -/
inductive Stage where
  /-- There is none. -/
  | absent
  /-- There is one, and it has not been told its origin. -/
  | initialised
  /-- It has been told its origin. -/
  | connected
  deriving DecidableEq

/-- The repository in `dest` has come to a stage, and no fetch has come too early. It is not in the
place of a directory above `dest`. -/
structure Repository (url : String) (dest : Path) (stage : Stage) (c : Chronicle) : Prop where
  tracks : Tracks c.world.respond c.world.current dest
  apart : ∀ q ∈ dest.ancestors,
    q.place c.world.current ≠ (metadata dest).place c.world.current
  free : stage = .absent →
    c.world.files.lookup ((metadata dest).place c.world.current) = none
  there : stage ≠ .absent → c.world.files.isPresent c.world.current (metadata dest) = true
  told : (∃ e ∈ c.ended, toldOrigin url dest e = true) ↔ stage = .connected
  fetched : FetchesToldOrigin url dest c.ended

namespace Repository

variable {stage : Stage} {c : Chronicle} {command : Command}

/-- A repository is found from the stage on at which there is one. -/
theorem isPresent_iff (h : Repository url dest stage c) :
    c.world.files.isPresent c.world.current (metadata dest) = true ↔ stage ≠ .absent := by
  refine ⟨fun present absent => ?_, h.there⟩
  have free := h.free absent
  rw [FileTree.isPresent, FileTree.find] at present
  cases place : c.world.files.locate c.world.current (metadata dest) with
  | error e =>
    rw [place] at present
    cases present
  | ok l =>
    rw [← FileTree.eq_place_of_locate place] at free
    rw [place] at present
    simp only [bind, Except.bind, free] at present
    cases present

/-- What a command does to the files and to the origin says at which stage it leaves the
repository. -/
theorem run {stage' : Stage} (h : Repository url dest stage c)
    (fetch : fetches dest command = true → stage = .connected)
    (free : stage' = .absent → (c.run command).2.world.files.lookup
      ((metadata dest).place c.world.current) = none)
    (there : stage' ≠ .absent →
      (c.run command).2.world.files.isPresent c.world.current (metadata dest) = true)
    (told : (stage = .connected ∨ toldOrigin url dest (command, (c.run command).1) = true) ↔
      stage' = .connected) : Repository url dest stage' (c.run command).2 where
  tracks := by
    rw [Chronicle.respond_run, Chronicle.current_run]
    exact h.tracks
  apart := by
    rw [Chronicle.current_run]
    exact h.apart
  free := by
    rw [Chronicle.current_run]
    exact free
  there := by
    rw [Chronicle.current_run]
    exact there
  told := by
    rw [Chronicle.ended_run, ← told, ← h.told]
    simp [or_and_right, exists_or]
  fetched := by
    rw [Chronicle.ended_run, fetchesToldOrigin_append_singleton]
    exact ⟨h.fetched, fun asked => h.told.2 (fetch asked)⟩

/-- Nothing that the client does takes a repository away that has been told its origin. -/
theorem run_connected (h : Repository url dest .connected c) (git : command.tool = tool) :
    Repository url dest .connected (c.run command).2 :=
  h.run (fun _ => rfl) nofun (fun _ => h.tracks.kept_run git (h.there nofun))
    ⟨fun _ => rfl, fun _ => .inl rfl⟩

/-- A directory is initialised, or the command fails and there is still no repository. -/
theorem run_init (h : Repository url dest .absent c) :
    Repository url dest
      (if (c.run (commandIn dest ["init", "--quiet"])).1.succeeded then .initialised else .absent)
      (c.run (commandIn dest ["init", "--quiet"])).2 := by
  refine h.run (by simp [fetches, commandIn]) (fun absent => ?_) (fun present => ?_) ?_
  · refine h.tracks.free_run rfl (h.free rfl) (.inl ?_)
    split at absent
    · cases absent
    · next fails => exact Bool.eq_false_iff.2 fails
  · refine h.tracks.made_run rfl ?_ fun r harguments hdirectory => ?_
    · split at present
      · assumption
      · exact absurd rfl present
    · have entered : c.world.files.findDirectory c.world.current dest = .ok r.directory :=
        hdirectory
      rw [makesRepository, harguments, entered]
      simp [commandIn, Except.toOption]
  · split <;> simp [toldOrigin, addsOrigin, clones, commandIn]

/-- A repository is told its origin, or stays without. -/
theorem run_addOrigin (h : Repository url dest .initialised c) :
    Repository url dest
      (if (c.run (commandIn dest ["remote", "add", "origin", url])).1.succeeded then .connected
        else .initialised)
      (c.run (commandIn dest ["remote", "add", "origin", url])).2 := by
  refine h.run (by simp [fetches, commandIn]) (fun absent => ?_)
    (fun _ => h.tracks.kept_run rfl (h.there nofun)) ?_
  · split at absent <;> cases absent
  · cases succeeds : (c.run (commandIn dest ["remote", "add", "origin", url])).1.succeeded <;>
      simp [toldOrigin, addsOrigin, succeeds]

/-- A repository is cloned, or there is still none. -/
theorem run_clone (h : Repository url dest .absent c) (git : command.tool = tool)
    (clone : clones url dest command = true) :
    Repository url dest (if (c.run command).1.succeeded then .connected else .absent)
      (c.run command).2 := by
  have parts := clone
  simp only [clones, Bool.and_eq_true, decide_eq_true_eq, List.isSuffixOf_iff_suffix] at parts
  obtain ⟨⟨⟨-, here⟩, head⟩, suffix⟩ := parts
  have last : command.arguments.getLast? = some dest.text := by
    obtain ⟨front, whole⟩ := suffix
    rw [← whole]
    simp
  refine h.run (by simp [fetches, head]) (fun absent => ?_) (fun present => ?_) ?_
  · refine h.tracks.free_run git (h.free rfl) (.inl ?_)
    split at absent
    · cases absent
    · next fails => exact Bool.eq_false_iff.2 fails
  · refine h.tracks.made_run git ?_ fun r harguments hdirectory => ?_
    · split at present
      · assumption
      · exact absurd rfl present
    · rw [World.directoryOf, here] at hdirectory
      rw [makesRepository, harguments, head, last, ← Except.ok.inj hdirectory]
      simp
  · cases succeeds : (c.run command).1.succeeded <;> simp [toldOrigin, clone, succeeds]

/-- The directory above `dest` is no repository. -/
theorem execute_makeParent (h : Repository url dest .absent c) :
    Repository url dest .absent (c.execute (Checkout.makeParent dest)).2 ∧
      (c.execute (Checkout.makeParent dest)).2.ended = c.ended := by
  unfold Checkout.makeParent
  split
  · next parent hparent =>
    refine ⟨⟨h.tracks, h.apart, fun _ => ?_, nofun, h.told, h.fetched⟩, rfl⟩
    exact (c.world.files.lookup_makeDirectories_parent hparent h.apart).trans (h.free rfl)
  · exact ⟨h, rfl⟩

end Repository

/-! ## One request -/

section Requests

variable {c : Chronicle} {branch : String} {call : Request}

/-- The first command that fails is the last one. -/
theorem execute_forM_cons {motive : Chronicle → Prop} {c : Chronicle} {command : Command}
    {commands : List Command}
    (stops : (c.run command).1.succeeded = false → motive (c.run command).2)
    (goes : (c.run command).1.succeeded = true →
      motive ((c.run command).2.execute (commands.forM Checkout.runCommand)).2) :
    motive (c.execute ((command :: commands).forM Checkout.runCommand)).2 := by
  change motive (c.execute (do Checkout.runCommand command; commands.forM Checkout.runCommand)).2
  rw [Chronicle.execute_bind, Chronicle.execute_runCommand]
  cases failure : Checkout.failureOf? command (c.run command).1 with
  | none => exact goes (Checkout.failureOf?_eq_none_iff.1 failure)
  | some e =>
    refine stops (Bool.eq_false_iff.2 fun succeeds => ?_)
    rw [Checkout.failureOf?_eq_none_iff.2 succeeds] at failure
    cases failure

/-- What is found at a destination. -/
def found (c : Chronicle) (dest : Path) : Destination :=
  if c.world.files.isPresent c.world.current (metadata dest) then .repository
  else if c.world.files.isOccupied c.world.current dest then .occupied
  else .vacant

/-- A request is carried out by the plan for what is found in its directory. -/
theorem execute_handle (c : Chronicle) (branch : String) (call : Request) :
    c.execute ((checkout branch).handle call) =
      c.execute ((plan branch (found c call.dest) call).carryOut call.dest) := by
  have inspected : c.execute (inspect call.dest) = (.ok (found c call.dest), c) := by
    unfold inspect found
    rw [Chronicle.execute_bind,
      show c.execute (Host.ask (Host.isPresent (call.dest.child ".git"))) =
        (.ok (c.world.files.isPresent c.world.current (metadata call.dest)), c) from rfl]
    dsimp only
    split
    · rfl
    rw [Chronicle.execute_bind, show c.execute (Host.attempt (Host.isOccupied call.dest)) =
      (.ok (c.world.files.isOccupied c.world.current call.dest), c) from rfl]
    dsimp only
    split <;> rfl
  change c.execute (inspect call.dest >>= _) = _
  rw [Chronicle.execute_bind, inspected]

/-- Whatever the plan, the branch is obtained first and then something is checked out. -/
theorem commands_plan (branch : String) (found : Destination) (call : Request) :
    (plan branch found call).makesParent = decide (found = .vacant) ∧
    ∃ filesOnly arguments, (plan branch found call).commands =
      obtain branch call.url call.dest filesOnly found ++
        [commandIn call.dest ("checkout" :: arguments)] := by
  cases call with
  | tree url dest revision => exact ⟨rfl, false, _, rfl⟩
  | files url dest files => exact ⟨rfl, true, _, rfl⟩

/-- There is no repository, or one that has been told its origin. -/
def Settled (url : String) (dest : Path) (c : Chronicle) : Prop :=
  ∃ stage, stage ≠ .initialised ∧ Repository url dest stage c ∧ OriginsAdded url dest c.ended

/-- There is a repository whose origin could not be added. -/
def Stuck (url : String) (dest : Path) (c : Chronicle) : Prop :=
  Repository url dest .initialised c ∧ ¬OriginsAdded url dest c.ended

/-- What is done in a repository that has been told its origin leaves it so. -/
theorem settled_of_connected (h : Repository url dest .connected c)
    (added : OriginsAdded url dest c.ended) (commands : List Command)
    (idle : ∀ command ∈ commands, command.tool = tool ∧ addsOrigin url dest command = false) :
    Settled url dest (c.execute (commands.forM Checkout.runCommand)).2 := by
  have kept : Chronicle.Keeps
      (fun c => Repository url dest .connected c ∧ OriginsAdded url dest c.ended)
      (commands.forM Checkout.runCommand) := by
    refine .forM_runCommand fun command there c h => ?_
    obtain ⟨git, noAdd⟩ := idle command there
    exact ⟨h.1.run_connected git, originsAdded_run.2 ⟨h.2, by rw [noAdd]; exact nofun⟩⟩
  exact ⟨.connected, nofun, kept c ⟨h, added⟩⟩

/-- In a directory that holds something else, a repository is set up in two steps. If the second
one fails, the repository stays without its origin. -/
theorem execute_occupied (h : Repository url dest .absent c)
    (added : OriginsAdded url dest c.ended) (branch : String) (filesOnly : Bool)
    (arguments : List String) :
    let c' := (c.execute ((obtain branch url dest filesOnly .occupied ++
      [commandIn dest ("checkout" :: arguments)]).forM Checkout.runCommand)).2
    Settled url dest c' ∨ Stuck url dest c' := by
  have init := h.run_init
  -- To initialize a repository is not to add an origin.
  have addedInit : OriginsAdded url dest (c.run (commandIn dest ["init", "--quiet"])).2.ended :=
    originsAdded_run.2 ⟨added, by simp [addsOrigin, commandIn]⟩
  refine execute_forM_cons (motive := fun c => Settled url dest c ∨ Stuck url dest c)
    (fun fails => ?_) fun succeeds => ?_
  · rw [fails] at init
    exact .inl ⟨.absent, nofun, init, addedInit⟩
  rw [succeeds] at init
  have add := init.run_addOrigin
  refine execute_forM_cons (motive := fun c => Settled url dest c ∨ Stuck url dest c)
    (fun fails => ?_) fun succeeds => ?_
  · rw [fails] at add
    refine .inr ⟨add, fun addedAll => ?_⟩
    -- The origin was to be added, and has not been: this is what it means to be stuck.
    have succeeds := (originsAdded_run.1 addedAll).2 (decide_eq_true rfl)
    exact Bool.false_ne_true (fails.symm.trans succeeds)
  · rw [succeeds] at add
    have addedAll := originsAdded_run.2 ⟨addedInit, fun _ => succeeds⟩
    refine .inl (settled_of_connected add addedAll _ fun command there => ?_)
    obtain rfl | rfl : command = _ ∨ command = _ := by simpa using there
    · simp [addsOrigin, commandIn]
    · simp [addsOrigin, commandIn]

/-- In a free place, a repository is cloned or there is none. -/
theorem execute_vacant (h : Repository url dest .absent c)
    (added : OriginsAdded url dest c.ended) (branch : String) (filesOnly : Bool)
    (arguments : List String) :
    Settled url dest (c.execute ((obtain branch url dest filesOnly .vacant ++
      [commandIn dest ("checkout" :: arguments)]).forM Checkout.runCommand)).2 := by
  obtain ⟨clone, commands, isClone, git⟩ : ∃ clone, obtain branch url dest filesOnly .vacant =
      [clone] ∧ clones url dest clone = true ∧ clone.tool = tool := by
    refine ⟨_, rfl, ?_, rfl⟩
    have suffix := List.isSuffixOf_iff_suffix.2 (List.suffix_append
      (["clone", "--quiet", "--branch", branch] ++ if filesOnly then ["--no-checkout"] else [])
      [url, dest.text])
    rw [clones, suffix]
    rfl
  -- A clone tells the repository its origin without adding it.
  have noAdd : addsOrigin url dest clone = false := by
    refine decide_eq_false ?_
    rintro rfl
    simp [clones, commandIn] at isClone
  have cloned := h.run_clone git isClone
  have addedClone : OriginsAdded url dest (c.run clone).2.ended :=
    originsAdded_run.2 ⟨added, by rw [noAdd]; exact nofun⟩
  rw [commands]
  refine execute_forM_cons (fun fails => ?_) fun succeeds => ?_
  · rw [fails] at cloned
    exact ⟨.absent, nofun, cloned, addedClone⟩
  · rw [succeeds] at cloned
    refine settled_of_connected cloned addedClone _ fun command there => ?_
    obtain rfl := List.mem_singleton.1 there
    simp [addsOrigin, commandIn]

/-- A request that finds no repository, or one that has been told its origin, leaves it so, or
without its origin after it could not be added. -/
theorem Settled.execute_handle (h : Settled url dest c) (branch : String) (hurl : call.url = url)
    (hdest : call.dest = dest) :
    Settled url dest (c.execute ((checkout branch).handle call)).2 ∨
      Stuck url dest (c.execute ((checkout branch).handle call)).2 := by
  subst hurl hdest
  obtain ⟨stage, settled, h, added⟩ := h
  obtain ⟨makesParent, filesOnly, arguments, commands⟩ :=
    commands_plan branch (found c call.dest) call
  rw [Git.execute_handle, Checkout.Plan.carryOut, makesParent, commands]
  have present := h.isPresent_iff
  cases stage with
  | initialised => exact absurd rfl settled
  | connected =>
    have repository : found c call.dest = .repository := if_pos (present.2 (by decide))
    rw [repository]
    refine .inl (settled_of_connected h added _ fun command there => ?_)
    obtain rfl | rfl : command = _ ∨ command = _ := by simpa [obtain] using there
    · simp [addsOrigin, commandIn]
    · simp [addsOrigin, commandIn]
  | absent =>
    have missing : ¬c.world.files.isPresent c.world.current (metadata call.dest) = true :=
      fun there => present.1 there rfl
    by_cases occupied : c.world.files.isOccupied c.world.current call.dest = true
    · have occupied : found c call.dest = .occupied := (if_neg missing).trans (if_pos occupied)
      rw [occupied]
      exact execute_occupied h added branch filesOnly arguments
    · have vacant : found c call.dest = .vacant := (if_neg missing).trans (if_neg occupied)
      rw [vacant]
      -- The directory above is made first, if that is possible.
      obtain ⟨parent, unended⟩ := h.execute_makeParent
      change Settled _ _ (c.execute (Checkout.makeParent call.dest >>= fun _ => _)).2 ∨ _
      rw [Chronicle.execute_bind]
      rcases hparent : c.execute (Checkout.makeParent call.dest) with ⟨e | _, c₁⟩
      · rw [hparent] at parent unended
        exact .inl ⟨.absent, by decide, parent, unended ▸ added⟩
      · rw [hparent] at parent unended
        exact .inl (execute_vacant parent (unended ▸ added) branch filesOnly arguments)

/-- A request adds to the record. -/
theorem keeps_record (ended : List (Command × Exit)) (branch : String) (call : Request) :
    Chronicle.Keeps (ended <+: ·.ended) ((checkout branch).handle call) := by
  have inspected : Chronicle.Keeps (ended <+: ·.ended) (inspect call.dest) := by
    refine .bind (.ask fun _ h => h) fun isRepository => ?_
    split
    · exact .pure _
    refine .bind (.attempt fun _ h => h) fun isOccupied => ?_
    split
    · exact .pure _
    · exact .pure _
  exact .bind inspected fun found => .carryOut (.makeParent fun _ _ _ h => h)
    fun command _ c h => h.trans (List.prefix_append _ _)

/-- A request that finds a repository without its origin fetches from there. -/
theorem Stuck.execute_handle (h : Stuck url dest c) (branch : String) (hdest : call.dest = dest) :
    ¬FetchesToldOrigin url dest (c.execute ((checkout branch).handle call)).2.ended := by
  subst hdest
  obtain ⟨makesParent, filesOnly, arguments, commands⟩ :=
    commands_plan branch (found c call.dest) call
  have repository : found c call.dest = .repository := if_pos (h.1.isPresent_iff.2 nofun)
  rw [Git.execute_handle, Checkout.Plan.carryOut, makesParent, commands, repository]
  let fetch := commandIn call.dest ["fetch", "--quiet", "origin"]
  -- The fetch comes first, and what follows it makes no difference.
  have early {later : List (Command × Exit)} (more : (c.run fetch).2.ended <+: later) :
      ¬FetchesToldOrigin url call.dest later := by
    intro told
    obtain ⟨others, rfl⟩ := more
    have before := (fetchesToldOrigin_append_singleton.1 told.of_append).2
      (by simp [fetches, fetch, commandIn])
    cases h.1.told.1 before
  have rest : Chronicle.Keeps ((c.run fetch).2.ended <+: ·.ended)
      ([commandIn call.dest ("checkout" :: arguments)].forM Checkout.runCommand) :=
    .forM_runCommand fun command _ c h => h.trans (List.prefix_append _ _)
  exact execute_forM_cons (motive := fun c => ¬FetchesToldOrigin url call.dest c.ended)
    (fun _ => early List.prefix_rfl) fun _ => early (rest _ List.prefix_rfl)

/-- An origin could not be added, and has been fetched from. -/
def Lost (url : String) (dest : Path) (c : Chronicle) : Prop :=
  ¬OriginsAdded url dest c.ended ∧ ¬FetchesToldOrigin url dest c.ended

/-- What has been fetched too early stays so. -/
theorem Lost.mono {c' : Chronicle} (h : Lost url dest c) (more : c.ended <+: c'.ended) :
    Lost url dest c' := by
  obtain ⟨others, whole⟩ := more
  rw [Lost, ← whole]
  exact ⟨fun added => h.1 fun e there => added e (List.mem_append_left others there),
    fun told => h.2 told.of_append⟩

/-- After any request there are three cases, and none of them can be left backwards. -/
theorem standing_execute_handle (h : Settled url dest c ∨ Stuck url dest c ∨ Lost url dest c)
    (branch : String) (hurl : call.url = url) (hdest : call.dest = dest) :
    Settled url dest (c.execute ((checkout branch).handle call)).2 ∨
      Stuck url dest (c.execute ((checkout branch).handle call)).2 ∨
      Lost url dest (c.execute ((checkout branch).handle call)).2 := by
  have more := keeps_record c.ended branch call c List.prefix_rfl
  obtain settled | stuck | lost := h
  · exact (settled.execute_handle branch hurl hdest).imp_right .inl
  · refine .inr (.inr ⟨fun added => stuck.2 fun e there => added e (more.subset there), ?_⟩)
    exact stuck.execute_handle branch hdest
  · exact .inr (.inr (lost.mono more))

end Requests

/-! ## Many requests -/

/-- What is left of a chronicle when requests are made in turn, whether they succeed or not. -/
def afterRequests (branch : String) (c : Chronicle) (calls : List Request) : Chronicle :=
  calls.foldl (fun c call => (c.execute ((checkout branch).handle call)).2) c

section AfterRequests

variable {branch : String} {start : Chronicle} {calls : List Request} {last : Request}

/-- No request leaves the three standings that a repository can have. -/
theorem standing_afterRequests
    (h : Settled url dest start ∨ Stuck url dest start ∨ Lost url dest start)
    (same : ∀ call ∈ calls, call.url = url ∧ call.dest = dest) :
    Settled url dest (afterRequests branch start calls) ∨
      Stuck url dest (afterRequests branch start calls) ∨
      Lost url dest (afterRequests branch start calls) := by
  induction calls generalizing start with
  | nil => exact h
  | cons call calls ih =>
    obtain ⟨hurl, hdest⟩ := same call List.mem_cons_self
    exact ih (standing_execute_handle h branch hurl hdest)
      fun later there => same later (List.mem_cons_of_mem call there)

/-- However the commands of the requests end, every fetch from the origin comes after the repository
has been told it, if no origin failed to be added before the last request; and if one did, a fetch
comes too early. There is nothing in the place of the repository at the start, and no directory
above `dest` is made there (`Path.place_ne_place_child`). -/
theorem fetchesToldOrigin_iff
    (tracks : Tracks start.world.respond start.world.current dest)
    (apart : ∀ q ∈ dest.ancestors,
      q.place start.world.current ≠ (metadata dest).place start.world.current)
    (free : start.world.files.lookup ((metadata dest).place start.world.current) = none)
    (unended : start.ended = [])
    (same : ∀ call ∈ calls ++ [last], call.url = url ∧ call.dest = dest) :
    FetchesToldOrigin url dest (afterRequests branch start (calls ++ [last])).ended ↔
      OriginsAdded url dest (afterRequests branch start calls).ended := by
  -- At the start there is no repository, and nothing has been carried out.
  have fresh : Settled url dest start := by
    refine ⟨.absent, nofun, ⟨tracks, apart, fun _ => free, nofun, ?_, ?_⟩, ?_⟩ <;> rw [unended]
    · exact ⟨nofun, nofun⟩
    · exact nofun
    · exact nofun
  have before : Settled url dest (afterRequests branch start calls) ∨ _ :=
    standing_afterRequests (.inl fresh) fun call there =>
      same call (List.mem_append_left [last] there)
  obtain ⟨hurl, hdest⟩ := same last (by simp)
  have steps : afterRequests branch start (calls ++ [last]) =
      ((afterRequests branch start calls).execute ((checkout branch).handle last)).2 := by
    rw [afterRequests, List.foldl_append]
    rfl
  -- The last request keeps what is settled in order. If the repository is stuck, it fetches too
  -- early, and what is lost stays so.
  rw [steps]
  obtain settled | stuck | lost := before
  · have added : OriginsAdded url dest (afterRequests branch start calls).ended := by
      obtain ⟨stage, -, -, added⟩ := settled
      exact added
    refine iff_of_true ?_ added
    obtain ⟨stage, -, later, -⟩ | ⟨later, -⟩ := settled.execute_handle branch hurl hdest
    · exact later.fetched
    · exact later.fetched
  · exact iff_of_false (stuck.execute_handle branch hdest) stuck.2
  · exact iff_of_false (lost.mono (keeps_record _ branch last _ List.prefix_rfl)).2 lost.1

end AfterRequests

/-! ## A client that cannot add an origin -/

/-- A directory that is to become a repository. -/
def smallDest : Path := ⟨"/r"⟩

/-- A client that makes a repository there, but cannot add an origin. -/
def smallClient (_ : List ToolRun) (r : ToolRun) (files : FileTree) : Response :=
  if makesRepository files [] smallDest r then
    match files.makeDirectory [] (metadata smallDest) with
    | .ok files' => ⟨files', 0, .empty, .empty⟩
    | .error _ => ⟨files, 1, .empty, .empty⟩
  else if r.arguments.head? = some "remote" then ⟨files, 1, .empty, .empty⟩
  else ⟨files, 0, .empty, .empty⟩

/-- A world with this client, in which there is something in the directory. -/
def smallStart : Chronicle where
  world :=
    { files := (FileTree.empty.set ["r"] .directory).set ["r", "xwalk"] .directory
      current := []
      tools := ["git"]
      respond := smallClient
      runs := []
      requests := [] }
  ended := []

/-- A request for the directory. -/
def smallRequest : Request :=
  .tree "http://u" smallDest none

/-- The client makes the repository, or leaves the files alone. -/
theorem smallClient_cases (runs : List ToolRun) (r : ToolRun) (files : FileTree) :
    (makesRepository files [] smallDest r = true ∧ ∃ files',
      files.makeDirectory [] (metadata smallDest) = .ok files' ∧
      smallClient runs r files = ⟨files', 0, .empty, .empty⟩) ∨
    (smallClient runs r files).files = files ∧
      (makesRepository files [] smallDest r = true → (smallClient runs r files).status ≠ 0) := by
  unfold smallClient
  split
  · next makes =>
    cases made : files.makeDirectory [] (metadata smallDest) with
    | ok files' => exact .inl ⟨makes, files', rfl, rfl⟩
    | error e => exact .inr ⟨rfl, fun _ => nofun⟩
  · next makes =>
    refine .inr ⟨?_, fun h => absurd h makes⟩
    split <;> rfl

/-- The client makes the metadata only when it initializes a repository, and then succeeds. -/
theorem tracks_smallClient : Tracks smallClient [] smallDest where
  made {runs r files} _ makes succeeds := by
    obtain ⟨-, files', made, same⟩ | ⟨-, fails⟩ := smallClient_cases runs r files
    · rw [same]
      exact FileTree.isPresent_of_isDirectory (FileTree.isDirectory_of_makeDirectory made).2
    · exact absurd succeeds (fails makes)
  kept {runs r files} _ there := by
    obtain ⟨-, files', made, same⟩ | ⟨same, -⟩ := smallClient_cases runs r files
    · rw [same]
      exact (FileTree.isDirectory_of_makeDirectory made).1.isPresent there
    · rwa [same]
  only {runs r files} _ free there := by
    obtain ⟨makes, files', -, same⟩ | ⟨same, -⟩ := smallClient_cases runs r files
    · rw [same]
      exact ⟨makes, rfl⟩
    · rw [same] at there
      exact absurd free there

/-- The origin could not be added, and the second request fetches from there. -/
theorem fetched_untold_origin :
    Tracks smallStart.world.respond smallStart.world.current smallDest ∧
    smallStart.world.files.isPresent smallStart.world.current (metadata smallDest) = false ∧
    smallStart.ended = [] ∧
    ¬FetchesToldOrigin smallRequest.url smallRequest.dest
      (afterRequests "b" smallStart [smallRequest, smallRequest]).ended := by
  refine ⟨tracks_smallClient, ?_, rfl, ?_⟩ <;> decide +kernel

/-- The first request fetches nothing, and the second one fetches from an origin that could not be
added. -/
theorem fetchesToldOrigin_iff_small :
    FetchesToldOrigin smallRequest.url smallRequest.dest
      (afterRequests "b" smallStart [smallRequest]).ended ∧
    ¬FetchesToldOrigin smallRequest.url smallRequest.dest
      (afterRequests "b" smallStart [smallRequest, smallRequest]).ended := by
  have apart (q : Path) := Path.place_ne_place_child (p := smallDest) (q := q) isEntryName_git
    smallStart.world.current (by decide)
  have free : smallStart.world.files.lookup
      ((metadata smallDest).place smallStart.world.current) = none := by
    decide +kernel
  have same : ∀ call ∈ [smallRequest, smallRequest],
      call.url = smallRequest.url ∧ call.dest = smallDest := by
    simp [smallRequest, Request.dest]
  have first : FetchesToldOrigin smallRequest.url smallDest
      (afterRequests "b" smallStart ([] ++ [smallRequest])).ended ↔ _ :=
    fetchesToldOrigin_iff tracks_smallClient apart free rfl fun call there =>
      same call (List.mem_cons_of_mem _ there)
  have second : FetchesToldOrigin smallRequest.url smallDest
      (afterRequests "b" smallStart ([smallRequest] ++ [smallRequest])).ended ↔ _ :=
    fetchesToldOrigin_iff tracks_smallClient apart free rfl same
  have failed : ¬OriginsAdded smallRequest.url smallDest
      (afterRequests "b" smallStart [smallRequest]).ended := by
    decide +kernel
  exact ⟨first.2 nofun, fun told => failed (second.1 told)⟩

end Git

end OverlaySync
