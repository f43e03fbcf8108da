import OverlaySync.Checkout.Plan
import OverlaySync.Proofs.Host.Sessions

/-! # Chronicles

A chronicle is a world, and the commands that have been carried out in it with how they have ended.
It is a host as well, so sessions run on it as they do on a world, and what they keep of a chronicle
they keep in the long run (`Chronicle.Keeps`). -/

namespace OverlaySync

variable {α β : Type}

/-- The command has ended well. -/
def Exit.succeeded : Exit → Bool
  | .finished 0 _ _ => true
  | _ => false

/-- There is no failure exactly if the command has succeeded. -/
theorem Checkout.failureOf?_eq_none_iff {c : Command} {exit : Exit} :
    failureOf? c exit = none ↔ exit.succeeded = true := by
  cases exit with
  | notStarted reason => exact ⟨nofun, nofun⟩
  | finished status output errorOutput =>
    cases status with
    | zero => exact ⟨fun _ => rfl, fun _ => rfl⟩
    | succ n => exact ⟨nofun, nofun⟩

/-- A run that is started is the command's own. -/
theorem World.start_eq_ok {w : World} {command : Command} {r : ToolRun}
    (h : w.start command = .ok r) :
    r.tool = command.tool ∧ r.arguments = command.arguments ∧
      w.directoryOf command = .ok r.directory := by
  rw [start] at h
  split at h
  · cases h
  obtain ⟨directory, entered, h⟩ := Outcome.bind_eq_ok_iff.1 h
  split at h
  · cases h
  split at h
  · cases h
  cases h
  exact ⟨rfl, rfl, entered⟩

/-- A world, and how the commands in it have ended. -/
structure Chronicle where
  /-- The world. -/
  world : World
  /-- The commands, in order, and how each has ended. -/
  ended : List (Command × Exit)

namespace Chronicle

/-- Do in the world what is no command. -/
def within (action : StateM World α) : StateM Chronicle α :=
  modifyGet fun c =>
    let (a, world) := action.run c.world
    (a, { c with world })

/-- Carry a command out and note how it ends. -/
def run (c : Chronicle) (command : Command) : Exit × Chronicle :=
  let (exit, world) := c.world.run command
  (exit, { world, ended := c.ended ++ [(command, exit)] })

end Chronicle

instance : Host (StateM Chronicle) where
  isPresent p := Chronicle.within (Host.isPresent p)
  isDirectory p := Chronicle.within (Host.isDirectory p)
  isOccupied p := Chronicle.within (Host.isOccupied p)
  read p := Chronicle.within (Host.read p)
  write p content := Chronicle.within (Host.write p content)
  replace p content := Chronicle.within (Host.replace p content)
  makeDirectories p := Chronicle.within (Host.makeDirectories p)
  realPath p := Chronicle.within (Host.realPath p)
  isInstalled tool := Chronicle.within (Host.isInstalled tool)
  run command := modifyGet fun c => c.run command

/-- A session on a chronicle. -/
abbrev ChronicledSession := ExceptT Failure (StateM Chronicle)

namespace Chronicle

/-- What a session comes to, and the chronicle that it leaves. -/
def execute (c : Chronicle) (s : ChronicledSession α) : Except Failure α × Chronicle :=
  Id.run (StateT.run (ExceptT.run s) c)

/-- What an action comes to, and the chronicle that it leaves. -/
def act (c : Chronicle) (action : StateM Chronicle α) : α × Chronicle :=
  Id.run (StateT.run action c)

/-- The second action starts from the chronicle that the first one leaves. -/
theorem act_bind (c : Chronicle) (action : StateM Chronicle α) (f : α → StateM Chronicle β) :
    c.act (action >>= f) = (c.act action).2.act (f (c.act action).1) := rfl

/-- A session that is run as an action comes to the same. -/
theorem act_run (c : Chronicle) (s : ChronicledSession α) : c.act s.run = c.execute s := rfl

/-- A step that fails ends the session. -/
theorem execute_bind (c : Chronicle) (s : ChronicledSession α) (f : α → ChronicledSession β) :
    c.execute (s >>= f) =
      match c.execute s with
      | (.ok a, c') => c'.execute (f a)
      | (.error e, c') => (.error e, c') := by
  change (StateT.bind s (ExceptT.bindCont f)) c = _
  simp only [StateT.bind, execute, ExceptT.run, StateT.run, Id.run, bind]
  rcases s c with ⟨_ | _, c'⟩ <;> rfl

@[simp] theorem execute_pure (c : Chronicle) (a : α) : c.execute (pure a) = (.ok a, c) := rfl

/-- A command that has to succeed is carried out, and its failure is the session's. -/
theorem execute_runCommand (c : Chronicle) (command : Command) :
    c.execute (Checkout.runCommand command) =
      match Checkout.failureOf? command (c.run command).1 with
      | none => (.ok (), (c.run command).2)
      | some e => (.error e, (c.run command).2) := by
  have ran : c.execute (Host.ask (Host.run command)) = (.ok (c.run command).1, (c.run command).2) :=
    rfl
  unfold Checkout.runCommand
  rw [execute_bind, ran]
  dsimp only
  cases Checkout.failureOf? command (c.run command).1 <;> rfl

@[simp] theorem ended_run (c : Chronicle) (command : Command) :
    (c.run command).2.ended = c.ended ++ [(command, (c.run command).1)] := rfl

/-- No command changes the working directory. -/
@[simp] theorem current_run (c : Chronicle) (command : Command) :
    (c.run command).2.world.current = c.world.current := by
  change (c.world.run command).2.current = _
  rw [World.run]
  split <;> rfl

/-- No command changes how the tools behave. -/
@[simp] theorem respond_run (c : Chronicle) (command : Command) :
    (c.run command).2.world.respond = c.world.respond := by
  change (c.world.run command).2.respond = _
  rw [World.run]
  split <;> rfl

/-- A command is not started and changes nothing, or it is what the world responds to. -/
theorem run_cases (c : Chronicle) (command : Command) :
    ((c.run command).1.succeeded = false ∧ (c.run command).2.world = c.world) ∨
      ∃ r, r.tool = command.tool ∧ r.arguments = command.arguments ∧
        c.world.directoryOf command = .ok r.directory ∧
        ((c.run command).1.succeeded = true ↔
          (c.world.respond c.world.runs r c.world.files).status = 0) ∧
        (c.run command).2.world =
          { c.world with
            files := (c.world.respond c.world.runs r c.world.files).files
            runs := c.world.runs ++ [r] } := by
  have left : c.run command = ((c.world.run command).1,
      ⟨(c.world.run command).2, c.ended ++ [(command, (c.world.run command).1)]⟩) := rfl
  rw [left, World.run]
  cases started : c.world.start command with
  | error e => exact .inl ⟨rfl, rfl⟩
  | ok r =>
    obtain ⟨htool, harguments, hdirectory⟩ := World.start_eq_ok started
    refine .inr ⟨r, htool, harguments, hdirectory, ?_, rfl⟩
    change (Exit.finished (c.world.respond c.world.runs r c.world.files).status _ _).succeeded =
      true ↔ _
    cases (c.world.respond c.world.runs r c.world.files).status with
    | zero => exact ⟨fun _ => rfl, fun _ => rfl⟩
    | succ n => exact ⟨nofun, nofun⟩

/-! ## Commands in a row -/

/-- How commands that have to succeed are carried out in turn: one that fails is the last one, and
its failure is what they come to. -/
inductive Carried : List Command → List (Command × Exit) → Except Failure Unit → Prop where
  /-- There are no commands left. -/
  | nil : Carried [] [] (.ok ())
  /-- A command fails. -/
  | stop {command : Command} {exit : Exit} {e : Failure} (commands : List Command)
      (fails : Checkout.failureOf? command exit = some e) :
      Carried (command :: commands) [(command, exit)] (.error e)
  /-- A command succeeds, and those behind it are carried out. -/
  | step {command : Command} {exit : Exit} {commands : List Command}
      {ran : List (Command × Exit)} {result : Except Failure Unit}
      (succeeds : exit.succeeded = true) (rest : Carried commands ran result) :
      Carried (command :: commands) ((command, exit) :: ran) result

/-- What is left when commands are carried out in turn, however they end. -/
def afterCommands (c : Chronicle) (commands : List Command) : Chronicle :=
  commands.foldl (fun c command => (c.run command).2) c

/-- This is how commands are carried out, and what they leave. -/
theorem carried_forM_runCommand (c : Chronicle) (commands : List Command) :
    ∃ ran, (c.execute (commands.forM Checkout.runCommand)).2 = c.afterCommands (ran.map Prod.fst) ∧
      (c.execute (commands.forM Checkout.runCommand)).2.ended = c.ended ++ ran ∧
      Carried commands ran (c.execute (commands.forM Checkout.runCommand)).1 := by
  induction commands generalizing c with
  | nil => exact ⟨[], rfl, (List.append_nil _).symm, .nil⟩
  | cons command commands ih =>
    have steps : c.execute ((command :: commands).forM Checkout.runCommand) =
        c.execute (do Checkout.runCommand command; commands.forM Checkout.runCommand) := rfl
    rw [steps, execute_bind, execute_runCommand]
    cases failure : Checkout.failureOf? command (c.run command).1 with
    | some e => exact ⟨[(command, (c.run command).1)], rfl, rfl, .stop commands failure⟩
    | none =>
      obtain ⟨ran, left, ended, rest⟩ := ih (c.run command).2
      refine ⟨(command, (c.run command).1) :: ran, left, ?_, ?_⟩
      · rw [ended, ended_run, List.append_assoc]
        rfl
      · exact .step (Checkout.failureOf?_eq_none_iff.1 failure) rest

/-- Either one of the commands in front fails, or all of them have been carried out and it is the
last one that decides. -/
theorem Carried.concat_cases {front : List Command} {last : Command} {ran : List (Command × Exit)}
    {result : Except Failure Unit} (h : Carried (front ++ [last]) ran result) :
    (ran.map Prod.fst <+: front ∧ ∃ e, result = .error e) ∨
      ∃ before exit, ran = before ++ [(last, exit)] ∧ before.map Prod.fst = front ∧
        (result = .ok () ↔ exit.succeeded = true) := by
  induction front generalizing ran with
  | nil =>
    refine .inr ⟨[], ?_⟩
    cases h with
    | stop commands fails =>
      refine ⟨_, rfl, rfl, nofun, fun succeeds => ?_⟩
      rw [Checkout.failureOf?_eq_none_iff.2 succeeds] at fails
      cases fails
    | step succeeds rest =>
      cases rest
      exact ⟨_, rfl, rfl, fun _ => succeeds, fun _ => rfl⟩
  | cons command front ih =>
    cases h with
    | stop commands fails => exact .inl ⟨⟨front, rfl⟩, _, rfl⟩
    | step succeeds rest =>
      obtain ⟨short, failed⟩ | ⟨before, exit, rfl, rfl, decides⟩ := ih rest
      · exact .inl ⟨List.cons_prefix_cons.2 ⟨rfl, short⟩, failed⟩
      · exact .inr ⟨_ :: before, exit, rfl, rfl, decides⟩

end Chronicle

/-- What comes of making the directory above the destination, if the plan asks for it. -/
def Checkout.Plan.prepare (plan : Plan) (dest : Path) (w : World) :
    Except Refusal Unit × FileTree :=
  match plan.makesParent, dest.parent? with
  | true, some parent => w.files.makeDirectories w.current parent
  | _, _ => (.ok (), w.files)

namespace Chronicle

/-- The directory above the destination is made first. If this fails, no command is carried out. -/
theorem execute_carryOut (c : Chronicle) (plan : Checkout.Plan) (dest : Path) :
    c.execute (plan.carryOut dest) =
      match plan.prepare dest c.world with
      | (.error e, files) => (.error (.system e), { c with world := c.world.withFiles files })
      | (.ok (), files) =>
        execute { c with world := c.world.withFiles files }
          (plan.commands.forM Checkout.runCommand) := by
  rw [Checkout.Plan.carryOut, Checkout.Plan.prepare]
  cases plan.makesParent with
  | false => rfl
  | true =>
    rw [if_pos rfl, execute_bind, Checkout.makeParent]
    cases dest.parent? with
    | none => rfl
    | some parent =>
      have made : c.execute (Host.attempt (Host.makeDirectories parent)) =
          ((c.world.files.makeDirectories c.world.current parent).1.mapError Failure.system,
            { c with world :=
              c.world.withFiles (c.world.files.makeDirectories c.world.current parent).2 }) := rfl
      dsimp only
      rw [made]
      rcases c.world.files.makeDirectories c.world.current parent with ⟨_ | _, files⟩ <;> rfl

/-- A plan is carried out as its commands are, or it fails before the first one. -/
theorem carried_carryOut (c : Chronicle) (plan : Checkout.Plan) (dest : Path) :
    ∃ ran, (c.execute (plan.carryOut dest)).2.ended = c.ended ++ ran ∧
      (Carried plan.commands ran (c.execute (plan.carryOut dest)).1 ∨
        ran = [] ∧ ∃ e, (c.execute (plan.carryOut dest)).1 = .error e) := by
  rw [execute_carryOut]
  rcases plan.prepare dest c.world with ⟨e | _, files⟩
  · exact ⟨[], (List.append_nil _).symm, .inr ⟨rfl, _, rfl⟩⟩
  · obtain ⟨ran, -, ended, carried⟩ :=
      carried_forM_runCommand { c with world := c.world.withFiles files } plan.commands
    exact ⟨ran, ended, .inl carried⟩

/-! ## Sessions without commands -/

/-- What the session comes to and does in the world is what the other one does there, and it carries
out no command. -/
def Mirrors (s : ChronicledSession α) (s' : Session α) : Prop :=
  ∀ c : Chronicle, c.execute s =
    ((c.world.execute s').1, { c with world := (c.world.execute s').2 })

namespace Mirrors

/-- To do nothing is the same in both. -/
theorem pure (a : α) : Mirrors (Pure.pure a) (Pure.pure a) := fun _ => rfl

/-- A failure is the same in both. -/
theorem throw (e : Failure) :
    Mirrors (MonadExcept.throw e : ChronicledSession α) (MonadExcept.throw e) := fun _ => rfl

/-- What a computation has come to is the same in both. -/
theorem ofExcept (x : Except Failure α) :
    Mirrors (MonadExcept.ofExcept x) (MonadExcept.ofExcept x) := by
  cases x with
  | error e => exact throw e
  | ok a => exact pure a

/-- An action of the world changes the world alone. -/
theorem ask (action : StateM World α) : Mirrors (Host.ask (within action)) (Host.ask action) :=
  fun _ => rfl

/-- An action that can be refused changes the world alone. -/
theorem attempt (action : StateM World (Except Refusal α)) :
    Mirrors (Host.attempt (within action)) (Host.attempt action) := fun _ => rfl

/-- Two sessions in a row mirror two others, if the second does for every value of the first. -/
theorem bind {s : ChronicledSession α} {s' : Session α} {f : α → ChronicledSession β}
    {f' : α → Session β} (first : Mirrors s s') (rest : ∀ a, Mirrors (f a) (f' a)) :
    Mirrors (s >>= f) (s' >>= f') := by
  intro c
  rw [execute_bind, World.execute_bind, first c]
  rcases c.world.execute s' with ⟨_ | a, w⟩
  · rfl
  · exact rest a _

/-- A text is read without commands. -/
theorem readText (p : Path) : Mirrors (Host.readText p) (Host.readText p) := by
  refine .bind (.attempt _) fun content => ?_
  split
  · exact .pure _
  · exact .throw _

/-- A manifest is read without commands. -/
theorem ofFile (p : Path) : Mirrors (Manifest.ofFile p) (Manifest.ofFile p) := by
  refine .bind (.ask _) fun there => ?_
  split
  · exact .bind (.readText p) fun source => .ofExcept _
  · exact .throw _

end Mirrors

/-- A manifest is read, and nothing changes. -/
theorem execute_ofFile (c : Chronicle) (p : Path) :
    c.execute (Manifest.ofFile p) = ((c.world.execute (Manifest.ofFile p)).1, c) := by
  rw [Mirrors.ofFile p c, readsOnly_ofFile p c.world]

/-- A descriptor that is written takes the place of the file, or nothing changes. -/
theorem execute_writeDescriptor (c : Chronicle) (d : Descriptor) (p : Path) :
    (∃ e, c.execute (d.write p) = (.error e, c)) ∨
      ∃ l files, c.world.files.Puts c.world.current p d.render.toUTF8 l files ∧
        c.execute (d.write p) = (.ok (), { c with world := c.world.withFiles files }) := by
  have same : Mirrors (d.write p) (d.write p) := .attempt _
  rw [same c]
  obtain ⟨e, h⟩ | ⟨l, files, puts, h⟩ := c.world.execute_writeDescriptor d p <;> rw [h]
  · exact .inl ⟨e, rfl⟩
  · exact .inr ⟨l, files, puts, rfl⟩

/-! ## What sessions keep -/

/-- However the session ends, it keeps a property of chronicles. -/
def Keeps (holds : Chronicle → Prop) (s : ChronicledSession α) : Prop :=
  ∀ c, holds c → holds (c.execute s).2

namespace Keeps

variable {holds : Chronicle → Prop}

/-- To do nothing keeps everything. -/
theorem pure (a : α) : Keeps holds (Pure.pure a : ChronicledSession α) := fun _ h => h

/-- To fail at once keeps everything. -/
theorem throw (e : Failure) : Keeps holds (MonadExcept.throw e : ChronicledSession α) :=
  fun _ h => h

/-- An action keeps what it keeps in every chronicle. -/
theorem ask {action : StateM Chronicle α} (kept : ∀ c, holds c → holds (action.run c).2) :
    Keeps holds (Host.ask action) := kept

/-- An action that can be refused keeps what it keeps in every chronicle, whether it is refused or
not. -/
theorem attempt {action : StateM Chronicle (Except Refusal α)}
    (kept : ∀ c, holds c → holds (action.run c).2) : Keeps holds (Host.attempt action) := kept

/-- Two sessions in a row keep what each of them keeps; behind a failure of the first there is no
second. -/
theorem bind {s : ChronicledSession α} {f : α → ChronicledSession β} (first : Keeps holds s)
    (rest : ∀ a, Keeps holds (f a)) : Keeps holds (s >>= f) := by
  intro c h
  have first := first c h
  rw [execute_bind]
  rcases hr : c.execute s with ⟨r, c'⟩
  rw [hr] at first
  cases r with
  | error e => exact first
  | ok a => exact rest a c' first

/-- Reading a text keeps everything. -/
theorem readText (p : Path) : Keeps holds (Host.readText (m := StateM Chronicle) p) := by
  refine .bind (.attempt fun _ h => h) fun content => ?_
  split
  · exact .pure _
  · exact .throw _

/-- Looking for a branch keeps everything. -/
theorem branchOf (p : Path) (version : String) :
    Keeps holds (Release.branchOf (m := StateM Chronicle) p version) := by
  refine .bind (.attempt fun _ h => h) fun content => ?_
  split
  · exact .pure _
  · exact .throw _
  · exact .throw _

/-- A command that has to succeed keeps what carrying it out keeps, also if it fails. -/
theorem runCommand {command : Command} (kept : ∀ c, holds c → holds (c.run command).2) :
    Keeps holds (Checkout.runCommand command) := by
  intro c h
  rw [execute_runCommand]
  split
  · exact kept c h
  · exact kept c h

/-- Commands keep what each of them keeps: they stop at a failure, and what has been kept so far is
kept. -/
theorem forM_runCommand {commands : List Command}
    (kept : ∀ command ∈ commands, ∀ c, holds c → holds (c.run command).2) :
    Keeps holds (commands.forM Checkout.runCommand) := by
  induction commands with
  | nil => exact .pure ()
  | cons command commands ih =>
    exact .bind (.runCommand (kept command List.mem_cons_self)) fun _ =>
      ih fun later there => kept later (List.mem_cons_of_mem command there)

/-- A text that is written is put somewhere, or nothing changes. -/
theorem writeText {p : Path} {text : String}
    (kept : ∀ c, holds c → ∀ l files, c.world.files.Puts c.world.current p text.toUTF8 l files →
      holds { c with world := c.world.withFiles files }) :
    Keeps holds (Host.writeText p text) := by
  refine .attempt fun c h => ?_
  change holds
    { c with world := (c.world.edit (c.world.files.write c.world.current p text.toUTF8)).2 }
  cases written : c.world.files.write c.world.current p text.toUTF8 with
  | error e => exact h
  | ok files =>
    obtain ⟨l, puts⟩ := FileTree.puts_of_write written
    exact kept c h l files puts

/-- Directories are made above a destination, if there is anything above it. -/
theorem makeParent {dest : Path}
    (kept : ∀ parent, dest.parent? = some parent → ∀ c, holds c →
      holds { c with world :=
        c.world.withFiles (c.world.files.makeDirectories c.world.current parent).2 }) :
    Keeps holds (Checkout.makeParent dest) := by
  unfold Checkout.makeParent
  split
  · next parent hparent => exact .attempt (kept parent hparent)
  · exact .pure ()

/-- A plan makes a parent if it asks for one, and carries out its commands. -/
theorem carryOut {plan : Checkout.Plan} {dest : Path}
    (parent : Keeps holds (Checkout.makeParent dest))
    (kept : ∀ command ∈ plan.commands, ∀ c, holds c → holds (c.run command).2) :
    Keeps holds (plan.carryOut dest) := by
  unfold Checkout.Plan.carryOut
  split
  · exact .bind parent fun _ => .forM_runCommand kept
  · exact .forM_runCommand kept

/-- A file that is patched changes nothing but the file that is written. -/
theorem patchFile (source : Path) (diff : String) {dest : Path}
    (kept : ∀ text, Keeps holds (Host.writeText dest text)) :
    Keeps holds (Diff.patchFile source diff dest) := by
  unfold Diff.patchFile
  dsimp only
  split
  · exact .throw _
  · refine .bind (.readText source) fun content => ?_
    split
    · exact .throw _
    · exact kept _

end Keeps

end Chronicle

end OverlaySync
