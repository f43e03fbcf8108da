import OverlaySync.Checkout.Basic
import OverlaySync.Files.Tree

/-! # Runs on a world

A world is all that a run can see and change: the files, the installed tools and how they behave,
and what has been asked of tools and checkouts so far. `StateM World` is a host, and what it does to
the files is what `FileTree` says. `World.execute` runs a session from a world; `execute_bind` and
the lemmas beside it say what one step after another leaves. -/

namespace OverlaySync

/-- A run of a tool that was started. -/
structure ToolRun where
  /-- The tool. -/
  tool : String
  /-- Where it ran. -/
  directory : Location
  /-- Its arguments. -/
  arguments : List String
  deriving DecidableEq, Repr

/-- What a run of a tool leaves. -/
structure Response where
  /-- The files after the run. -/
  files : FileTree
  /-- The status. -/
  status : Nat
  /-- What was written to the output. -/
  output : ByteArray
  /-- What was written to the error output. -/
  errorOutput : ByteArray

/-- The surroundings of a run, as a value. -/
structure World where
  /-- The files. -/
  files : FileTree
  /-- The current directory. -/
  current : Location
  /-- The tools that are installed. -/
  tools : List String
  /-- What a run of a tool leaves, after earlier runs and on the files at hand. -/
  respond : List ToolRun → ToolRun → FileTree → Response
  /-- The runs of tools so far. -/
  runs : List ToolRun
  /-- The requests to recorded checkouts so far. -/
  requests : List Request

namespace World

/-- The world with other files. -/
def withFiles (w : World) (files : FileTree) : World :=
  { w with files }

/-- Change the files, unless that is refused. -/
def edit (w : World) (change : Except Refusal FileTree) : Except Refusal Unit × World :=
  match change with
  | .ok files => (.ok (), w.withFiles files)
  | .error e => (.error e, w)

/-- How a change of the files ends, and the world with the files that it leaves. -/
def settle (w : World) (change : Except Refusal Unit × FileTree) : Except Refusal Unit × World :=
  (change.1, w.withFiles change.2)

/-- Where a command runs: in the current directory, or in the directory that it names. -/
def directoryOf (w : World) (c : Command) : Except Refusal Location :=
  match c.directory with
  | none => .ok w.current
  | some p => w.files.findDirectory w.current p

/-- The number of bytes that an argument of a tool may have. -/
def argumentLimit : Nat := 131071

/-- The run that a command starts, or why none is. The directory is entered before the tool is
looked for, and the tool is found before it is given its arguments. -/
def start (w : World) (c : Command) : Except Refusal ToolRun :=
  if (c.arguments ++ (c.directory.map Path.text).toList).any fun s => '\x00' ∈ s.toList then
    .error .zeroInArgument
  else do
    let directory ← w.directoryOf c
    if !w.tools.contains c.tool then .error .notFound
    else if c.arguments.any fun s => argumentLimit < s.utf8ByteSize then .error .argumentTooLong
    else .ok { tool := c.tool, directory, arguments := c.arguments }

/-- What the tool does in a run. -/
def perform (w : World) (r : ToolRun) : Exit × World :=
  let response := w.respond w.runs r w.files
  (.finished response.status response.output response.errorOutput,
    { w with files := response.files, runs := w.runs ++ [r] })

/-- Carry a command out. -/
def run (w : World) (c : Command) : Exit × World :=
  match w.start c with
  | .error e => (.notStarted e, w)
  | .ok r => w.perform r

end World

instance : Host (StateM World) where
  isPresent p := do
    let w ← get
    return w.files.isPresent w.current p
  isDirectory p := do
    let w ← get
    return w.files.isDirectory w.current p
  isOccupied p := do
    let w ← get
    return .ok (w.files.isOccupied w.current p)
  read p := do
    let w ← get
    return w.files.read w.current p
  write p content := modifyGet fun w => w.edit (w.files.write w.current p content)
  replace p content := modifyGet fun w => w.settle (w.files.replace w.current p content)
  makeDirectories p := modifyGet fun w => w.settle (w.files.makeDirectories w.current p)
  realPath p := do
    let w ← get
    return (w.files.resolve w.current p).map Location.path
  isInstalled tool := do
    let w ← get
    return w.tools.contains tool
  run c := modifyGet fun w => w.run c

/-- A run on a world: it may fail, and leaves a world in any case. -/
abbrev Session := ExceptT Failure (StateM World)

/-- What a run comes to in a world, and the world that it leaves. -/
def World.execute {α : Type} (w : World) (s : Session α) : Except Failure α × World :=
  Id.run (StateT.run (ExceptT.run s) w)

namespace World

variable {α β : Type}

@[simp] theorem execute_pure (w : World) (a : α) :
    w.execute (pure a : Session α) = (.ok a, w) := rfl

/-- A step that fails ends the run, and what it changed remains. -/
theorem execute_bind (w : World) (s : Session α) (f : α → Session β) :
    w.execute (s >>= f) =
      match w.execute s with
      | (.ok a, w') => w'.execute (f a)
      | (.error e, w') => (.error e, w') := by
  change (StateT.bind s (ExceptT.bindCont f)) w = _
  simp only [StateT.bind, execute, ExceptT.run, StateT.run, Id.run, bind]
  rcases s w with ⟨r, w'⟩
  cases r <;> rfl

@[simp] theorem execute_ask (w : World) (action : StateM World α) :
    w.execute (Host.ask action) = (.ok (action.run w).1, (action.run w).2) := rfl

@[simp] theorem execute_attempt (w : World) (action : StateM World (Except Refusal α)) :
    w.execute (Host.attempt action) =
      ((action.run w).1.mapError Failure.system, (action.run w).2) := rfl

end World

/-- The checkout on record: what it is asked for goes on the record of the world, which it cannot
change itself. -/
def Checkout.recorded (c : Checkout (StateM World)) : Checkout (StateM World) where
  tool := c.tool
  handle request := ExceptT.mk <| modifyGet fun w =>
    let (result, left) := w.execute (c.handle request)
    (result, { left with requests := w.requests ++ [request] })

end OverlaySync
