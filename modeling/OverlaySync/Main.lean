import OverlaySync.CommandLine.Run

/-! # The program

The program runs on the file system of the machine. It starts no tools, so git mode stops where one
is needed. -/

namespace OverlaySync

/-- The refusal that an input or output error stands for. -/
def refusalOf : IO.Error → Refusal
  | .noFileOrDirectory _ _ _ => .notFound
  | .inappropriateType _ code _ => if code = 21 then .isDirectory else .notDirectory
  | .alreadyExists _ _ _ => .alreadyExists
  | .resourceBusy _ _ => .busy
  | .permissionDenied _ _ _ => .notPermitted
  | e => .other (toString e)

/-- An action together with its refusal. -/
def refusable {α : Type} (action : IO α) : IO (Except Refusal α) := do
  match ← action.toBaseIO with
  | .ok a => return .ok a
  | .error e => return .error (refusalOf e)

/-- Whether an action succeeds. -/
def succeeds {α : Type} (action : IO α) : IO Bool := do
  return (← refusable action).isOk

/-- Whether there is a directory at a path. -/
def isDirectoryAt (p : Path) : IO Bool :=
  if p.text.isEmpty then return false else succeeds (IO.FS.realPath (p.text ++ "/."))

/-- Make a file aside, fill it and move it into place. Where this fails, the file is removed. -/
def replaceFile (p : Path) (content : ByteArray) : IO Unit := do
  let aside := p.aside (← IO.rand 0 999999)
  let file ← IO.FS.Handle.mk aside.text .writeNew
  try
    file.write content
    file.flush
    IO.FS.rename aside.text p.text
  catch e =>
    IO.FS.removeFile aside.text
    throw e

instance : Host IO where
  isPresent p := succeeds (IO.FS.realPath p.text)
  isDirectory := isDirectoryAt
  isOccupied p := refusable do
    if ← isDirectoryAt p then return !(← (← IO.FS.realPath p.text).readDir).isEmpty
    else return false
  read p := refusable (IO.FS.readBinFile p.text)
  write p content := refusable (IO.FS.writeBinFile p.text content)
  replace p content := refusable (replaceFile p content)
  makeDirectories p := refusable (IO.FS.createDirAll p.text)
  realPath p := refusable do return ⟨(← IO.FS.realPath p.text).toString⟩
  isInstalled _ := return false
  run _ := return .notStarted .notPermitted

/-- The variables of the environment that a run looks up. -/
def variableNames : List String :=
  [Settings.ignoreVariable, Settings.androidVariable, Settings.gitVariable, "NO_COLOR", "CLICOLOR",
    "CLICOLOR_FORCE", "TERM"]

/-- What a run finds in its environment. -/
def environment : IO CommandLine.Environment := do
  let values ← variableNames.filterMapM fun name => do
    return (← IO.getEnv name).map fun value => (name, value)
  return { lookup := fun name => values.lookup name, terminal := ← (← IO.getStdout).isTty }

end OverlaySync

/-- Run the program on the arguments. -/
def main (arguments : List String) : IO UInt32 := do
  let outcome ← OverlaySync.CommandLine.run arguments (← OverlaySync.environment)
  IO.print outcome.output
  IO.eprint outcome.errorOutput
  return UInt32.ofNat outcome.status
