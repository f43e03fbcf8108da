import OverlaySync.Deps.SyntaxError
import OverlaySync.Files.Path
import OverlaySync.Files.Refusal

/-! # Failures

Every failure ends the run. A failure names the step that failed and what it was about;
`Failure.message` words it for the user. -/

namespace OverlaySync

/-- Why a run fails. -/
inductive Failure where
  /-- There is no manifest. -/
  | manifestNotFound (path : Path)
  /-- The manifest is not a valid one; the hint says how to mend it. -/
  | manifestMalformed (path : Path) (message : String) (hint : Option String)
  /-- The manifest has no entry for the root of the tree. -/
  | missingRootDependency (root : String) (path : Path)
  /-- The release's deps file refers to no branch. -/
  | branchNotFound (version : String) (depsFile : Path)
  /-- A diff is refused, or does not apply. -/
  | patchRefused (file message : String)
  /-- An external tool could not be started, or failed. -/
  | externalTool (tool command stderr : String)
  /-- A tool that is needed is not installed. -/
  | toolNotFound (tool message : String)
  /-- A source of the deps language is refused. -/
  | sourceRefused (position : Deps.Position) (message : String)
  /-- The file system refuses an operation. -/
  | system (e : Refusal)
  deriving DecidableEq, Repr

/-- How a failure is worded. -/
def Failure.message : Failure → String
  | manifestNotFound path => s!"Deps file does not exist ({path.text})"
  | manifestMalformed path message none => s!"Malformed deps file {path.text}: {message}"
  | manifestMalformed path message (some hint) =>
    s!"Malformed deps file {path.text}: {message}\n  hint: {hint}"
  | missingRootDependency root path => s!"'{root}' not specified in deps file ({path.text})"
  | branchNotFound version depsFile =>
    s!"No chromium branch found for release {version} in {depsFile.text}"
  | patchRefused file message => s!"Failed to apply patch to {file}: {message}"
  | externalTool tool command stderr => s!"{tool} failed: {command} - {stderr}"
  | toolNotFound tool message => s!"Can't find {tool}: {message}"
  | sourceRefused position message =>
    s!"Syntax error at line {position.line}, column {position.column}: {message}"
  | system e => s!"I/O error: {e.message}"

/-- The failure of a source that is refused. -/
def Deps.SyntaxError.toFailure (e : Deps.SyntaxError) : Failure :=
  .sourceRefused e.position e.cause.message

end OverlaySync
