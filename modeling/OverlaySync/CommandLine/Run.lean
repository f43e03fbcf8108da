import OverlaySync.Checkout.Git
import OverlaySync.Checkout.Subversion
import OverlaySync.CommandLine.Texts
import OverlaySync.Generation
import OverlaySync.RootFetch
import OverlaySync.Terminal

/-! # Runs of the program

What the program does and prints, from its arguments and its environment. A failure ends a run with
status 1 and is reported on the error output; arguments that are not understood end it with
status 2. Log lines are left out: the level that is given with `--log-level` has to be one, and has
no other effect here. -/

namespace OverlaySync.CommandLine

/-- What a run prints, and its status. -/
structure Outcome where
  /-- The status. -/
  status : Nat
  /-- What is printed. -/
  output : String
  /-- What is printed as an error. Log lines, which go to the same place if the arguments or the
  environment ask for them, are not part of it. -/
  errorOutput : String
  deriving DecidableEq, Repr

namespace Outcome

/-- A run that succeeds. -/
def success (output : String) : Outcome :=
  { status := 0, output, errorOutput := "" }

/-- A run that fails for a reason, which may have a cause. -/
def failure (output reason : String) (cause : Option String) : Outcome :=
  let causes := match cause with
    | some text => "\n\nCaused by:\n    " ++ text
    | none => ""
  { status := 1, output, errorOutput := "Error: " ++ reason ++ causes ++ "\n" }

/-- A run that fails with an error. A refusal of the system is its own cause. -/
def ofFailure (output : String) (e : Failure) : Outcome :=
  failure output e.message <| match e with
    | .system refusal => some refusal.message
    | _ => none

/-- A run that ends before anything is done. -/
def ofStop : Stop → Outcome
  | .help scope => success (usage scope)
  | .version => success s!"{programName} {programVersion}\n"
  | .misuse scope => { status := 2, output := "", errorOutput := usage scope }

end Outcome

/-- What a run finds in its environment. -/
structure Environment where
  /-- The variables. -/
  lookup : String → Option String
  /-- Whether the output is a terminal. -/
  terminal : Bool

variable {m : Type → Type} [Monad m] [Host m]

/-- Work on the overlay project at a path, which has to be there. -/
def onOverlay (overlay : Path) (work : Workspace → m Outcome) : m Outcome := do
  match ← Host.realPath overlay with
  | .ok path => work (.ofOverlay path)
  | .error e =>
    return .failure "" s!"Cannot use {overlay.text} as the xwalk directory" (some e.message)

/-! ## Making the descriptor -/

/-- What is printed for a descriptor that is made. -/
def report (style : OutputStyle) (dryRun : Bool) (made : Generation.Product) : String :=
  let patched := match made.branch with
    | some branch =>
      s!"{style.doneMark} Patched {Release.gitDepsName} from chromium branch {branch}\n"
    | none => ""
  let verb := if dryRun then "Would place" else "Place"
  let rendered := String.ofList (Unicode.trimEnd made.descriptor.render.toList)
  patched ++ s!"{style.doneMark} {verb} {style.bold made.path.text} with solutions:\n{rendered}\n"

/-- The checkout that a transport needs. -/
def checkoutFor : Transport → ExceptT Failure m (Option (Checkout m))
  | .git => return some (← Subversion.client)
  | .subversion => return none

/-- Make the descriptor of an overlay project. -/
def generate (style : OutputStyle) (s : Settings) (overlay : Path) (options : Generation.Options) :
    m Outcome :=
  onOverlay overlay fun w => do
    match ← (checkoutFor (s.transport options.wantsGit)).run with
    | .error e => return .ofFailure "" e
    | .ok checkout =>
      match ← (Generation.run options w s checkout).run with
      | .error e =>
        return .ofFailure s!"{style.failedMark} Failed to generate {w.descriptor.text}\n" e
      | .ok made => return .success (report style options.dryRun made)

/-! ## Fetching the root -/

/-- What is printed for a root that is fetched. -/
def reportFetch (style : OutputStyle) : RootFetch.Result → String
  | .nothing => s!"{style.remarkMark} Nothing to fetch\n"
  | .checkedOut dest revision => s!"{style.doneMark} Checked out {dest.text} at {revision}\n"

/-- Fetch the root, with the git client. -/
def fetchWithGit (w : Workspace) (s : Settings) (wantsGit : Bool) :
    ExceptT Failure m RootFetch.Result := do
  let checkout ← Git.client RootFetch.branch
  RootFetch.run w s wantsGit checkout

/-- Fetch the root of an overlay project. -/
def fetchRoot (style : OutputStyle) (s : Settings) (overlay : Path) (wantsGit : Bool) : m Outcome :=
  match s.transport wantsGit with
  | .subversion =>
    return .success s!"{style.remarkMark} {Settings.gitVariable} is not set, nothing to fetch\n"
  | .git =>
    onOverlay overlay fun w => do
      match ← (fetchWithGit w s wantsGit).run with
      | .error e => return .ofFailure "" e
      | .ok fetched => return .success (reportFetch style fetched)

/-! ## The program -/

namespace Understood

/-- The style of the output. -/
def style (u : Understood) (env : Environment) : OutputStyle :=
  .of ((u.value .color).getD "auto") env.lookup env.terminal

/-- The overlay project: the current directory, unless another one is named. -/
def overlay (u : Understood) : Path :=
  ⟨(u.value .overlay).getD "."⟩

/-- What is asked of a run that makes a descriptor. -/
def generationOptions (u : Understood) : Generation.Options where
  manifest := (u.value .manifest).map Path.mk
  cacheDir := (u.value .cacheDir).map Path.mk
  wantsGit := u.isOn .wantsGit
  dryRun := u.isOn .dryRun

/-- Do what is asked for. -/
def carryOut (u : Understood) (env : Environment) : m Outcome :=
  let settings := Settings.ofLookup env.lookup
  match u.subcommand with
  | .generate => generate (u.style env) settings u.overlay u.generationOptions
  | .fetchRoot => fetchRoot (u.style env) settings u.overlay (u.isOn .wantsGit)
  | .completions =>
    match u.behind.shell with
    | some shell => return .success (completionScript shell)
    | none => return .ofStop (.misuse (.behind .completions))

end Understood

/-- Run the program. -/
def run (arguments : List String) (env : Environment) : m Outcome :=
  match read arguments with
  | .ok u => u.carryOut env
  | .error stop => return .ofStop stop

end OverlaySync.CommandLine
