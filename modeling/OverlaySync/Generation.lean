import OverlaySync.Descriptor
import OverlaySync.IgnorePolicy
import OverlaySync.Manifest.File
import OverlaySync.Release.GitDeps

/-! # Making the descriptor

The descriptor of an overlay project is made from its manifest and, in git mode, next to a deps file
for git. It is written last, so that a failure leaves the one before in place. -/

namespace OverlaySync

variable {m : Type → Type} [Monad m] [Host m]

/-- Write the descriptor in place of the file at `path`: all of it or nothing. -/
def Descriptor.write (d : Descriptor) (path : Path) : ExceptT Failure m Unit :=
  Host.attempt (Host.replace path d.render.toUTF8)

namespace Generation

/-- What can be asked of a run that makes a descriptor. -/
structure Options where
  /-- The manifest, if it is not the overlay project's. -/
  manifest : Option Path
  /-- The directory where repositories are cached. -/
  cacheDir : Option Path
  /-- Whether git mode is asked for. -/
  wantsGit : Bool
  /-- Whether the descriptor is only made and not written. -/
  dryRun : Bool
  deriving DecidableEq, Repr

/-- What a run made. -/
structure Product where
  /-- Where the descriptor belongs. -/
  path : Path
  /-- The descriptor. -/
  descriptor : Descriptor
  /-- In git mode, the branch that the deps file for git comes from. -/
  branch : Option String
  deriving DecidableEq

namespace Options

/-- The manifest that is read in a workspace. -/
def manifestIn (o : Options) (w : Workspace) : Path :=
  o.manifest.getD w.manifest

/-- What the descriptor holds besides what the manifest says. -/
def extras (o : Options) (s : Settings) : Descriptor.Extras where
  targetOs := if s.forAndroid then ["android"] else []
  cacheDir := o.cacheDir

end Options

/-- The failure of git mode without a checkout. -/
def checkoutMissing : Failure :=
  .toolNotFound "svn" "git mode needs a subversion client to fetch release metadata"

/-- What is done for a release before the descriptor is made. Only git mode needs anything. -/
def prepareRelease (transport : Transport) (w : Workspace) (version : String)
    (checkout : Option (Checkout m)) : ExceptT Failure m (Option String) := do
  match transport, checkout with
  | .subversion, _ => return none
  | .git, none => throw checkoutMissing
  | .git, some c => return some (← Release.makeGitDeps c (.of w version) version)

/-- Make the descriptor of a workspace. The checkout is used in git mode only, where there has to be
one. -/
def run (o : Options) (w : Workspace) (s : Settings) (checkout : Option (Checkout m)) :
    ExceptT Failure m Product := do
  let transport := s.transport o.wantsGit
  let manifest ← Manifest.ofFile (o.manifestIn w)
  let branch ← prepareRelease transport w manifest.version checkout
  let ignores := IgnorePolicy.paths s.ignoreOverride
  let descriptor := Descriptor.ofManifest manifest ignores transport (o.extras s)
  unless o.dryRun do descriptor.write w.descriptor
  return { path := w.descriptor, descriptor, branch }

end Generation

end OverlaySync
