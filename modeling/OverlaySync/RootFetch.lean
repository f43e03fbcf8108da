import OverlaySync.Checkout.Basic
import OverlaySync.Manifest.File
import OverlaySync.Settings

/-! # Fetching the root

In git mode the root of the source tree is fetched on its own, at the revision that the manifest
pins. Outside git mode there is nothing to do, and nothing is looked at. -/

namespace OverlaySync.RootFetch

/-- Where the root is cloned from. -/
def url : String := "https://github.com/crosswalk-project/chromium-crosswalk.git"

/-- The branch that is cloned. -/
def branch : String := "master"

/-- What fetching the root did. -/
inductive Result where
  /-- Nothing: git mode is not asked for. -/
  | nothing
  /-- The root was checked out at a revision. -/
  | checkedOut (dest : Path) (revision : String)
  deriving DecidableEq, Repr

/-- The failure of a manifest that pins no revision. -/
def pointMissing (manifest : Path) : Failure :=
  let missing := Manifest.Binding.point
  .manifestMalformed manifest s!"missing binding '{missing.name}'"
    (some s!"Add `{missing.name} = {missing.example}` to fetch {rootName} through git")

/-- The request for the root at a revision. -/
def request (w : Workspace) (revision : String) : Request :=
  .tree url w.sourceRoot (some revision)

variable {m : Type → Type} [Monad m] [Host m]

/-- Fetch the root of a workspace. -/
def run (w : Workspace) (s : Settings) (wantsGit : Bool) (checkout : Checkout m) :
    ExceptT Failure m Result := do
  match s.transport wantsGit with
  | .subversion => return .nothing
  | .git =>
    let manifest ← Manifest.ofFile w.manifest
    match manifest.point with
    | none => throw (pointMissing w.manifest)
    | some revision =>
      checkout.handle (request w revision)
      return .checkedOut w.sourceRoot revision

end OverlaySync.RootFetch
