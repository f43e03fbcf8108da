import OverlaySync.Workspace

/-! # Where a release is

The addresses of a release and of its branch, and the places of their checkouts below the root. -/

namespace OverlaySync.Release

/-- The deps file of a release. -/
def depsName : String := "DEPS"

/-- The deps file for git, of a branch and of a release. -/
def gitDepsName : String := ".DEPS.git"

/-- The diff that brings a branch's deps file for git up to date, in the overlay project. -/
def diffName : String := "tools/DEPS_git.diff"

/-- The checkout of a branch, in that of a release. -/
def branchCheckoutName : String := "deps_git"

/-- The address of a release. -/
def url (version : String) : String :=
  "http://src.chromium.org/svn/releases/" ++ version

/-- The address of the sources of a branch. -/
def branchUrl (branch : String) : String :=
  "http://src.chromium.org/svn/branches/" ++ branch ++ "/src/"

/-- Where the deps file for git of a release is made. -/
structure Places where
  /-- The checkout of the release. -/
  checkout : Path
  /-- The checkout of its branch. -/
  branchCheckout : Path
  /-- The diff. -/
  diff : Path
  /-- The deps file for git that is made. -/
  gitDeps : Path
  deriving DecidableEq, Repr

namespace Places

/-- The places of a release, for an overlay project and a root. -/
def of (w : Workspace) (version : String) : Places :=
  let checkout := w.root.child version
  { checkout
    branchCheckout := checkout.child branchCheckoutName
    diff := w.overlay.child diffName
    gitDeps := checkout.child gitDepsName }

/-- The release's own deps file. -/
def deps (p : Places) : Path :=
  p.checkout.child depsName

/-- The deps file for git as the branch has it. -/
def branchGitDeps (p : Places) : Path :=
  p.branchCheckout.child gitDepsName

end Places

end OverlaySync.Release
