import OverlaySync.Checkout.Basic
import OverlaySync.Diff.PatchedFile
import OverlaySync.Release.Branch
import OverlaySync.Release.Places

/-! # The deps file for git

A branch's deps file for git falls behind once the branch is cut, while the release's own deps file
moves on. So it is fetched from the branch that the release refers to, brought up to date by a diff
of the overlay project, and put into the release's checkout. -/

namespace OverlaySync.Release

variable {m : Type → Type} [Monad m] [Host m]

/-- The branch that the deps file of a release refers to. -/
def branchOf (depsFile : Path) (version : String) : ExceptT Failure m String := do
  let content ← Host.attempt (Host.read depsFile)
  match branchIn content with
  | .ok (some branch) => return branch
  | .ok none => throw (.branchNotFound version depsFile)
  | .error e => throw (.system e)

/-- The request for a release. -/
def request (p : Places) (version : String) : Request :=
  .tree (url version) p.checkout none

/-- The request for the deps file for git of a branch. -/
def branchRequest (p : Places) (branch : String) : Request :=
  .files (branchUrl branch) p.branchCheckout [gitDepsName]

/-- Make the deps file for git of a release. The result is the branch that it comes from. -/
def makeGitDeps (checkout : Checkout m) (p : Places) (version : String) :
    ExceptT Failure m String := do
  checkout.handle (request p version)
  let branch ← branchOf p.deps version
  checkout.handle (branchRequest p branch)
  let diff ← Host.readText p.diff
  Diff.patchFile p.branchGitDeps diff p.gitDeps
  return branch

end OverlaySync.Release
