import OverlaySync.Checkout.Plan

/-! # Checkouts through subversion -/

namespace OverlaySync.Subversion

open Checkout (Plan)

/-- How the client is called. -/
def tool : String := "svn"

/-- A run of the client. -/
def command (directory : Option Path) (arguments : List String) : Command :=
  { tool, arguments, directory }

/-- How a revision is asked for. -/
def revisionArguments : Option String → List String
  | some revision => ["--revision", revision]
  | none => []

/-- What is done about a request. A destination that is a working copy is updated; otherwise the
sources are checked out anew. -/
def plan (isWorkingCopy : Bool) : Request → Plan
  | .tree url dest revision =>
    { makesParent := !isWorkingCopy
      commands :=
        if isWorkingCopy then
          [command none (["update", "--non-interactive"] ++ revisionArguments revision ++
            [dest.text])]
        else
          [command none (["checkout", "--non-interactive"] ++ revisionArguments revision ++
            [url, dest.text])] }
  | .files url dest files =>
    { makesParent := !isWorkingCopy
      commands :=
        (if isWorkingCopy then []
          else [command none
            ["checkout", "--non-interactive", "--depth", "empty", url, dest.text]]) ++
        [command (some dest) (["update", "--non-interactive"] ++ files)] }

variable {m : Type → Type} [Monad m] [Host m]

/-- The checkout that uses subversion. -/
def checkout : Checkout m where
  tool := tool
  handle request := do
    let isWorkingCopy ← Host.ask (Host.isDirectory (request.dest.child ".svn"))
    (plan isWorkingCopy request).carryOut request.dest

/-- The subversion client, if it is installed. -/
def client : ExceptT Failure m (Checkout m) := do
  if ← Host.ask (Host.isInstalled tool) then return checkout
  else throw (.toolNotFound tool
    "cannot find binary path. Install a subversion client and make sure it is on PATH")

end OverlaySync.Subversion
