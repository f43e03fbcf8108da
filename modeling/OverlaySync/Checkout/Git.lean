import OverlaySync.Checkout.Plan

/-! # Checkouts through git

Every request first obtains the branch that is followed, and then checks out what is asked for. -/

namespace OverlaySync.Git

open Checkout (Plan)

/-- How the client is called. -/
def tool : String := "git"

/-- What can be at a destination. -/
inductive Destination where
  /-- A repository. -/
  | repository
  /-- A directory that is not empty, and no repository. -/
  | occupied
  /-- Nothing, or an empty directory, or something that is no directory. -/
  | vacant
  deriving DecidableEq, Repr

/-- A run of the client in a destination. -/
def commandIn (dest : Path) (arguments : List String) : Command :=
  { tool, arguments, directory := some dest }

/-- The name of the branch's tip, once the branch has been obtained. -/
def tip (branch : String) : Destination → String
  | .repository | .occupied => "origin/" ++ branch
  | .vacant => branch

/-- The commands that obtain a branch. A directory with other content becomes a repository in place,
since only an empty one can be cloned into. -/
def obtain (branch url : String) (dest : Path) (filesOnly : Bool) : Destination → List Command
  | .repository => [commandIn dest ["fetch", "--quiet", "origin"]]
  | .occupied =>
    [commandIn dest ["init", "--quiet"],
      commandIn dest ["remote", "add", "origin", url],
      commandIn dest ["fetch", "--quiet", "origin", branch]]
  | .vacant =>
    [{ tool
       arguments := ["clone", "--quiet", "--branch", branch] ++
         (if filesOnly then ["--no-checkout"] else []) ++ [url, dest.text]
       directory := none }]

/-- What is done about a request: the branch is obtained, and then what is asked for is checked
out. -/
def plan (branch : String) (found : Destination) : Request → Plan
  | .tree url dest revision =>
    { makesParent := found = .vacant
      commands := obtain branch url dest false found ++
        [commandIn dest ["checkout", "--force", "--quiet", revision.getD (tip branch found)]] }
  | .files url dest files =>
    { makesParent := found = .vacant
      commands := obtain branch url dest true found ++
        [commandIn dest (["checkout", tip branch found, "--"] ++ files)] }

variable {m : Type → Type} [Monad m] [Host m]

/-- What is at a destination. -/
def inspect (dest : Path) : ExceptT Failure m Destination := do
  if ← Host.ask (Host.isPresent (dest.child ".git")) then return .repository
  else if ← Host.attempt (Host.isOccupied dest) then return .occupied
  else return .vacant

/-- The checkout that uses git and follows a branch. -/
def checkout (branch : String) : Checkout m where
  tool := tool
  handle request := do
    let found ← inspect request.dest
    (plan branch found request).carryOut request.dest

/-- The git client, if it is installed. -/
def client (branch : String) : ExceptT Failure m (Checkout m) := do
  if ← Host.ask (Host.isInstalled tool) then return checkout branch
  else throw (.toolNotFound tool
    "cannot find binary path. Install git and make sure it is on PATH")

end OverlaySync.Git
