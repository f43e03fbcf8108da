import OverlaySync.Proofs.Checkout.Repositories
import OverlaySync.Proofs.Release.WorkingCopies

/-! # Requests as plans

A request is carried out as one plan, which is chosen from what is at the destination when the
request comes. Its commands may change the destination, and the plan stays the same. They are
carried out in turn up to the first that does not succeed, and its failure is that of the request.
What the commands of a plan are is said apart from it, by `Subversion.Brings` and `Git.Obtains`.

Main statement: `execute_handle_plan`. -/

namespace OverlaySync

/-! ## Where commands stop -/

namespace Chronicle

end Chronicle

/-! ## The plans of both clients -/

namespace Checkout

/-- The clients. -/
inductive Client where
  /-- Subversion. -/
  | subversion
  /-- Git, following a branch. -/
  | git (branch : String)

namespace Client

/-- The checkout that uses the client. -/
def checkout : Client → Checkout (StateM Chronicle)
  | subversion => Subversion.checkout
  | git branch => Git.checkout branch

/-- The plan for a request, chosen from what is at its destination: for subversion, whether there
is a working copy; for git, whether there is a repository, or else a directory with something in
it. -/
def plan (c : Chronicle) (call : Request) : Client → Plan
  | subversion => Subversion.plan (Subversion.found c call.dest) call
  | git branch => Git.plan branch (Git.found c call.dest) call

/-- Either client looks at what is at the destination, which fixes the plan, and then carries the
plan out. -/
theorem execute_handle (client : Client) (c : Chronicle) (call : Request) :
    c.execute (client.checkout.handle call) =
      c.execute ((client.plan c call).carryOut call.dest) := by
  cases client with
  | subversion => exact Subversion.execute_handle c call
  | git branch => exact Git.execute_handle c branch call

end Client

end Checkout

end OverlaySync
