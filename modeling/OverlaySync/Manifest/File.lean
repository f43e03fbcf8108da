import OverlaySync.Host.Basic
import OverlaySync.Manifest

/-! # Manifest files -/

namespace OverlaySync.Manifest

variable {m : Type → Type} [Monad m] [Host m]

/-- The manifest in a file. That there is none is a failure of its own. -/
def ofFile (path : Path) : ExceptT Failure m Manifest := do
  if ← Host.ask (Host.isPresent path) then
    let source ← Host.readText path
    MonadExcept.ofExcept (parse source path)
  else throw (.manifestNotFound path)

end OverlaySync.Manifest
