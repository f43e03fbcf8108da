import OverlaySync.Diff.Application
import OverlaySync.Host.Basic

/-! # Patching files -/

namespace OverlaySync.Diff

variable {m : Type → Type} [Monad m] [Host m]

/-- Apply a diff to the file `source` and write the result to `dest`. The diff is read before the
file. -/
def patchFile (source : Path) (diff : String) (dest : Path) : ExceptT Failure m Unit := do
  let name := source.fileName?.getD ""
  match FileDiff.parse name diff with
  | .error f => throw (.patchRefused name f.message)
  | .ok d =>
    let content ← Host.readText source
    match d.apply content with
    | .error f => throw (.patchRefused name f.message)
    | .ok patched => Host.writeText dest patched

end OverlaySync.Diff
