import OverlaySync.Files.Path

/-! # Workspaces

The overlay project lies at `<root>/src/xwalk`. Its manifest is in it, and the descriptor belongs to
the root. -/

namespace OverlaySync

/-- The path of the root of the source tree, below the root of the checkout. -/
def rootName : String := "src"

/-- Where a run reads and writes. -/
structure Workspace where
  /-- The overlay project. -/
  overlay : Path
  /-- The root of the checkout. -/
  root : Path
  deriving DecidableEq, Repr

namespace Workspace

/-- How the manifest is called. -/
def manifestName : String := "DEPS.xwalk"

/-- How the descriptor is called. -/
def descriptorName : String := ".gclient-xwalk"

/-- The workspace of an overlay project. The root is two levels above it, or the project itself
where there are no two levels. -/
def ofOverlay (overlay : Path) : Workspace where
  overlay := overlay
  root := (overlay.parent?.bind Path.parent?).getD overlay

/-- The manifest of the overlay project. -/
def manifest (w : Workspace) : Path :=
  w.overlay.child manifestName

/-- Where the descriptor belongs. -/
def descriptor (w : Workspace) : Path :=
  w.root.child descriptorName

/-- The root of the source tree. -/
def sourceRoot (w : Workspace) : Path :=
  w.root.child rootName

end Workspace

end OverlaySync
