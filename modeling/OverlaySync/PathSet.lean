import OverlaySync.OrderedMap.Basic

/-! # Sets of dependency paths -/

namespace OverlaySync

/-- A set of dependency paths, held in order. -/
abbrev PathSet := OrderedMap String Unit

namespace PathSet

/-- The set of the paths in a list. -/
def ofList (paths : List String) : PathSet :=
  OrderedMap.ofList (paths.map fun p => (p, ()))

/-- The paths, in order. -/
def toList (s : PathSet) : List String :=
  s.keys

end PathSet

end OverlaySync
