import OverlaySync.Deps.File
import OverlaySync.Failure
import OverlaySync.PathSet
import OverlaySync.Workspace

/-! # The manifest of an overlay project

The manifest pins the release that the overlay is built on, and lists where dependencies come from.
It is a deps file that binds three names, and may bind a fourth one. What else it binds can be used
by these four, and is dropped. -/

namespace OverlaySync

open Deps (Value Bindings)

/-- The contents of a manifest. -/
structure Manifest where
  /-- Dependency paths and where they come from; nothing if the path is left out of the sync. -/
  deps : OrderedMap String (Option String)
  /-- Variables for the sync tool. -/
  vars : OrderedMap String Value
  /-- The release. -/
  version : String
  /-- The revision at which the root is fetched through git. -/
  point : Option String
  deriving DecidableEq

namespace Manifest

/-- The names that a manifest binds. -/
inductive Binding where
  /-- The dependencies. -/
  | deps
  /-- The variables. -/
  | vars
  /-- The release. -/
  | version
  /-- The revision of the root. -/
  | point
  deriving DecidableEq, Repr

/-- How a binding is called in the manifest. -/
def Binding.name : Binding → String
  | deps => "deps_xwalk"
  | vars => "vars_xwalk"
  | version => "chromium_version"
  | point => "chromium_crosswalk_point"

/-- The type that a binding's value has to have. -/
def Binding.kindName : Binding → String
  | deps => "dict"
  | vars => "dict"
  | version => "str"
  | point => "str"

/-- What a binding may look like. -/
def Binding.example : Binding → String
  | deps => "\x7b'src': '<url>'\x7d"
  | vars => "\x7b\x7d"
  | version => "'<release>'"
  | point => "'<revision>'"

/-- Why a source is not a manifest. -/
inductive Fault where
  /-- The source is refused. -/
  | refused (e : Deps.SyntaxError)
  /-- A binding is missing. -/
  | missing (b : Binding)
  /-- A binding has a value of another type. -/
  | wrongType (b : Binding) (found : String)
  /-- A dependency comes from something other than a text. -/
  | wrongSource (path found : String)
  /-- The release is empty. -/
  | emptyVersion
  /-- There is no entry for the root. -/
  | missingRoot
  deriving DecidableEq, Repr

/-- The failure that reports a fault of the manifest at `path`. -/
def Fault.toFailure (path : Path) : Fault → Failure
  | refused e => .manifestMalformed path e.toFailure.message none
  | missing b =>
    .manifestMalformed path s!"missing binding '{b.name}'"
      (some s!"Add `{b.name} = {b.example}` to the deps file")
  | wrongType b found =>
    .manifestMalformed path s!"'{b.name}' must be a {b.kindName}, found '{found}'" none
  | wrongSource dependency found =>
    .manifestMalformed path
      s!"'{dependency}' in {Binding.deps.name} must be a str or None, found '{found}'" none
  | emptyVersion => .manifestMalformed path s!"'{Binding.version.name}' must not be empty" none
  | missingRoot => .missingRootDependency rootName path

/-- The value of a binding. -/
def require (b : Bindings) (name : Binding) : Except Fault Value :=
  match b.get? name.name with
  | some v => .ok v
  | none => .error (.missing name)

/-- Where a dependency comes from. -/
def sourceOf (path : String) : Value → Except Fault (Option String)
  | .str url => .ok (some url)
  | .none => .ok none
  | v => .error (.wrongSource path v.kindName)

/-- The dependencies. -/
def depsOf : Value → Except Fault (OrderedMap String (Option String))
  | .dict es => do
    return OrderedMap.ofList (← es.mapM fun e => do return (e.1, ← sourceOf e.1 e.2))
  | v => .error (.wrongType .deps v.kindName)

/-- The variables. -/
def varsOf : Value → Except Fault (OrderedMap String Value)
  | .dict es => .ok (OrderedMap.ofList es)
  | v => .error (.wrongType .vars v.kindName)

/-- The release. -/
def versionOf : Value → Except Fault String
  | .str "" => .error .emptyVersion
  | .str version => .ok version
  | v => .error (.wrongType .version v.kindName)

/-- The revision of the root. -/
def pointOf : Option Value → Except Fault (Option String)
  | none | some .none => .ok none
  | some (.str point) => .ok (some point)
  | some v => .error (.wrongType .point v.kindName)

/-- The manifest that some bindings make up. Missing bindings are looked for before types, and the
root is looked for last. -/
def ofBindings (b : Bindings) : Except Fault Manifest := do
  let deps ← require b .deps
  let vars ← require b .vars
  let version ← require b .version
  let deps ← depsOf deps
  let vars ← varsOf vars
  let version ← versionOf version
  let point ← pointOf (b.get? Binding.point.name)
  if deps.contains rootName then return { deps, vars, version, point }
  else .error .missingRoot

/-- The manifest in a source, or why there is none. -/
def ofSource (source : String) : Except Fault Manifest :=
  match Deps.parse source with
  | .ok b => ofBindings b
  | .error e => .error (.refused e)

/-- The manifest in a source that stands at `path`. -/
def parse (source : String) (path : Path) : Except Failure Manifest :=
  (ofSource source).mapError (Fault.toFailure path)

/-- Where the root comes from, unless it is left out. -/
def rootSource (m : Manifest) : Option String :=
  (m.deps.get? rootName).join

/-- Leave paths out of the sync, whether the manifest lists them or not. -/
def ignore (m : Manifest) (paths : PathSet) : Manifest :=
  { m with deps := paths.toList.foldl (fun deps p => deps.insert p none) m.deps }

end Manifest

end OverlaySync
