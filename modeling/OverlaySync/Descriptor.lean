import OverlaySync.Manifest
import OverlaySync.Release.Places
import OverlaySync.Settings

/-! # The checkout descriptor

The descriptor is what gclient reads: the solutions that make up the checkout, each with a release
and what deviates from it, and a few settings. It is written in the deps language
(`Descriptor.render`), and made from a manifest (`Descriptor.ofManifest`). -/

namespace OverlaySync

open Deps (Value)

/-- A part of a checkout. -/
structure Solution where
  /-- Its name. -/
  name : String
  /-- Where it comes from. -/
  url : String
  /-- Dependency paths with sources of their own; nothing if the path is left out. -/
  customDeps : OrderedMap String (Option String)
  /-- Variables of its own. -/
  customVars : Option (OrderedMap String Value)
  /-- The deps file to follow, if it is not the usual one. -/
  depsFile : Option String
  deriving DecidableEq

/-- The solution in the deps language. -/
def Solution.toValue (s : Solution) : Value :=
  .dict <| Entries.ofList <|
    [("name", .str s.name), ("url", .str s.url),
      ("custom_deps", .dict (Entries.mapValues Value.ofOption s.customDeps.entries))] ++
    (s.customVars.map fun vars => ("custom_vars", Value.dict vars.entries)).toList ++
    (s.depsFile.map fun file => ("deps_file", Value.str file)).toList

/-- A checkout descriptor. -/
structure Descriptor where
  /-- The parts of the checkout. -/
  solutions : List Solution
  /-- The systems that the checkout is for. -/
  targetOs : Option (List String)
  /-- The directory where repositories are cached. -/
  cacheDir : Option String
  deriving DecidableEq

/-- What a descriptor holds besides what the manifest says. -/
structure Descriptor.Extras where
  /-- The systems that the checkout is for. -/
  targetOs : List String
  /-- The directory where repositories are cached. -/
  cacheDir : Option Path

namespace Descriptor

/-- The text of a descriptor. -/
def render (d : Descriptor) : String :=
  Deps.renderAssignment "solutions" (.list (d.solutions.map Solution.toValue)) ++
    (match d.targetOs with
      | some systems => Deps.renderAssignment "target_os" (.list (systems.map .str))
      | none => "") ++
    (match d.cacheDir with
      | some dir => Deps.renderAssignment "cache_dir" (.str dir)
      | none => "")

/-- The descriptor that a manifest makes. Ignored paths are left out. In git mode the root is left
out too, and the deps file for git is followed. -/
def ofManifest (m : Manifest) (ignores : PathSet) (transport : Transport)
    (extras : Extras) :
    Descriptor :=
  let ignored := m.ignore ignores
  let customDeps := match transport with
    | .subversion => ignored.deps
    | .git => ignored.deps.insert rootName none
  let depsFile := match transport with
    | .subversion => none
    | .git => some Release.gitDepsName
  { solutions := [{
      name := m.version
      url := Release.url m.version
      customDeps
      customVars := if m.vars.isEmpty then none else some m.vars
      depsFile }]
    targetOs := if extras.targetOs.isEmpty then none else some extras.targetOs
    cacheDir := extras.cacheDir.map Path.text }

end Descriptor

end OverlaySync
