import OverlaySync.PathSet
import OverlaySync.Text.Pieces

/-! # Ignore policy

Which dependency paths are left out of the sync. Without an override these are the auxiliary build,
test and tooling trees below; an override replaces that list as a whole. -/

namespace OverlaySync.IgnorePolicy

/-- The paths that are left out without an override. -/
def standard : List String :=
  ["build",
   "build/scripts/command_wrapper/bin",
   "build/scripts/gsd_generate_index",
   "build/scripts/private/data/reliability",
   "build/scripts/tools/deps2git",
   "build/third_party/cbuildbot_chromite",
   "build/third_party/gsutil",
   "build/third_party/lighttpd",
   "build/third_party/swarm_client",
   "build/third_party/xvfb",
   "build/xvfb",
   "commit-queue",
   "depot_tools",
   "src/webkit/data/layout_tests/LayoutTests",
   "src/third_party/WebKit/LayoutTests",
   "src/content/test/data/layout_tests/LayoutTests",
   "src/chrome/tools/test/reference_build/chrome_win",
   "src/chrome_frame/tools/test/reference_build/chrome_win",
   "src/chrome/tools/test/reference_build/chrome_linux",
   "src/chrome/tools/test/reference_build/chrome_mac",
   "src/third_party/chromite",
   "src/third_party/hunspell_dictionaries",
   "src/third_party/pyelftools"]

/-- The segments of an override: what stands between colons and semicolons, which separate alike.
Empty segments are skipped. -/
def segments (override : List Char) : List (List Char) :=
  (Text.pieces ';' (override.map fun c => if c = ':' then ';' else c)).filter fun s => !s.isEmpty

/-- The paths that are left out, given an override. An empty override is none. -/
def paths (override : Option String) : PathSet :=
  match override with
  | none | some "" => PathSet.ofList standard
  | some value => PathSet.ofList ((segments value.toList).map String.ofList)

end OverlaySync.IgnorePolicy
