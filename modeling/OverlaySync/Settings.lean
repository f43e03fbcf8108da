/-! # Settings from the environment

Three variables of the environment tune a run. They are looked up once. -/

namespace OverlaySync

/-- How chromium's own dependencies are fetched. -/
inductive Transport where
  /-- By the release's deps file, through subversion. -/
  | subversion
  /-- By the branch's deps file for git; the root is fetched on its own. This is git mode. -/
  | git
  deriving DecidableEq, Repr

/-- The settings of a run. -/
structure Settings where
  /-- The override of the ignore policy, if it is set and not empty. -/
  ignoreOverride : Option String
  /-- Whether the checkout is for Android. -/
  forAndroid : Bool
  /-- Whether git mode is asked for. -/
  wantsGit : Bool
  deriving DecidableEq, Repr

namespace Settings

/-- The variable with the override of the ignore policy. -/
def ignoreVariable : String := "XWALK_SYNC_IGNORE"

/-- The variable that, when not empty, makes the checkout one for Android. -/
def androidVariable : String := "XWALK_OS_ANDROID"

/-- The variable that, when set, asks for git mode. -/
def gitVariable : String := "XWALK_USE_GIT"

/-- The settings that an environment makes. -/
def ofLookup (lookup : String → Option String) : Settings where
  ignoreOverride := (lookup ignoreVariable).filter fun v => !v.isEmpty
  forAndroid := (lookup androidVariable).any fun v => !v.isEmpty
  wantsGit := (lookup gitVariable).isSome

/-- The transport of a run: git if the environment or the caller asks for it. -/
def transport (s : Settings) (wantsGit : Bool) : Transport :=
  if wantsGit || s.wantsGit then .git else .subversion

end Settings

end OverlaySync
