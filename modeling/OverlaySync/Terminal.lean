/-! # Output for a terminal

Status lines carry a marker, and paths may be bold. Both depend on whether color is used: the flag
decides if it says so, otherwise the environment does by the usual conventions, and after it the
terminal. -/

namespace OverlaySync

/-- How output looks. -/
structure OutputStyle where
  /-- Whether color is used. -/
  color : Bool
  deriving DecidableEq, Repr

namespace OutputStyle

/-- Whether the environment, or else the terminal, asks for color. -/
def wantsColor (lookup : String → Option String) (terminal : Bool) : Bool :=
  if (lookup "NO_COLOR").isSome then false
  else if lookup "CLICOLOR" = some "0" then false
  else if (lookup "CLICOLOR_FORCE").any fun v => v ≠ "0" && !v.isEmpty then true
  else if lookup "TERM" = some "dumb" then false
  else terminal

/-- The style that a color flag, an environment and a terminal make. Case does not matter in the
flag. -/
def of (flag : String) (lookup : String → Option String) (terminal : Bool) : OutputStyle :=
  match String.ofList (flag.toList.map Char.toLower) with
  | "always" => ⟨true⟩
  | "never" => ⟨false⟩
  | _ => ⟨wantsColor lookup terminal⟩

/-- One of two texts, by whether color is used. -/
def choose (s : OutputStyle) (fancy plain : String) : String :=
  if s.color then fancy else plain

/-- The marker of a step that is done. -/
def doneMark (s : OutputStyle) : String :=
  s.choose "✅" "[OK]"

/-- The marker of a step that failed. -/
def failedMark (s : OutputStyle) : String :=
  s.choose "❌" "[ERR]"

/-- The marker of a remark. -/
def remarkMark (s : OutputStyle) : String :=
  s.choose "ℹ️" "[INFO]"

/-- A text in bold, if color is used. -/
def bold (s : OutputStyle) (text : String) : String :=
  if s.color then "\x1b[1m" ++ text ++ "\x1b[0m" else text

end OutputStyle

end OverlaySync
