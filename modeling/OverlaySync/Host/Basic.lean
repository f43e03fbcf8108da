import OverlaySync.Failure
import OverlaySync.Unicode.Utf8

/-! # What a run asks of its surroundings

A run reads and writes files and runs tools. It does so through a `Host`, so that it is the same
definition that works on a file system and that is reasoned about on a `World`. -/

namespace OverlaySync

/-- A run of a tool. -/
structure Command where
  /-- The tool. -/
  tool : String
  /-- Its arguments. -/
  arguments : List String
  /-- The directory to run it in, if not the current one. -/
  directory : Option Path
  deriving DecidableEq, Repr

/-- How a command is worded. -/
def Command.line (c : Command) : String :=
  c.tool ++ " " ++ " ".intercalate c.arguments

/-- How a run of a tool ends. -/
inductive Exit where
  /-- The tool could not be started. -/
  | notStarted (reason : Refusal)
  /-- The tool ended with a status, having written to its outputs. -/
  | finished (status : Nat) (output errorOutput : ByteArray)

/-- The surroundings of a run. Relative paths start at its current directory. -/
class Host (m : Type → Type) where
  /-- Whether there is something at a path. -/
  isPresent : Path → m Bool
  /-- Whether there is a directory at a path. -/
  isDirectory : Path → m Bool
  /-- Whether there is a directory at a path, and something in it. -/
  isOccupied : Path → m (Except Refusal Bool)
  /-- The content of a file. -/
  read : Path → m (Except Refusal ByteArray)
  /-- Write a file, in the directory that holds it. -/
  write : Path → ByteArray → m (Except Refusal Unit)
  /-- Write a file aside and move it into place: all of it or nothing. -/
  replace : Path → ByteArray → m (Except Refusal Unit)
  /-- Make a directory, and the directories above it that are missing. -/
  makeDirectories : Path → m (Except Refusal Unit)
  /-- The path from the root that leads to the same place. There has to be something. -/
  realPath : Path → m (Except Refusal Path)
  /-- Whether a tool is installed. -/
  isInstalled : String → m Bool
  /-- Run a tool and wait for its end. -/
  run : Command → m Exit

namespace Host

variable {m : Type → Type} [Monad m] [Host m]

/-- An action that cannot fail. -/
def ask {α : Type} (action : m α) : ExceptT Failure m α :=
  ExceptT.lift action

/-- An action that fails with the system's refusal. -/
def attempt {α : Type} (action : m (Except Refusal α)) : ExceptT Failure m α :=
  ExceptT.mk do return (← action).mapError Failure.system

/-- The text of a file. -/
def readText (p : Path) : ExceptT Failure m String := do
  match Unicode.decode? (← attempt (read p)) with
  | some text => return text
  | none => throw (.system .invalidText)

/-- Write a text to a file. -/
def writeText (p : Path) (text : String) : ExceptT Failure m Unit :=
  attempt (write p text.toUTF8)

end Host

end OverlaySync
