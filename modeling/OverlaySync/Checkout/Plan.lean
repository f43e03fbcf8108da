import OverlaySync.Checkout.Basic
import OverlaySync.Unicode.Blank

/-! # Plans

A client carries out a plan for a request: a list of commands, which is chosen once, from what is at
the destination when the request comes. The first command that fails ends the request. -/

namespace OverlaySync.Checkout

/-- What a client does about a request. -/
structure Plan where
  /-- Whether the directory that is to hold the destination is made first. -/
  makesParent : Bool
  /-- The commands, in order. -/
  commands : List Command
  deriving DecidableEq, Repr

variable {m : Type → Type} [Monad m] [Host m]

/-- The failure of a command, if it did not succeed. -/
def failureOf? (c : Command) : Exit → Option Failure
  | .notStarted reason => some (.externalTool c.tool c.line reason.message)
  | .finished 0 _ _ => none
  | .finished _ _ errorOutput =>
    some <| .externalTool c.tool c.line <| String.ofList <|
      Unicode.trim (Unicode.decodeLossy errorOutput).toList

/-- Run a command, which has to succeed. -/
def runCommand (c : Command) : ExceptT Failure m Unit := do
  match failureOf? c (← Host.ask (Host.run c)) with
  | none => return
  | some e => throw e

/-- Make the directory that is to hold a destination, with all that is above it. -/
def makeParent (dest : Path) : ExceptT Failure m Unit :=
  match dest.parent? with
  | some parent => Host.attempt (Host.makeDirectories parent)
  | none => return

/-- Carry out a plan for a destination. -/
def Plan.carryOut (plan : Plan) (dest : Path) : ExceptT Failure m Unit := do
  if plan.makesParent then makeParent dest
  plan.commands.forM runCommand

end OverlaySync.Checkout
