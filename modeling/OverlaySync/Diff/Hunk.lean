import OverlaySync.Diff.LineText

/-! # Hunks

A hunk replaces a range of lines of the old text by lines of the new text. Its body lists both sides
together: lines of both, lines removed, lines added, and markers that the line before has no
newline. -/

namespace OverlaySync.Diff

/-- A line in the body of a hunk. -/
inductive BodyLine where
  /-- A line of both sides. -/
  | context (text : Line)
  /-- A line of the old side. -/
  | removed (text : Line)
  /-- A line of the new side. -/
  | added (text : Line)
  /-- A marker: the line before it, if there is one, ends without a newline. -/
  | noNewline (text : Line)
  deriving DecidableEq, Repr

namespace BodyLine

/-- The line that a body line adds to the old side. -/
def old? : BodyLine → Option Line
  | context s => some s
  | removed s => some s
  | _ => none

/-- The line that a body line adds to the new side. -/
def new? : BodyLine → Option Line
  | context s => some s
  | added s => some s
  | _ => none

/-- The body line that a line of the diff writes, by its first character. An empty line, also one
that holds only a carriage return, is a line of both sides that lost its leading blank. -/
def ofLine? : Line → Option BodyLine
  | [] => some (context [])
  | ['\r'] => some (context ['\r'])
  | ' ' :: s => some (context s)
  | '-' :: s => some (removed s)
  | '+' :: s => some (added s)
  | '\\' :: s => some (noNewline s)
  | _ => none

end BodyLine

/-- The line numbers in the header of a hunk. -/
structure Header where
  /-- The first line of the old side, or the line before it if that side is empty. -/
  oldStart : Nat
  /-- The number of lines of the old side. -/
  oldCount : Nat
  /-- The first line of the new side, or the line before it if that side is empty. -/
  newStart : Nat
  /-- The number of lines of the new side. -/
  newCount : Nat
  deriving DecidableEq, Repr

/-- A hunk of a diff. -/
structure Hunk extends Header where
  /-- The lines of both sides and the markers, in their order. -/
  body : List BodyLine
  deriving DecidableEq, Repr

namespace Hunk

/-- The lines of the old side. -/
def oldLines (h : Hunk) : List Line :=
  h.body.filterMap BodyLine.old?

/-- The lines of the new side. -/
def newLines (h : Hunk) : List Line :=
  h.body.filterMap BodyLine.new?

/-- Whether some marker stands behind a line of the given side; `before` says whether the line
before the body belongs to it. Markers behind one line all mark that line. -/
def markedIn (side : BodyLine → Option Line) (before : Bool) : List BodyLine → Bool
  | [] => false
  | .noNewline _ :: ls => before || markedIn side before ls
  | l :: ls => markedIn side (side l).isSome ls

/-- Whether a marker says that the old side ends without a newline. -/
def oldUnterminated (h : Hunk) : Bool :=
  markedIn BodyLine.old? false h.body

/-- Whether a marker says that the new side ends without a newline. -/
def newUnterminated (h : Hunk) : Bool :=
  markedIn BodyLine.new? false h.body

/-- The number of lines of the old text before the lines that the hunk replaces. -/
def start (h : Hunk) : Nat :=
  if h.oldCount = 0 then h.oldStart else h.oldStart - 1

/-- The number of lines of the old text up to the end of those that the hunk replaces. -/
def stop (h : Hunk) : Nat :=
  h.start + h.oldCount

end Hunk

end OverlaySync.Diff
