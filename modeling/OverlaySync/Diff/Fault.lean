import OverlaySync.Diff.LineText

/-! # What can be wrong with a diff

The reasons for which a diff is refused, and those for which it does not apply to a text. -/

namespace OverlaySync.Diff

/-- Why digits are not taken as a number. -/
inductive NumberFault where
  /-- A digit of a script other than ASCII. -/
  | foreignDigit
  /-- A number beyond 64 bits. -/
  | tooLarge
  deriving DecidableEq, Repr

/-- How a number's fault is worded. -/
def NumberFault.message : NumberFault → String
  | foreignDigit => "invalid digit found in string"
  | tooLarge => "number too large to fit in target type"

/-- Why a diff is refused or does not apply. Hunks are counted from one. -/
inductive Fault where
  /-- The header `line` holds a number that is not taken as one. -/
  | badHeader (line : Line) (fault : NumberFault)
  /-- The diff ends inside the hunk that starts at line `oldStart`. -/
  | truncated (oldStart : Nat)
  /-- The hunk that starts at line `oldStart` holds a line of no kind. -/
  | unexpectedLine (oldStart : Nat) (line : Line)
  /-- The body of a hunk has other numbers of lines than its header. -/
  | countMismatch (oldStart oldCount newStart newCount : Nat)
  /-- The diff has headers of more than one file. -/
  | severalFiles
  /-- The diff is for the file `target`. -/
  | otherFile (target : List Char)
  /-- The diff has no hunks. -/
  | noHunks
  /-- The hunk starts before the end of the one before it. -/
  | overlap (index : Nat)
  /-- The hunk reaches beyond the end of a text of `lines` lines. -/
  | beyondEnd (index oldStart oldCount lines : Nat)
  /-- The text differs from the hunk at a line. -/
  | lineMismatch (index line : Nat) (expected found : Line)
  /-- The hunk reaches the end of the text, and only one of them ends without a newline. -/
  | newlineMismatch (index : Nat)
  deriving DecidableEq, Repr

/-- The largest line number. -/
def maxNumber : Nat := UInt64.size - 1

/-- How a fault is worded. -/
def Fault.message : Fault → String
  | badHeader line fault => s!"bad hunk header '{String.ofList line}': {fault.message}"
  | truncated oldStart => s!"hunk at line {oldStart} is truncated"
  | unexpectedLine oldStart line =>
    s!"unexpected line in hunk at line {oldStart}: '{String.ofList line}'"
  | countMismatch oldStart oldCount newStart newCount =>
    s!"hunk does not match its header @@ -{oldStart},{oldCount} +{newStart},{newCount} @@"
  | severalFiles => "diff touches more than one file"
  | otherFile target => s!"diff is for '{String.ofList target}'"
  | noHunks => "diff contains no hunks"
  | overlap index => s!"hunk #{index} overlaps the previous one"
  | beyondEnd index oldStart oldCount lines =>
    let stop := min (oldStart + oldCount) maxNumber
    s!"hunk #{index} expects lines {oldStart}..{stop} but the file has {lines} lines"
  | lineMismatch index line expected found =>
    s!"hunk #{index} does not apply at line {line}: " ++
      s!"expected '{String.ofList expected}', found '{String.ofList found}'"
  | newlineMismatch index => s!"hunk #{index} disagrees about the newline at end of file"

end OverlaySync.Diff
