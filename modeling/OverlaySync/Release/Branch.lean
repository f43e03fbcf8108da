import OverlaySync.Files.Refusal
import OverlaySync.Text.Pieces
import OverlaySync.Unicode.Number
import OverlaySync.Unicode.Utf8

/-! # The branch of a release

The deps file of a release refers to its sources on a branch, as `/branches/chromium/<number>@`. The
first line with such a reference gives the branch, and on that line the last reference does. Lines
are read one at a time, so bytes that are no text matter only up to that line. -/

namespace OverlaySync.Release

open Unicode (isDecimalDigit)

/-- What stands before the number in a reference. -/
def referenceStart : List Char :=
  "/branches/chromium/".toList

/-- The number of the reference that starts some text. -/
def reference? (cs : List Char) : Option (List Char) := do
  let rest ← referenceStart.isPrefixOf? cs
  match rest.takeWhile isDecimalDigit, rest.dropWhile isDecimalDigit with
  | d :: ds, '@' :: _ => some (d :: ds)
  | _, _ => none

/-- The number of the last reference in a text. -/
def lastReference? : List Char → Option (List Char)
  | [] => none
  | c :: cs => (lastReference? cs).or (reference? (c :: cs))

/-- A line without the carriage return before its newline. -/
def dropReturn (line : List UInt8) : List UInt8 :=
  if line.getLast? = some 13 then line.dropLast else line

/-- The lines of a file: the pieces between newlines. A carriage return before a newline is no part
of the line. -/
def linesOf (bytes : List UInt8) : List (List UInt8) :=
  match (Text.pieces 10 bytes).reverse with
  | [] => []
  | last :: ended => (last :: ended.map dropReturn).reverse

/-- The branch that the first line with a reference gives. -/
def branchInLines : List (List UInt8) → Except Refusal (Option String)
  | [] => .ok none
  | line :: lines =>
    match Unicode.decode? ⟨line.toArray⟩ with
    | none => .error .invalidText
    | some s =>
      match lastReference? s.toList with
      | some digits => .ok (some (String.ofList digits))
      | none => branchInLines lines

/-- The branch that a release's deps file gives. -/
def branchIn (bytes : ByteArray) : Except Refusal (Option String) :=
  branchInLines (linesOf bytes.toList)

end OverlaySync.Release
