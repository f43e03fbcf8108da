import OverlaySync.Text.Pieces

/-! # Texts as lines

A text is the list of its lines and whether a newline follows the last one. The empty text has no
lines. `LineText.toChars_ofChars` says that nothing else about a text is lost. -/

namespace OverlaySync.Diff

/-- A line, without the newline that ends it. -/
abbrev Line := List Char

/-- The lines of a text. -/
structure LineText where
  /-- The lines, without their newlines. -/
  lines : List Line
  /-- Whether the last line ends in a newline. -/
  terminated : Bool
  deriving DecidableEq, Repr

namespace LineText

/-- The lines of a text: a final newline ends the last line and starts no other. -/
def ofChars (cs : List Char) : LineText :=
  if cs.isEmpty then ⟨[], false⟩
  else if cs.getLast? = some '\n' then ⟨Text.pieces '\n' cs.dropLast, true⟩
  else ⟨Text.pieces '\n' cs, false⟩

/-- The text of lines. -/
def toChars (t : LineText) : List Char :=
  Text.joined '\n' t.lines ++ if t.terminated && !t.lines.isEmpty then ['\n'] else []

/-- The lines of a text put together are the text, with or without a newline at its end. -/
theorem toChars_ofChars (cs : List Char) : (ofChars cs).toChars = cs := by
  unfold ofChars
  split
  · next h => simp [toChars, Text.joined, List.isEmpty_iff.1 h]
  split
  · next h =>
    obtain ⟨front, rfl⟩ := List.getLast?_eq_some_iff.1 h
    simp [toChars, Text.pieces_ne_nil]
  · simp [toChars]

end LineText

end OverlaySync.Diff
