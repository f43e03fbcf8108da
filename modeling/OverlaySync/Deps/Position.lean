/-! # Positions in a source

A place in a source is the number of characters before it. For a reader it is shown as a line and a
column, both counted from one; only a newline ends a line. -/

namespace OverlaySync.Deps

/-- A line and a column, counted from one. -/
structure Position where
  /-- The line. -/
  line : Nat
  /-- The character within the line. -/
  column : Nat
  deriving DecidableEq, Repr

namespace Position

/-- Where a source starts. -/
def start : Position := ⟨1, 1⟩

/-- The position behind a character that stands at `p`. -/
def step (p : Position) (c : Char) : Position :=
  if c = '\n' then ⟨p.line + 1, 1⟩ else ⟨p.line, p.column + 1⟩

/-- The position behind a text that starts at `p`. -/
def advance (p : Position) (text : List Char) : Position :=
  text.foldl step p

/-- The position of the character that has `offset` characters of the source before it. -/
def ofOffset (source : List Char) (offset : Nat) : Position :=
  start.advance (source.take offset)

@[simp] theorem advance_nil (p : Position) : p.advance [] = p := rfl

@[simp] theorem advance_cons (p : Position) (c : Char) (cs : List Char) :
    p.advance (c :: cs) = (p.step c).advance cs := rfl

/-- Two texts one after the other move a position as the first and then the second does. -/
theorem advance_append (p : Position) (s t : List Char) :
    p.advance (s ++ t) = (p.advance s).advance t := by
  simp [advance]

/-- The line of a place is one more than the newlines before it. -/
theorem line_advance (p : Position) (text : List Char) :
    (p.advance text).line = p.line + text.count '\n' := by
  induction text generalizing p with
  | nil => rfl
  | cons c cs ih =>
    rw [advance_cons, ih]
    by_cases h : c = '\n'
    · subst h; simp [step]; omega
    · simp [step, h]

end Position

end OverlaySync.Deps
