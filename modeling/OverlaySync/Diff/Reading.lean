import OverlaySync.Diff.Fault
import OverlaySync.Diff.Hunk
import OverlaySync.Unicode.Blank
import OverlaySync.Unicode.Number

/-! # Reading diffs

A diff for one file is read line by line. A header line opens a hunk; the hunk's body goes on until
both sides have the numbers of lines that the header states, and takes the markers behind it. Of the
other lines only file headers are looked at: there may be one `+++` line, wherever it stands, and it
has to name the file; behind a hunk there may be no `---` line. -/

namespace OverlaySync.Diff

open Unicode (isDecimalDigit)

/-! ## Hunk headers -/

/-- The decimal digits at the head of some characters, at least one, and what follows them. -/
def digits? (cs : List Char) : Option (List Char × List Char) :=
  match cs.takeWhile isDecimalDigit with
  | [] => none
  | digits => some (digits, cs.dropWhile isDecimalDigit)

/-- A line number, with a count behind a comma or without one, and what follows it. -/
def range? (cs : List Char) : Option ((List Char × Option (List Char)) × List Char) := do
  let (start, rest) ← digits? cs
  match rest with
  | ',' :: more =>
    match digits? more with
    | some (count, rest') => return ((start, some count), rest')
    | none => return ((start, none), rest)
  | _ => return ((start, none), rest)

/-- The digits of a hunk header, as they stand there. -/
structure HeaderText where
  /-- The first line of the old side. -/
  oldStart : List Char
  /-- The number of lines of the old side. -/
  oldCount : Option (List Char)
  /-- The first line of the new side. -/
  newStart : List Char
  /-- The number of lines of the new side. -/
  newCount : Option (List Char)

/-- The digits of a line that has the form `@@ -a,b +c,d @@`, with or without the counts `b` and
`d`, and with anything behind it. -/
def HeaderText.ofLine? (line : Line) : Option HeaderText := do
  let rest ← ['@', '@', ' ', '-'].isPrefixOf? line
  let ((oldStart, oldCount), rest) ← range? rest
  let rest ← [' ', '+'].isPrefixOf? rest
  let ((newStart, newCount), rest) ← range? rest
  let _ ← [' ', '@', '@'].isPrefixOf? rest
  return ⟨oldStart, oldCount, newStart, newCount⟩

/-- The number that some digits write, if they are ASCII digits and 64 bits hold it. -/
def numberOf (digits : List Char) : Except NumberFault Nat :=
  digits.foldlM (fun n d =>
    if !d.isDigit then .error .foreignDigit
    else
      let n' := 10 * n + (d.toNat - '0'.toNat)
      if n' ≤ maxNumber then .ok n' else .error .tooLarge) 0

/-- A count; one if the header does not state it. -/
def countOf : Option (List Char) → Except NumberFault Nat
  | none => .ok 1
  | some digits => numberOf digits

/-- The numbers of a header. -/
def HeaderText.numbers (t : HeaderText) : Except NumberFault Header := do
  let oldStart ← numberOf t.oldStart
  let oldCount ← countOf t.oldCount
  let newStart ← numberOf t.newStart
  let newCount ← countOf t.newCount
  return ⟨oldStart, oldCount, newStart, newCount⟩

/-! ## Hunk bodies -/

/-- Read body lines until both sides are complete; `old` and `new` count the lines of the sides so
far. -/
def readBody (h : Header) (old new : Nat) : List Line → Except Fault (List BodyLine × List Line)
  | [] =>
    if old < h.oldCount ∨ new < h.newCount then .error (.truncated h.oldStart)
    else if old = h.oldCount ∧ new = h.newCount then .ok ([], [])
    else .error (.countMismatch h.oldStart h.oldCount h.newStart h.newCount)
  | line :: lines =>
    if old < h.oldCount ∨ new < h.newCount then
      match BodyLine.ofLine? line with
      | none => .error (.unexpectedLine h.oldStart line)
      | some b =>
        match readBody h (old + b.old?.toList.length) (new + b.new?.toList.length) lines with
        | .error f => .error f
        | .ok (bs, rest) => .ok (b :: bs, rest)
    else if old = h.oldCount ∧ new = h.newCount then .ok ([], line :: lines)
    else .error (.countMismatch h.oldStart h.oldCount h.newStart h.newCount)

/-- What a body leaves is a part of what it was read from. -/
theorem readBody_length_le {h : Header} {old new : Nat} {lines rest : List Line}
    {bs : List BodyLine} (ok : readBody h old new lines = .ok (bs, rest)) :
    rest.length ≤ lines.length := by
  fun_induction readBody h old new lines generalizing bs rest with
  | case1 => cases ok
  | case2 => cases ok; simp
  | case3 => cases ok
  | case4 => cases ok
  | case5 => cases ok
  | case6 _ _ _ _ _ _ _ _ _ hr ih => cases ok; exact Nat.le_succ_of_le (ih hr)
  | case7 => cases ok; simp
  | case8 => cases ok

/-- The markers at the head of some lines, and the lines behind them. -/
def readMarkers : List Line → List BodyLine × List Line
  | ('\\' :: s) :: lines =>
    let more := readMarkers lines
    (.noNewline s :: more.1, more.2)
  | lines => ([], lines)

/-- The markers behind a hunk line are taken off the front, so that no lines are added. -/
theorem readMarkers_length_le (lines : List Line) :
    (readMarkers lines).2.length ≤ lines.length := by
  fun_induction readMarkers lines with
  | case1 _ _ _ ih => exact Nat.le_succ_of_le ih
  | case2 => exact Nat.le_refl _

/-! ## File headers -/

/-- The characters before the first occurrence of a word. -/
def before (word : List Char) : List Char → List Char
  | [] => []
  | c :: cs => if word.isPrefixOf (c :: cs) then [] else c :: before word cs

/-- The path of a `+++` header: what stands before a tab and before ` (`, trimmed, without `b/`. -/
def targetOf (cs : List Char) : List Char :=
  let path := Unicode.trim (before [' ', '('] (before ['\t'] cs))
  match path with
  | 'b' :: '/' :: path' => path'
  | _ => path

/-- Whether the path of a header names the file. -/
def names (path filename : List Char) : Bool :=
  path = filename || ('/' :: filename).isSuffixOf path

/-! ## Diffs -/

/-- Read the lines of a diff. `header` says whether a `+++` line was seen and `hunks` whether a hunk
was. -/
def readLines (filename : List Char) (header hunks : Bool) (lines : List Line) :
    Except Fault (List Hunk) :=
  match lines with
  | [] => if hunks then .ok [] else .error .noHunks
  | line :: rest =>
    match HeaderText.ofLine? line with
    | some t =>
      match t.numbers with
      | .error f => .error (.badHeader line f)
      | .ok h =>
        match hb : readBody h 0 0 rest with
        | .error f => .error f
        | .ok (body, rest') =>
          have := readBody_length_le hb
          have := readMarkers_length_le rest'
          let markers := readMarkers rest'
          (readLines filename header true markers.2).map (⟨h, body ++ markers.1⟩ :: ·)
    | none =>
      match ['+', '+', '+', ' '].isPrefixOf? line with
      | some target =>
        if header then .error .severalFiles
        else if !names (targetOf target) filename then .error (.otherFile (targetOf target))
        else readLines filename true hunks rest
      | none =>
        if hunks && ['-', '-', '-', ' '].isPrefixOf line then .error .severalFiles
        else readLines filename header hunks rest
  termination_by lines.length

/-- A diff for one file. -/
structure FileDiff where
  /-- The name of the file. -/
  filename : String
  /-- The hunks, in their order. -/
  hunks : List Hunk
  deriving DecidableEq, Repr

/-- The lines of a diff: a final newline ends the last one. -/
def diffLines (diff : List Char) : List Line :=
  Text.pieces '\n' (if diff.getLast? = some '\n' then diff.dropLast else diff)

/-- Read a diff as one for the file `filename`. -/
def FileDiff.parse (filename diff : String) : Except Fault FileDiff :=
  (readLines filename.toList false false (diffLines diff.toList)).map (⟨filename, ·⟩)

end OverlaySync.Diff
