import OverlaySync.Proofs.Diff.Completeness
import OverlaySync.Proofs.Diff.LineText
import OverlaySync.Proofs.Lists

/-! # Printed hunks are read back

How hunks are written in the unified format, a header line and a tagged line for every body line,
and that reading what is written gives the hunks again (`FileDiff.parse_print`). This holds of any
body whose sides have the numbers of lines that the header states: tags, headers and markers inside
the lines do not matter, for they stand behind a tag. -/

namespace OverlaySync.Diff

open Unicode (isDecimalDigit)

/-! ## Printing -/

/-- A body line behind its tag. -/
def BodyLine.toLine : BodyLine → Line
  | context s => ' ' :: s
  | removed s => '-' :: s
  | added s => '+' :: s
  | noNewline s => '\\' :: s

/-- A number in decimal digits. -/
def digitsOf (n : Nat) : List Char :=
  Nat.toDigits 10 n

/-- The header line `@@ -a,b +c,d @@`. -/
def Header.toLine (h : Header) : Line :=
  ['@', '@', ' ', '-'] ++ (digitsOf h.oldStart ++ ',' :: (digitsOf h.oldCount ++ ([' ', '+'] ++
    (digitsOf h.newStart ++ ',' :: (digitsOf h.newCount ++ [' ', '@', '@'])))))

/-- The lines of hunks in a diff. -/
def printLines (hunks : List Hunk) : List Line :=
  hunks.flatMap fun h => h.toHeader.toLine :: h.body.map BodyLine.toLine

/-- The diff of hunks, every line of which ends in a newline. -/
def print (hunks : List Hunk) : String :=
  String.ofList ((printLines hunks).flatMap (· ++ ['\n']))

/-- A hunk that can be printed: its sides have the numbers of lines that its header states, 64 bits
hold the numbers of the header, and no newline stands inside a line. -/
structure Hunk.Printable (h : Hunk) : Prop where
  /-- The lines of the old side are as many as the header states. -/
  old : h.oldLines.length = h.oldCount
  /-- The lines of the new side are as many as the header states. -/
  new : h.newLines.length = h.newCount
  /-- 64 bits hold the numbers of the header. -/
  small : ∀ n ∈ [h.oldStart, h.oldCount, h.newStart, h.newCount], n ≤ maxNumber
  /-- No newline stands inside a line. -/
  free : ∀ b ∈ h.body, '\n' ∉ b.toLine

/-! ## Headers are read back -/

/-- The digits of a number are ASCII digits. -/
theorem isDigit_of_mem_digitsOf {n : Nat} {c : Char} (h : c ∈ digitsOf n) : c.isDigit = true :=
  Nat.isDigit_of_mem_toDigits (by decide) (by decide) h

/-- Decimal digits, of any script, at least one of them. -/
def IsDigits (ds : List Char) : Prop :=
  ds ≠ [] ∧ ∀ d ∈ ds, isDecimalDigit d = true

/-- A number is printed with digits, and with at least one. -/
theorem isDigits_digitsOf (n : Nat) : IsDigits (digitsOf n) :=
  ⟨Nat.toDigits_ne_nil, fun _ hd => Unicode.isDecimalDigit_of_isDigit (isDigit_of_mem_digitsOf hd)⟩

/-- A range as it stands in a header: a start, and a count if there is one. -/
abbrev RangeText := List Char × Option (List Char)

/-- The start and the count of the range are digits. -/
def RangeText.WellFormed (r : RangeText) : Prop :=
  IsDigits r.1 ∧ ∀ count ∈ r.2, IsDigits count

/-- The characters of a range. -/
def RangeText.toChars : RangeText → List Char
  | (start, none) => start
  | (start, some count) => start ++ ',' :: count

/-- Digits are read up to what follows them, if that is no digit. -/
theorem digits?_append {ds : List Char} (h : IsDigits ds) {c : Char}
    (hc : isDecimalDigit c = false) (cs : List Char) :
    digits? (ds ++ c :: cs) = some (ds, c :: cs) := by
  have ends : ∀ d ∈ (c :: cs).head?, isDecimalDigit d = false := by
    rintro d ⟨⟩
    exact hc
  obtain ⟨htake, hdrop⟩ := takeWhile_append_border h.2 ends
  rw [digits?, htake, hdrop]
  cases ds with
  | nil => exact absurd rfl h.1
  | cons d ds => rfl

/-- A range is read up to the blank that follows it. -/
theorem range?_append {r : RangeText} (h : r.WellFormed) (cs : List Char) :
    range? (r.toChars ++ ' ' :: cs) = some (r, ' ' :: cs) := by
  have comma : isDecimalDigit ',' = false := by decide
  have blank : isDecimalDigit ' ' = false := by decide
  obtain ⟨start, count⟩ := r
  cases count with
  | none => simp [RangeText.toChars, range?, digits?_append h.1 blank]
  | some count =>
    simp [RangeText.toChars, range?, digits?_append h.1 comma, digits?_append (h.2 count rfl) blank]

/-- The header line of two ranges, with what stands behind it. -/
def headerLine (old new : RangeText) (back : List Char) : Line :=
  ['@', '@', ' ', '-'] ++
    (old.toChars ++ ([' ', '+'] ++ (new.toChars ++ ([' ', '@', '@'] ++ back))))

/-- The ranges of a header line are read from it. -/
theorem HeaderText.ofLine?_headerLine {old new : RangeText} (hold : old.WellFormed)
    (hnew : new.WellFormed) (back : List Char) :
    HeaderText.ofLine? (headerLine old new back) = some ⟨old.1, old.2, new.1, new.2⟩ := by
  have opens : ∀ cs, ['@', '@', ' ', '-'].isPrefixOf? (['@', '@', ' ', '-'] ++ cs) = some cs :=
    fun _ => rfl
  have between : ∀ cs, [' ', '+'].isPrefixOf? (' ' :: '+' :: cs) = some cs := fun _ => rfl
  have closes : ∀ cs, [' ', '@', '@'].isPrefixOf? (' ' :: '@' :: '@' :: cs) = some cs :=
    fun _ => rfl
  rw [HeaderText.ofLine?, headerLine, opens]
  simp [range?_append hold, range?_append hnew, between, closes]

/-- A printed header has the digits of its numbers. -/
theorem HeaderText.ofLine?_toLine (h : Header) :
    HeaderText.ofLine? h.toLine = some ⟨digitsOf h.oldStart, some (digitsOf h.oldCount),
      digitsOf h.newStart, some (digitsOf h.newCount)⟩ := by
  have wellFormed : ∀ start count,
      RangeText.WellFormed (digitsOf start, some (digitsOf count)) := by
    intro start count
    refine ⟨isDigits_digitsOf start, ?_⟩
    rintro _ ⟨⟩
    exact isDigits_digitsOf count
  have line : h.toLine = headerLine (digitsOf h.oldStart, some (digitsOf h.oldCount))
      (digitsOf h.newStart, some (digitsOf h.newCount)) [] := by
    simp [Header.toLine, headerLine, RangeText.toChars]
  rw [line, ofLine?_headerLine (wellFormed ..) (wellFormed ..)]

/-- One more digit behind a number. -/
def takeDigit (n : Nat) (d : Char) : Except NumberFault Nat :=
  if !d.isDigit then .error .foreignDigit
  else
    let n' := 10 * n + (d.toNat - '0'.toNat)
    if n' ≤ maxNumber then .ok n' else .error .tooLarge

/-- More digits make a number no smaller. -/
theorem le_ofDigitChars (digits : List Char) (n : Nat) : n ≤ Nat.ofDigitChars 10 digits n := by
  rw [Nat.ofDigitChars_eq_ofDigitChars_zero]
  have hpow : n ≤ 10 ^ digits.length * n := Nat.le_mul_of_pos_left n (Nat.pow_pos (by decide))
  exact Nat.le_trans hpow (Nat.le_add_right _ _)

/-- Digits behind the number `n` are taken as the number that all of them write. -/
theorem foldlM_takeDigit {digits : List Char} (all : ∀ d ∈ digits, d.isDigit = true) {n : Nat}
    (small : Nat.ofDigitChars 10 digits n ≤ maxNumber) :
    digits.foldlM takeDigit n = .ok (Nat.ofDigitChars 10 digits n) := by
  induction digits generalizing n with
  | nil => rfl
  | cons d ds ih =>
    rw [Nat.ofDigitChars_cons] at small ⊢
    -- No number on the way is larger than the last one.
    have step : takeDigit n d = .ok (10 * n + (d.toNat - '0'.toNat)) := by
      have hd := all d List.mem_cons_self
      have hle := Nat.le_trans (le_ofDigitChars ds _) small
      rw [takeDigit, if_neg (by simp [hd])]
      exact if_pos hle
    rw [List.foldlM_cons, step]
    exact ih (fun e he => all e (List.mem_cons_of_mem _ he)) small

/-- The digits of a number that 64 bits hold are taken as that number. -/
theorem numberOf_digitsOf {n : Nat} (small : n ≤ maxNumber) : numberOf (digitsOf n) = .ok n := by
  have hn : Nat.ofDigitChars 10 (digitsOf n) 0 = n := Nat.ofDigitChars_ten_toDigits
  have hfold := foldlM_takeDigit (fun d hd => isDigit_of_mem_digitsOf hd) (hn.symm ▸ small)
  rw [hn] at hfold
  exact hfold

/-- The numbers of a printed header are those of the header. -/
theorem HeaderText.numbers_digitsOf {h : Header}
    (small : ∀ n ∈ [h.oldStart, h.oldCount, h.newStart, h.newCount], n ≤ maxNumber) :
    HeaderText.numbers ⟨digitsOf h.oldStart, some (digitsOf h.oldCount), digitsOf h.newStart,
      some (digitsOf h.newCount)⟩ = .ok h := by
  simp only [List.forall_mem_cons] at small
  obtain ⟨h₁, h₂, h₃, h₄, -⟩ := small
  simp [HeaderText.numbers, countOf, numberOf_digitsOf, h₁, h₂, h₃, h₄, bind, Except.bind, pure,
    Except.pure]

/-! ## Bodies are read back -/

/-- A body line is read from behind its tag. -/
theorem BodyLine.ofLine?_toLine (b : BodyLine) : ofLine? b.toLine = some b := by
  cases b <;> rfl

/-- Only markers add no line to either side. -/
theorem BodyLine.eq_noNewline {b : BodyLine} (old : b.old? = none) (new : b.new? = none) :
    ∃ s, b = .noNewline s := by
  cases b with
  | context s => cases old
  | removed s => cases old
  | added s => cases new
  | noNewline s => exact ⟨s, rfl⟩

/-- There are no markers where the first line is none. -/
theorem readMarkers_of_head {rest : List Line} (ends : ∀ l ∈ rest.head?, l.head? ≠ some '\\') :
    readMarkers rest = ([], rest) := by
  unfold readMarkers
  split
  · exact absurd rfl (ends _ rfl)
  · rfl

/-- Markers are read up to what is no marker. -/
theorem readMarkers_toLine {markers : List BodyLine} (all : ∀ m ∈ markers, ∃ s, m = .noNewline s)
    {rest : List Line} (ends : ∀ l ∈ rest.head?, l.head? ≠ some '\\') :
    readMarkers (markers.map BodyLine.toLine ++ rest) = (markers, rest) := by
  induction markers with
  | nil => exact readMarkers_of_head ends
  | cons m markers ih =>
    obtain ⟨s, rfl⟩ := all m List.mem_cons_self
    simp [BodyLine.toLine, readMarkers, ih fun m hm => all m (List.mem_cons_of_mem _ hm)]

/-- A printed body is read until both sides are complete, which leaves only markers of it. -/
theorem readsBody_toLine {h : Header} {body : List BodyLine} {old new : Nat}
    (hold : old + (body.filterMap BodyLine.old?).length = h.oldCount)
    (hnew : new + (body.filterMap BodyLine.new?).length = h.newCount) (rest : List Line) :
    ∃ front markers, body = front ++ markers ∧ (∀ m ∈ markers, ∃ s, m = .noNewline s) ∧
      ReadsBody h old new (body.map BodyLine.toLine ++ rest) front
        (markers.map BodyLine.toLine ++ rest) := by
  induction body generalizing old new with
  | nil =>
    obtain rfl : old = h.oldCount := hold
    obtain rfl : new = h.newCount := hnew
    exact ⟨[], [], rfl, nofun, .done rest⟩
  | cons b body ih =>
    by_cases done : old = h.oldCount ∧ new = h.newCount
    · -- No line is missing on either side, so the whole rest of the body is markers.
      obtain ⟨rfl, rfl⟩ := done
      refine ⟨[], b :: body, rfl, fun m hm => ?_, .done _⟩
      have noOld : (b :: body).filterMap BodyLine.old? = [] := List.length_eq_zero_iff.1 (by omega)
      have noNew : (b :: body).filterMap BodyLine.new? = [] := List.length_eq_zero_iff.1 (by omega)
      exact BodyLine.eq_noNewline (List.filterMap_eq_nil_iff.1 noOld m hm)
        (List.filterMap_eq_nil_iff.1 noNew m hm)
    · -- Some line is missing, so this one is read, and the rest of the body behind it.
      rw [length_filterMap_cons] at hold hnew
      have missing : old < h.oldCount ∨ new < h.newCount := by omega
      obtain ⟨front, markers, rfl, hmarkers, hread⟩ :=
        ih ((Nat.add_assoc _ _ _).trans hold) ((Nat.add_assoc _ _ _).trans hnew)
      exact ⟨b :: front, markers, rfl, hmarkers, .line missing b.ofLine?_toLine hread⟩

/-! ## Diffs are read back -/

/-- A printed header starts with no marker's tag. -/
theorem Header.head?_toLine (h : Header) : h.toLine.head? = some '@' := rfl

/-- Printed hunks are read one by one. -/
theorem readsHunks_printLines {filename : List Char} {hunks : List Hunk} {seen : Bool}
    (some : seen = true ∨ hunks ≠ []) (printable : ∀ h ∈ hunks, h.Printable) :
    ReadsHunks filename false seen (printLines hunks) hunks := by
  induction hunks generalizing seen with
  | nil =>
    obtain rfl : seen = true := some.resolve_right fun ne => ne rfl
    exact .done false
  | cons h hunks ih =>
    obtain ⟨hprintable, printable⟩ := List.forall_mem_cons.1 printable
    -- Behind the hunk comes a header or nothing, so the markers read are those of the body.
    have ends : ∀ l ∈ (printLines hunks).head?, l.head? ≠ Option.some '\\' := by
      intro l hl
      cases hunks with
      | nil => cases hl
      | cons g hunks =>
        cases hl
        rw [Header.head?_toLine]
        decide
    have hold : 0 + (h.body.filterMap BodyLine.old?).length = h.oldCount :=
      (Nat.zero_add _).trans hprintable.old
    have hnew : 0 + (h.body.filterMap BodyLine.new?).length = h.newCount :=
      (Nat.zero_add _).trans hprintable.new
    obtain ⟨front, markers, hbody, hmarkers, hread⟩ :=
      readsBody_toLine hold hnew (printLines hunks)
    have marked := readMarkers_toLine hmarkers ends
    have later : ReadsHunks filename false true
        (readMarkers (markers.map BodyLine.toLine ++ printLines hunks)).2 hunks := by
      rw [marked]
      exact ih (.inl rfl) printable
    have step : ReadsHunks filename false seen _ _ :=
      .hunk (HeaderText.ofLine?_toLine h.toHeader) (HeaderText.numbers_digitsOf hprintable.small)
        hread later
    rw [marked, ← hbody] at step
    exact step

/-- The lines of a diff are those that were written. -/
theorem diffLines_flatMap {lines : List Line} (ne : lines ≠ []) (free : ∀ l ∈ lines, '\n' ∉ l) :
    diffLines (lines.flatMap (· ++ ['\n'])) = lines := by
  rw [← Text.joined_append_sep '\n' ne]
  simp [diffLines, Text.pieces_joined ne free]

/-- No newline stands in a printed header. -/
theorem Header.not_mem_toLine (h : Header) : '\n' ∉ h.toLine := by
  have digits : ∀ n, '\n' ∉ digitsOf n := fun n hn => by
    have hd := isDigit_of_mem_digitsOf hn
    cases hd
  simp [toLine, digits]

/-- No newline stands in a line of a printed diff. -/
theorem not_mem_printLines {hunks : List Hunk} (printable : ∀ h ∈ hunks, h.Printable) :
    ∀ l ∈ printLines hunks, '\n' ∉ l := by
  intro l hl
  obtain ⟨h, hh, hl⟩ := List.mem_flatMap.1 hl
  rcases List.mem_cons.1 hl with rfl | hl
  · exact h.toHeader.not_mem_toLine
  · obtain ⟨b, hb, rfl⟩ := List.mem_map.1 hl
    exact (printable h hh).free b hb

/-- Printed hunks are read back, whatever file the diff is said to be for. -/
theorem FileDiff.parse_print (filename : String) {hunks : List Hunk} (ne : hunks ≠ [])
    (printable : ∀ h ∈ hunks, h.Printable) :
    parse filename (print hunks) = .ok ⟨filename, hunks⟩ := by
  have some : printLines hunks ≠ [] := by
    cases hunks with
    | nil => exact absurd rfl ne
    | cons h hunks => exact List.cons_ne_nil _ _
  rw [parse, print, String.toList_ofList, diffLines_flatMap some (not_mem_printLines printable),
    readLines_eq_ok_iff.2 (readsHunks_printLines (.inr ne) printable)]
  rfl

end OverlaySync.Diff
