import Mathlib.Data.List.Basic
import OverlaySync.Proofs.Diff.Alignment
import OverlaySync.Proofs.Diff.Printing

/-! # The text of a reversed diff

A diff is reversed as a text: in the header of every hunk the two ranges change places, and in its
body the tags of removed and added lines do. Nothing else changes, neither the lines between hunks,
nor what stands behind a header's ranges, nor any marker. A reader finds the reversed hunks in the
reversed text (`FileDiff.parse_reverseText`). -/

namespace OverlaySync.Diff

open Unicode (isDecimalDigit)

/-! ## Reversing a text -/

/-- The two ranges of a hunk header, and what stands behind it. -/
def splitHeader? (line : Line) : Option (RangeText × RangeText × List Char) := do
  let rest ← ['@', '@', ' ', '-'].isPrefixOf? line
  let (old, rest) ← range? rest
  let rest ← [' ', '+'].isPrefixOf? rest
  let (new, rest) ← range? rest
  let back ← [' ', '@', '@'].isPrefixOf? rest
  return (old, new, back)

/-- The hunk header with its ranges exchanged. -/
def reverseHeader (line : Line) : Line :=
  match splitHeader? line with
  | some (old, new, back) => headerLine new old back
  | none => line

/-- The body line with the tag of the other side. -/
def reverseTag : Line → Line
  | '-' :: s => '+' :: s
  | '+' :: s => '-' :: s
  | line => line

/-- The numbers of a hunk header that is read. -/
def Header.ofLine? (line : Line) : Option Header := do
  let t ← HeaderText.ofLine? line
  t.numbers.toOption

/-- The lines of a diff with the hunks reversed; `old` and `new` count the lines that are missing in
the body of a hunk, and outside of hunks they are zero. -/
def reverseLines (old new : Nat) : List Line → List Line
  | [] => []
  | line :: lines =>
    if old = 0 ∧ new = 0 then
      match Header.ofLine? line with
      | some h => reverseHeader line :: reverseLines h.oldCount h.newCount lines
      | none => line :: reverseLines 0 0 lines
    else
      let b := BodyLine.ofLine? line
      reverseTag line :: reverseLines (old - (b.bind BodyLine.old?).toList.length)
        (new - (b.bind BodyLine.new?).toList.length) lines

/-- The text of a diff with the hunks reversed. -/
def reverseText (diff : String) : String :=
  let t := LineText.ofChars diff.toList
  String.ofList (LineText.toChars ⟨reverseLines 0 0 t.lines, t.terminated⟩)

/-! ## Headers -/

/-- What is read as digits. -/
theorem digits?_eq_some {cs ds rest : List Char} (h : digits? cs = some (ds, rest)) :
    IsDigits ds ∧ cs = ds ++ rest := by
  unfold digits? at h
  split at h
  · cases h
  · next hne =>
    cases h
    exact ⟨⟨fun h => hne h, List.all_eq_true.1 List.all_takeWhile⟩,
      List.takeWhile_append_dropWhile.symm⟩

/-- What is read as a range. -/
theorem range?_eq_some {cs rest : List Char} {r : RangeText} (h : range? cs = some (r, rest)) :
    r.WellFormed ∧ cs = r.toChars ++ rest := by
  simp only [range?, Option.bind_eq_bind, Option.bind_eq_some_iff, Prod.exists] at h
  obtain ⟨start, behind, hstart, h⟩ := h
  obtain ⟨digits, rfl⟩ := digits?_eq_some hstart
  -- With a comma and digits behind it there is a count, and otherwise there is none.
  split at h
  · split at h
    · next count rest' hcount =>
      cases h
      obtain ⟨digits', rfl⟩ := digits?_eq_some hcount
      refine ⟨⟨digits, ?_⟩, by simp [RangeText.toChars]⟩
      rintro _ ⟨⟩
      exact digits'
    · cases h
      exact ⟨⟨digits, by simp⟩, rfl⟩
  · cases h
    exact ⟨⟨digits, by simp⟩, rfl⟩

/-- A header is taken apart. -/
theorem splitHeader?_eq_some {line back : List Char} {old new : RangeText}
    (h : splitHeader? line = some (old, new, back)) :
    old.WellFormed ∧ new.WellFormed ∧ line = headerLine old new back := by
  simp only [splitHeader?, Option.bind_eq_bind, Option.bind_eq_some_iff, Prod.exists,
    List.isPrefixOf?_eq_some_iff_append_eq] at h
  obtain ⟨_, rfl, _, _, _, hold, _, rfl, _, _, _, hnew, _, rfl, h⟩ := h
  cases h
  obtain ⟨wellFormed, rfl⟩ := range?_eq_some hold
  obtain ⟨wellFormed', rfl⟩ := range?_eq_some hnew
  exact ⟨wellFormed, wellFormed', rfl⟩

/-- A line that is read as a header can be taken apart. -/
theorem HeaderText.ofLine?_eq (line : Line) :
    HeaderText.ofLine? line =
      (splitHeader? line).map fun (old, new, _) => ⟨old.1, old.2, new.1, new.2⟩ := by
  simp only [HeaderText.ofLine?, splitHeader?, Option.bind_eq_bind, Option.map_bind,
    Function.comp_def]
  rfl

/-- The digits of a header with the sides exchanged. -/
def HeaderText.reverse (t : HeaderText) : HeaderText :=
  ⟨t.newStart, t.newCount, t.oldStart, t.oldCount⟩

/-- A reversed header is read as the header with the sides exchanged. -/
theorem HeaderText.ofLine?_reverseHeader {line : Line} {t : HeaderText}
    (h : HeaderText.ofLine? line = some t) :
    HeaderText.ofLine? (reverseHeader line) = some t.reverse := by
  rw [HeaderText.ofLine?_eq, Option.map_eq_some_iff] at h
  obtain ⟨⟨old, new, back⟩, hsplit, rfl⟩ := h
  obtain ⟨hold, hnew, -⟩ := splitHeader?_eq_some hsplit
  simp only [reverseHeader, hsplit]
  exact HeaderText.ofLine?_headerLine hnew hold back

/-- The numbers of the exchanged digits are the exchanged numbers. -/
theorem HeaderText.numbers_reverse {t : HeaderText} {h : Header} (ht : t.numbers = .ok h) :
    t.reverse.numbers = .ok h.reverse := by
  simp only [HeaderText.numbers, Outcome.bind_eq_ok_iff, Outcome.pure_eq_ok_iff] at ht ⊢
  obtain ⟨a, ha, b, hb, c, hc, d, hd, rfl⟩ := ht
  exact ⟨c, hc, d, hd, a, ha, b, hb, rfl⟩

/-- Reversing a header brings no newline in. -/
theorem not_mem_reverseHeader {line : Line} (free : '\n' ∉ line) : '\n' ∉ reverseHeader line := by
  unfold reverseHeader
  split
  · next old new back hsplit =>
    obtain ⟨-, -, rfl⟩ := splitHeader?_eq_some hsplit
    simp only [headerLine, List.mem_append, not_or] at free ⊢
    exact ⟨free.1, free.2.2.2.1, free.2.2.1, free.2.1, free.2.2.2.2⟩
  · exact free

/-! ## Bodies -/

/-- The reversed body line is read from the other tag. -/
theorem BodyLine.ofLine?_reverseTag (line : Line) :
    ofLine? (reverseTag line) = (ofLine? line).map BodyLine.reverse := by
  unfold reverseTag
  split
  · rfl
  · rfl
  · next hminus hplus =>
    unfold ofLine?
    split
    · rfl
    · rfl
    · rfl
    · next s => exact absurd rfl (hminus s)
    · next s => exact absurd rfl (hplus s)
    · rfl
    · rfl

/-- Reversing the tag of a body line brings no newline in. -/
theorem not_mem_reverseTag {line : Line} (free : '\n' ∉ line) : '\n' ∉ reverseTag line := by
  unfold reverseTag
  split
  · simpa using free
  · simpa using free
  · exact free

/-- Where a body is read, the reversed body is read from the reversed lines. -/
theorem ReadsBody.reverse {h : Header} {old new : Nat} {lines rest : List Line}
    {bs : List BodyLine} (reads : ReadsBody h old new lines bs rest) :
    ReadsBody h.reverse new old (reverseLines (h.oldCount - old) (h.newCount - new) lines)
      (bs.map BodyLine.reverse) (reverseLines 0 0 rest) := by
  -- On the reading of the body; the two sides change places, so their counts do too.
  induction reads with
  | done rest =>
    rw [Nat.sub_self, Nat.sub_self]
    exact .done _
  | @line old new line lines rest b bs missing read later ih =>
    have read' : BodyLine.ofLine? (reverseTag line) = some b.reverse := by
      rw [BodyLine.ofLine?_reverseTag, read, Option.map_some]
    have missing' : ¬(h.oldCount - old = 0 ∧ h.newCount - new = 0) := by omega
    rw [reverseLines, if_neg missing', read]
    refine .line missing.symm read' ?_
    rw [BodyLine.old?_reverse, BodyLine.new?_reverse]
    simpa only [Option.bind_some, Nat.sub_sub] using ih

/-! ## Diffs -/

/-- A header is reversed, and a body follows it. -/
theorem reverseLines_of_header {line : Line} {t : HeaderText} {h : Header}
    (hline : HeaderText.ofLine? line = some t) (hnumbers : t.numbers = .ok h)
    (lines : List Line) :
    reverseLines 0 0 (line :: lines) =
      reverseHeader line :: reverseLines h.oldCount h.newCount lines := by
  have hheader : Header.ofLine? line = some h := by
    simp [Header.ofLine?, hline, hnumbers, Except.toOption]
  rw [reverseLines, if_pos ⟨rfl, rfl⟩, hheader]

/-- Any other line outside of hunks is kept. -/
theorem reverseLines_of_other {line : Line} (hline : HeaderText.ofLine? line = none)
    (lines : List Line) : reverseLines 0 0 (line :: lines) = line :: reverseLines 0 0 lines := by
  have hheader : Header.ofLine? line = none := by
    simp [Header.ofLine?, hline]
  rw [reverseLines, if_pos ⟨rfl, rfl⟩, hheader]

/-- A reversed header starts as it did. -/
theorem head?_reverseHeader (line : Line) : (reverseHeader line).head? = line.head? := by
  unfold reverseHeader
  split
  · next old new back hsplit =>
    obtain ⟨-, -, rfl⟩ := splitHeader?_eq_some hsplit
    rfl
  · rfl

/-- Outside of hunks a reversed line starts as it did. -/
theorem head?_reverseLines (line : Line) (lines : List Line) :
    ∀ l ∈ (reverseLines 0 0 (line :: lines)).head?, l.head? = line.head? := by
  intro l hl
  rw [reverseLines, if_pos ⟨rfl, rfl⟩] at hl
  split at hl
  · cases hl
    exact head?_reverseHeader line
  · cases hl
    rfl

/-- Markers are kept. -/
theorem readMarkers_reverseLines (lines : List Line) :
    readMarkers (reverseLines 0 0 lines) =
      ((readMarkers lines).1, reverseLines 0 0 (readMarkers lines).2) := by
  fun_induction readMarkers lines with
  | case1 s lines more ih =>
    have other : HeaderText.ofLine? ('\\' :: s) = none := rfl
    rw [reverseLines_of_other other, readMarkers, ih]
  | case2 lines hne =>
    refine readMarkers_of_head fun l hl => ?_
    cases lines with
    | nil => cases hl
    | cons line lines =>
      rw [head?_reverseLines line lines l hl]
      intro hmarker
      obtain ⟨s, rfl⟩ := List.head?_eq_some_iff.1 hmarker
      exact hne s lines rfl

/-- Markers belong to no side. -/
theorem map_reverse_readMarkers (lines : List Line) :
    (readMarkers lines).1.map BodyLine.reverse = (readMarkers lines).1 := by
  fun_induction readMarkers lines with
  | case1 s lines more ih => rw [List.map_cons, ih, BodyLine.reverse]
  | case2 => rfl

/-- Where hunks are read, the reversed hunks are read from the reversed lines. -/
theorem ReadsHunks.reverse {filename : List Char} {header hunks : Bool} {lines : List Line}
    {hs : List Hunk} (reads : ReadsHunks filename header hunks lines hs) :
    ReadsHunks filename header hunks (reverseLines 0 0 lines) (hs.map Hunk.reverse) := by
  -- On the reading of the diff: a header leads into a body, and a line between hunks stays as it
  -- is.
  induction reads with
  | done header => exact .done header
  | @hunk header hunks line lines rest t h body hs opens numbers filled later ih =>
    have marked := readMarkers_reverseLines rest
    have filled' := filled.reverse
    rw [Nat.sub_zero, Nat.sub_zero] at filled'
    have later' : ReadsHunks filename header true
        (readMarkers (reverseLines 0 0 rest)).2 (hs.map Hunk.reverse) := by
      rw [marked]
      exact ih
    have step : ReadsHunks filename header hunks _ _ :=
      .hunk (HeaderText.ofLine?_reverseHeader opens) (HeaderText.numbers_reverse numbers) filled'
        later'
    rw [reverseLines_of_header opens numbers]
    simpa [Hunk.reverse, marked, map_reverse_readMarkers] using step
  | target outside tagged named later ih =>
    rw [reverseLines_of_other outside]
    exact .target outside tagged named ih
  | other outside untagged unclosed later ih =>
    rw [reverseLines_of_other outside]
    exact .other outside untagged unclosed ih

/-- Reversing brings no newline into a line. -/
theorem not_mem_reverseLines {old new : Nat} {lines : List Line} (free : ∀ l ∈ lines, '\n' ∉ l) :
    ∀ l ∈ reverseLines old new lines, '\n' ∉ l := by
  induction lines generalizing old new with
  | nil => exact nofun
  | cons line lines ih =>
    obtain ⟨hline, free⟩ := List.forall_mem_cons.1 free
    rw [reverseLines]
    split
    · split
      · exact List.forall_mem_cons.2 ⟨not_mem_reverseHeader hline, ih free⟩
      · exact List.forall_mem_cons.2 ⟨hline, ih free⟩
    · exact List.forall_mem_cons.2 ⟨not_mem_reverseTag hline, ih free⟩

/-- Reversing makes no line empty, and no empty one longer. -/
theorem map_isEmpty_reverseLines (old new : Nat) (lines : List Line) :
    (reverseLines old new lines).map List.isEmpty = lines.map List.isEmpty := by
  induction lines generalizing old new with
  | nil => rfl
  | cons line lines ih =>
    have header : (reverseHeader line).isEmpty = line.isEmpty := by
      unfold reverseHeader
      split
      · next hsplit =>
        obtain ⟨-, -, rfl⟩ := splitHeader?_eq_some hsplit
        rfl
      · rfl
    have tag : (reverseTag line).isEmpty = line.isEmpty := by
      unfold reverseTag
      split <;> rfl
    rw [reverseLines]
    split
    · split
      · rw [List.map_cons, List.map_cons, header, ih]
      · rw [List.map_cons, List.map_cons, ih]
    · rw [List.map_cons, List.map_cons, tag, ih]

/-- Reversing adds no line and takes none away. -/
theorem reverseLines_eq_nil_iff {old new : Nat} {lines : List Line} :
    reverseLines old new lines = [] ↔ lines = [] := by
  rw [← List.map_eq_nil_iff (f := List.isEmpty), map_isEmpty_reverseLines, List.map_eq_nil_iff]

/-- The lines of a diff are those of its text. -/
theorem diffLines_eq {cs : List Char} (ne : cs ≠ []) :
    diffLines cs = (LineText.ofChars cs).lines := by
  by_cases hlast : cs.getLast? = some '\n' <;> simp [diffLines, LineText.ofChars, ne, hlast]

/-- The lines of a reversed diff are the reversed lines. -/
theorem diffLines_reverseText {diff : String} (ne : diff.toList ≠ []) :
    diffLines (reverseText diff).toList = reverseLines 0 0 (diffLines diff.toList) := by
  have some : (LineText.ofChars diff.toList).lines ≠ [] := by
    rw [← diffLines_eq ne]
    exact Text.pieces_ne_nil _ _
  have empty := map_isEmpty_reverseLines 0 0 (LineText.ofChars diff.toList).lines
  -- The reversed text has a trace of its last line, for the line is no more empty than before.
  have read : LineText.ofChars (reverseText diff).toList =
      ⟨reverseLines 0 0 (LineText.ofChars diff.toList).lines,
        (LineText.ofChars diff.toList).terminated⟩ := by
    rw [reverseText, String.toList_ofList]
    refine LineText.ofChars_toChars ?_ (not_mem_reverseLines fun l hl =>
      LineText.not_mem_of_mem_lines hl) fun bare hlast => ?_
    · exact fun h => some (reverseLines_eq_nil_iff.1 h)
    · have last := congrArg List.getLast? empty
      rw [List.getLast?_map, List.getLast?_map, hlast] at last
      obtain ⟨l, hl, hempty⟩ := Option.map_eq_some_iff.1 last.symm
      rw [List.isEmpty_iff.1 hempty] at hl
      exact LineText.getLast?_lines_ne bare hl
  have ne' : (reverseText diff).toList ≠ [] := by
    intro h
    rw [h] at read
    exact some (reverseLines_eq_nil_iff.1 (congrArg LineText.lines read).symm)
  rw [diffLines_eq ne', read, diffLines_eq ne]

/-- A reader that finds hunks in a diff finds the reversed hunks in the reversed diff. -/
theorem FileDiff.parse_reverseText {filename diff : String} {d : FileDiff}
    (parsed : parse filename diff = .ok d) :
    parse filename (reverseText diff) = .ok ⟨filename, d.hunks.map Hunk.reverse⟩ := by
  obtain ⟨hunks, hhunks, rfl⟩ := Outcome.map_eq_ok_iff.1 parsed
  have ne : diff.toList ≠ [] := by
    intro hdiff
    have header : HeaderText.ofLine? [] = none := rfl
    have target : ['+', '+', '+', ' '].isPrefixOf? ([] : Line) = none := rfl
    have none : readLines filename.toList false false [[]] = .error .noHunks := by
      simp [readLines, header, target]
    rw [hdiff, diffLines, if_neg (by simp), Text.pieces_nil, none] at hhunks
    cases hhunks
  rw [parse, diffLines_reverseText ne,
    readLines_eq_ok_iff.2 (readLines_eq_ok_iff.1 hhunks).reverse]
  rfl

end OverlaySync.Diff
