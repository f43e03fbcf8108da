import Mathlib.Data.List.Chain
import OverlaySync.Proofs.Diff.ReversedText

/-! # Which texts are diffs for a file

The lines of a diff fall into hunks, each with its header, its body and the markers behind it, and
other lines. A body ends where both sides have the numbers of lines that the header states, and not
at what looks like a header or a marker. `IsDiff` says how the parts have to be for a file, and a
text is read as a diff for the file exactly if its lines fall into such parts
(`FileDiff.exists_parse_iff`). -/

namespace OverlaySync.Diff

/-! ## What a diff is made of -/

/-- The digits are ASCII digits, and write a number that 64 bits hold. -/
def WritesNumber (ds : List Char) (n : Nat) : Prop :=
  (∀ d ∈ ds, d.isDigit = true) ∧ Nat.ofDigitChars 10 ds 0 = n ∧ n < UInt64.size

/-- A count is written in digits, or it is one and left out. -/
def WritesCount : Option (List Char) → Nat → Prop
  | none, n => n = 1
  | some ds, n => WritesNumber ds n

/-- The line has the form of a hunk header, with these two ranges. -/
def HasRanges (line : Line) (old new : RangeText) : Prop :=
  old.WellFormed ∧ new.WellFormed ∧ ∃ back, line = headerLine old new back

/-- The line is a hunk header, and its ranges write the numbers. -/
def Header.WrittenIn (h : Header) (line : Line) : Prop :=
  ∃ old new, HasRanges line old new ∧ WritesNumber old.1 h.oldStart ∧
    WritesCount old.2 h.oldCount ∧ WritesNumber new.1 h.newStart ∧ WritesCount new.2 h.newCount

/-- The line can stand in the body of a hunk. -/
def IsBodyLine (line : Line) : Prop :=
  line = [] ∨ line = ['\r'] ∨ ∃ tag ∈ [' ', '-', '+', '\\'], line.head? = some tag

/-- Whether a body line counts for the side whose own lines have the tag. -/
def countsFor (tag : Char) (line : Line) : Bool :=
  line = [] || line = ['\r'] || line.head? = some ' ' || line.head? = some tag

/-- The lines make up the body of a hunk with these numbers of lines of the old and of the new
side. -/
structure Fills (oldCount newCount : Nat) (body : List Line) : Prop where
  /-- All lines can stand in a body. -/
  lines : ∀ line ∈ body, IsBodyLine line
  /-- The lines of the old side have the stated number. -/
  old : body.countP (countsFor '-') = oldCount
  /-- The lines of the new side have the stated number. -/
  new : body.countP (countsFor '+') = newCount
  /-- Before the end of the body, lines of one of the sides are missing. -/
  first : ∀ k < body.length, (body.take k).countP (countsFor '-') < oldCount ∨
    (body.take k).countP (countsFor '+') < newCount

/-- A part of a diff. -/
inductive Part where
  /-- A hunk: its header, its body and the markers behind this. -/
  | hunk (header : Line) (body markers : List Line)
  /-- Any other line. -/
  | other (line : Line)

namespace Part

/-- The lines of a part. -/
def lines : Part → List Line
  | hunk header body markers => header :: (body ++ markers)
  | other line => [line]

/-- Whether the part is a hunk. -/
def isHunk : Part → Bool
  | hunk .. => true
  | other _ => false

/-- Whether the part is another line, and starts with a word. -/
def startsWith (word : List Char) : Part → Bool
  | hunk .. => false
  | other line => word.isPrefixOf line

/-- A hunk is as its header states, and no other line looks like a header. -/
def Sound : Part → Prop
  | hunk header body markers =>
    ∃ h : Header, h.WrittenIn header ∧ Fills h.oldCount h.newCount body ∧
      ∀ marker ∈ markers, marker.head? = some '\\'
  | other line => ¬∃ old new, HasRanges line old new

end Part

/-- How the line for the new file starts. -/
def newFileTag : List Char := ['+', '+', '+', ' ']

/-- How the line for the old file starts. -/
def oldFileTag : List Char := ['-', '-', '-', ' ']

/-- A text is cut at its first tab, or at its first ` (` if that comes earlier, or at its end. -/
structure CutsOff (text front back : List Char) : Prop where
  /-- The text has two parts. -/
  whole : text = front ++ back
  /-- No tab stands in the first one. -/
  noTab : '\t' ∉ front
  /-- No ` (` stands there. -/
  noBracket : ¬[' ', '('] <:+: front
  /-- The second one starts with either of them, if there is one. -/
  stops : back = [] ∨ ['\t'] <+: back ∨ [' ', '('] <+: back

/-- The path in a text that names a file: what is in front of the cut, without the white space at
its ends, and without one `b/` at its start. -/
def GivesPath (text path : List Char) : Prop :=
  ∃ front back, CutsOff text front back ∧ (Unicode.trim front = ['b', '/'] ++ path ∨
    Unicode.trim front = path ∧ ¬['b', '/'] <+: path)

/-- The path is that of the file, or leads to it. -/
def NamesFile (filename path : List Char) : Prop :=
  path = filename ∨ ('/' :: filename) <:+ path

/-- What holds of the parts of a diff for a file, and of some of them in a row. -/
structure Regular (filename : List Char) (parts : List Part) : Prop where
  /-- All parts are as they have to be. -/
  sound : ∀ p ∈ parts, p.Sound
  /-- A hunk has all the markers that stand behind its body. -/
  markers : parts.IsChain fun p q => p.isHunk = true → q.startsWith ['\\'] = false
  /-- A line for the new file names this file. -/
  named : ∀ text, .other (newFileTag ++ text) ∈ parts →
    ∃ path, GivesPath text path ∧ NamesFile filename path
  /-- Behind a hunk, no line is for an old file. -/
  closed : parts.Pairwise fun p q => p.isHunk = true → q.startsWith oldFileTag = false

/-- The parts make up a diff for a file. -/
structure IsDiff (filename : List Char) (parts : List Part) : Prop
    extends Regular filename parts where
  /-- There is a hunk. -/
  hunk : ∃ p ∈ parts, p.isHunk = true
  /-- Not more than one line is for the new file. -/
  single : parts.countP (Part.startsWith newFileTag) ≤ 1

/-! ## Headers -/

/-- The digits that are read from a header are those of its ranges. -/
theorem HeaderText.ofLine?_eq_some_iff {line : Line} {t : HeaderText} :
    HeaderText.ofLine? line = some t ↔
      HasRanges line (t.oldStart, t.oldCount) (t.newStart, t.newCount) := by
  constructor
  · intro h
    rw [HeaderText.ofLine?_eq, Option.map_eq_some_iff] at h
    obtain ⟨⟨old, new, back⟩, hsplit, rfl⟩ := h
    obtain ⟨hold, hnew, rfl⟩ := splitHeader?_eq_some hsplit
    exact ⟨hold, hnew, back, rfl⟩
  · rintro ⟨hold, hnew, back, rfl⟩
    exact HeaderText.ofLine?_headerLine hold hnew back

/-- A line is not read as a header if it does not have the form of one. -/
theorem HeaderText.ofLine?_eq_none_iff {line : Line} :
    HeaderText.ofLine? line = none ↔ (Part.other line).Sound := by
  rw [Option.eq_none_iff_forall_ne_some]
  constructor
  · rintro h ⟨old, new, ranges⟩
    exact h ⟨old.1, old.2, new.1, new.2⟩ (HeaderText.ofLine?_eq_some_iff.2 ranges)
  · intro h t ht
    exact h ⟨_, _, HeaderText.ofLine?_eq_some_iff.1 ht⟩

/-- Digits behind the number `n` are taken as a number if they are ASCII digits and all of them
write one that 64 bits hold. -/
theorem foldlM_takeDigit_eq_ok_iff {ds : List Char} {n m : Nat} (small : n ≤ maxNumber) :
    ds.foldlM takeDigit n = .ok m ↔
      (∀ d ∈ ds, d.isDigit = true) ∧ Nat.ofDigitChars 10 ds n = m ∧ m ≤ maxNumber := by
  constructor
  · intro h
    -- On the digits, with any number in front of them.
    induction ds generalizing n with
    | nil =>
      cases h
      exact ⟨nofun, rfl, small⟩
    | cons d ds ih =>
      rw [List.foldlM_cons, Outcome.bind_eq_ok_iff] at h
      obtain ⟨n', taken, h⟩ := h
      unfold takeDigit at taken
      split at taken
      · cases taken
      next digit =>
      dsimp only at taken
      split at taken
      · next fits =>
        cases taken
        obtain ⟨all, value, hm⟩ := ih fits h
        refine ⟨List.forall_mem_cons.2 ⟨by simpa using digit, all⟩, ?_, hm⟩
        rw [Nat.ofDigitChars_cons, value]
      · cases taken
  · rintro ⟨all, rfl, hm⟩
    exact foldlM_takeDigit all hm

/-- A number is read from digits, and from all that it has, if 64 bits hold it. -/
theorem numberOf_eq_ok_iff {ds : List Char} {n : Nat} :
    numberOf ds = .ok n ↔ WritesNumber ds n := by
  have bound : n ≤ maxNumber ↔ n < UInt64.size := Nat.lt_succ_iff.symm
  have steps : numberOf ds = .ok n ↔ _ := foldlM_takeDigit_eq_ok_iff (Nat.zero_le maxNumber)
  rw [steps, bound, WritesNumber]

/-- A count that is left out is one. -/
theorem countOf_eq_ok_iff {count : Option (List Char)} {n : Nat} :
    countOf count = .ok n ↔ WritesCount count n := by
  cases count with
  | none => simp [countOf, WritesCount, eq_comm]
  | some ds => exact numberOf_eq_ok_iff

/-- A header is read from the lines that write its numbers. -/
theorem Header.writtenIn_iff {line : Line} {h : Header} :
    h.WrittenIn line ↔ ∃ t, HeaderText.ofLine? line = some t ∧ t.numbers = .ok h := by
  simp only [HeaderText.numbers, Outcome.bind_eq_ok_iff, Outcome.pure_eq_ok_iff,
    numberOf_eq_ok_iff, countOf_eq_ok_iff]
  constructor
  · rintro ⟨old, new, ranges, hos, hoc, hns, hnc⟩
    exact ⟨⟨old.1, old.2, new.1, new.2⟩, HeaderText.ofLine?_eq_some_iff.2 ranges, _, hos, _, hoc,
      _, hns, _, hnc, rfl⟩
  · rintro ⟨t, ht, _, hos, _, hoc, _, hns, _, hnc, rfl⟩
    exact ⟨_, _, HeaderText.ofLine?_eq_some_iff.1 ht, hos, hoc, hns, hnc⟩

/-! ## Bodies -/

/-- A line that is read into a body adds to the sides that it counts for. -/
theorem BodyLine.counts_of_ofLine? {line : Line} {b : BodyLine} (h : ofLine? line = some b) :
    b.old?.toList.length = (countsFor '-' line).toNat ∧
      b.new?.toList.length = (countsFor '+' line).toNat := by
  unfold ofLine? at h
  split at h <;> cases h <;> exact ⟨rfl, rfl⟩

/-- The lines that can stand in a body are those that are read into one. -/
theorem BodyLine.exists_ofLine?_iff {line : Line} :
    (∃ b, ofLine? line = some b) ↔ IsBodyLine line := by
  unfold ofLine?
  constructor
  · rintro ⟨b, h⟩
    split at h
    · exact .inl rfl
    · exact .inr (.inl rfl)
    · exact .inr (.inr ⟨' ', by simp, rfl⟩)
    · exact .inr (.inr ⟨'-', by simp, rfl⟩)
    · exact .inr (.inr ⟨'+', by simp, rfl⟩)
    · exact .inr (.inr ⟨'\\', by simp, rfl⟩)
    · cases h
  · rintro (rfl | rfl | ⟨tag, known, head⟩)
    · exact ⟨_, rfl⟩
    · exact ⟨_, rfl⟩
    · obtain ⟨text, rfl⟩ := List.head?_eq_some_iff.1 head
      simp only [List.mem_cons, List.not_mem_nil, or_false] at known
      rcases known with rfl | rfl | rfl | rfl <;> exact ⟨_, rfl⟩

/-- A body starts with a line, if one is missing, and goes on with what is missing behind it. -/
theorem fills_cons_iff {oldCount newCount : Nat} {line : Line} {body : List Line} :
    Fills oldCount newCount (line :: body) ↔ (0 < oldCount ∨ 0 < newCount) ∧ IsBodyLine line ∧
      ∃ oldCount' newCount', oldCount = oldCount' + (countsFor '-' line).toNat ∧
        newCount = newCount' + (countsFor '+' line).toNat ∧ Fills oldCount' newCount' body := by
  have count (tag : Char) (body : List Line) : (line :: body).countP (countsFor tag) =
      body.countP (countsFor tag) + (countsFor tag line).toNat := by
    rw [List.countP_cons]
    cases countsFor tag line <;> rfl
  constructor
  · rintro ⟨lines, rfl, rfl, first⟩
    obtain ⟨here, later⟩ := List.forall_mem_cons.1 lines
    refine ⟨first 0 (Nat.succ_pos _), here, _, _, count _ _, count _ _, later, rfl, rfl, ?_⟩
    -- What is missing behind `k` lines of the rest is missing behind one more line of the body.
    intro k hk
    have missing := first (k + 1) (Nat.succ_lt_succ hk)
    rw [List.take_succ_cons, count, count, count, count] at missing
    omega
  · rintro ⟨missing, here, _, _, rfl, rfl, later, rfl, rfl, first⟩
    refine ⟨List.forall_mem_cons.2 ⟨here, later⟩, count _ _, count _ _, fun k hk => ?_⟩
    cases k with
    | zero => exact missing
    | succ k =>
      have missing := first k (Nat.lt_of_succ_lt_succ hk)
      rw [List.take_succ_cons, count, count]
      omega

/-- A body without lines fills a hunk that announces none. -/
theorem fills_nil_iff {oldCount newCount : Nat} :
    Fills oldCount newCount [] ↔ oldCount = 0 ∧ newCount = 0 := by
  constructor
  · rintro ⟨-, rfl, rfl, -⟩
    exact ⟨rfl, rfl⟩
  · rintro ⟨rfl, rfl⟩
    exact ⟨nofun, rfl, rfl, nofun⟩

/-- What is read as a body fills up what is missing of one. -/
theorem ReadsBody.exists_fills {h : Header} {old new : Nat} {lines rest : List Line}
    {bs : List BodyLine} (reads : ReadsBody h old new lines bs rest) :
    ∃ body oldCount newCount, lines = body ++ rest ∧ h.oldCount = oldCount + old ∧
      h.newCount = newCount + new ∧ Fills oldCount newCount body := by
  induction reads with
  | done rest => exact ⟨[], 0, 0, rfl, by omega, by omega, fills_nil_iff.2 ⟨rfl, rfl⟩⟩
  | @line old new line lines rest b bs missing read later ih =>
    -- A body that is read does not overrun a side, so the line is one of those that were missing.
    obtain ⟨body, oldCount, newCount, rfl, hold, hnew, fills⟩ := ih
    obtain ⟨countOld, countNew⟩ := BodyLine.counts_of_ofLine? read
    have here := BodyLine.exists_ofLine?_iff.1 ⟨b, read⟩
    refine ⟨line :: body, oldCount + (countsFor '-' line).toNat,
      newCount + (countsFor '+' line).toNat, rfl, by omega, by omega, ?_⟩
    exact fills_cons_iff.2 ⟨by omega, here, _, _, rfl, rfl, fills⟩

/-- What fills up a body is read into it. -/
theorem Fills.exists_readsBody {h : Header} {old new oldCount newCount : Nat} {body : List Line}
    (fills : Fills oldCount newCount body) (hold : h.oldCount = oldCount + old)
    (hnew : h.newCount = newCount + new) (rest : List Line) :
    ∃ bs, ReadsBody h old new (body ++ rest) bs rest := by
  induction body generalizing old new oldCount newCount with
  | nil =>
    obtain ⟨rfl, rfl⟩ := fills_nil_iff.1 fills
    obtain rfl : old = h.oldCount := by omega
    obtain rfl : new = h.newCount := by omega
    exact ⟨[], .done rest⟩
  | cons line body ih =>
    obtain ⟨missing, here, _, _, rfl, rfl, later⟩ := fills_cons_iff.1 fills
    obtain ⟨b, hb⟩ := BodyLine.exists_ofLine?_iff.2 here
    obtain ⟨countOld, countNew⟩ := BodyLine.counts_of_ofLine? hb
    have next : ∃ bs, ReadsBody h (old + b.old?.toList.length) (new + b.new?.toList.length)
        (body ++ rest) bs rest := ih later (by omega) (by omega)
    obtain ⟨bs, hbs⟩ := next
    exact ⟨b :: bs, .line (by omega) hb hbs⟩

/-- All markers are read, and only they. -/
theorem exists_readMarkers (lines : List Line) :
    ∃ markers, lines = markers ++ (readMarkers lines).2 ∧
      (∀ marker ∈ markers, marker.head? = some '\\') ∧
      ∀ line ∈ (readMarkers lines).2.head?, line.head? ≠ some '\\' := by
  fun_induction readMarkers lines with
  | case1 s lines more ih =>
    obtain ⟨markers, whole, all, ends⟩ := ih
    exact ⟨('\\' :: s) :: markers, congrArg _ whole, List.forall_mem_cons.2 ⟨rfl, all⟩, ends⟩
  | case2 lines other =>
    refine ⟨[], rfl, List.forall_mem_nil _, fun line there marker => ?_⟩
    obtain ⟨lines, rfl⟩ := List.head?_eq_some_iff.1 there
    obtain ⟨s, rfl⟩ := List.head?_eq_some_iff.1 marker
    exact other s lines rfl

/-- Markers are passed over up to the first line that is none. -/
theorem readMarkers_append {markers rest : List Line}
    (all : ∀ marker ∈ markers, marker.head? = some '\\')
    (ends : ∀ line ∈ rest.head?, line.head? ≠ some '\\') :
    (readMarkers (markers ++ rest)).2 = rest := by
  induction markers with
  | nil => rw [List.nil_append, readMarkers_of_head ends]
  | cons marker markers ih =>
    obtain ⟨here, later⟩ := List.forall_mem_cons.1 all
    obtain ⟨s, rfl⟩ := List.head?_eq_some_iff.1 here
    exact ih later

/-! ## File headers -/

/-- What comes before a word stands at the start of the text. -/
theorem before_prefix (word cs : List Char) : before word cs <+: cs := by
  induction cs with
  | nil => exact List.prefix_rfl
  | cons c cs ih =>
    rw [before]
    split
    · exact List.nil_prefix
    · exact List.cons_prefix_cons.2 ⟨rfl, ih⟩

/-- In front of the cut stands no ` (`, not even with its second character behind the cut. -/
theorem CutsOff.not_bracket_prefix {text front back : List Char} (h : CutsOff text front back)
    (some : front ≠ []) : ¬[' ', '('] <+: text := by
  obtain ⟨rfl, -, noBracket, stops⟩ := h
  rintro ⟨rest, whole⟩
  match front with
  | [] => exact some rfl
  | [c] =>
    obtain ⟨rfl, rfl⟩ := List.cons.inj whole
    simp at stops
  | c :: d :: front =>
    simp only [List.cons_append, List.cons.injEq] at whole
    obtain ⟨rfl, rfl, -⟩ := whole
    exact noBracket ⟨[], front, rfl⟩

/-- The cut is found. -/
theorem before_of_cutsOff {text front back : List Char} (h : CutsOff text front back) :
    before [' ', '('] (before ['\t'] text) = front := by
  induction front generalizing text with
  | nil =>
    obtain ⟨rfl, -, -, rfl | ⟨rest, rfl⟩ | ⟨rest, rfl⟩⟩ := h <;> rfl
  | cons c front ih =>
    -- The text in front of the tab is shorter, so no ` (` starts it either.
    have bracket := h.not_bracket_prefix (List.cons_ne_nil c front)
    obtain ⟨rfl, noTab, noBracket, stops⟩ := h
    simp only [List.mem_cons, not_or] at noTab
    have later := ih ⟨rfl, noTab.2, fun there => noBracket (List.infix_cons there), stops⟩
    have tab : before ['\t'] (c :: front ++ back) = c :: before ['\t'] (front ++ back) := by
      simp [before, noTab.1]
    have less : c :: before ['\t'] (front ++ back) <+: c :: front ++ back :=
      List.cons_prefix_cons.2 ⟨rfl, before_prefix _ _⟩
    rw [tab, before, if_neg, later]
    rw [List.isPrefixOf_iff_prefix]
    exact fun there => bracket (there.trans less)

/-- Every text can be cut. -/
theorem exists_cutsOff (text : List Char) : ∃ front back, CutsOff text front back := by
  induction text with
  | nil => exact ⟨[], [], rfl, nofun, by simp, .inl rfl⟩
  | cons c text ih =>
    by_cases here : ['\t'] <+: c :: text ∨ [' ', '('] <+: c :: text
    · exact ⟨[], c :: text, rfl, nofun, by simp, .inr here⟩
    · rw [not_or] at here
      obtain ⟨front, back, rfl, noTab, noBracket, stops⟩ := ih
      refine ⟨c :: front, back, rfl, ?_, ?_, stops⟩
      · simp only [List.mem_cons, not_or]
        refine ⟨?_, noTab⟩
        rintro rfl
        exact here.1 ⟨_, rfl⟩
      · rw [List.infix_cons_iff, not_or]
        exact ⟨fun bracket => here.2 (bracket.trans ⟨back, rfl⟩), noBracket⟩

/-- The path of a text is what is taken from it. -/
theorem givesPath_iff {text path : List Char} : GivesPath text path ↔ targetOf text = path := by
  obtain ⟨front, back, cut⟩ := exists_cutsOff text
  unfold targetOf
  rw [before_of_cutsOff cut]
  dsimp only
  constructor
  · rintro ⟨front', back', cut', h⟩
    -- A text is cut off in one place only.
    obtain rfl : front = front' := (before_of_cutsOff cut).symm.trans (before_of_cutsOff cut')
    obtain h | ⟨rfl, plain⟩ := h
    · rw [h]
      rfl
    · split
      · next path' h => exact absurd ⟨path', h.symm⟩ plain
      · rfl
  · intro h
    refine ⟨front, back, cut, ?_⟩
    split at h
    · next path' stripped =>
      subst h
      exact .inl stripped
    · next plain =>
      subst h
      exact .inr ⟨rfl, fun ⟨path', h⟩ => plain path' h.symm⟩

/-- A line for the new file is accepted if its path names the file. -/
theorem names_iff {path filename : List Char} :
    names path filename = true ↔ NamesFile filename path := by
  simp [names, NamesFile]

/-! ## Parts in a row -/

section Parts

variable {filename : List Char} {header hunks : Bool} {p : Part} {parts parts' : List Part}

/-- The first line of parts is a marker if the first part is. -/
theorem head_flatMap_lines (sound : ∀ p ∈ parts, p.Sound) :
    (∀ line ∈ (parts.flatMap Part.lines).head?, line.head? ≠ some '\\') ↔
      ∀ p ∈ parts.head?, p.startsWith ['\\'] = false := by
  cases parts with
  | nil => exact ⟨fun _ => nofun, fun _ => nofun⟩
  | cons p parts =>
    cases p with
    | hunk line body markers =>
      -- A header is no marker.
      obtain ⟨h, ⟨old, new, ⟨-, -, back, rfl⟩, -⟩, -⟩ := sound _ List.mem_cons_self
      simp [Part.lines, Part.startsWith, headerLine]
    | other line =>
      have tagged : ['\\'].isPrefixOf line = true ↔ line.head? = some '\\' := by
        rw [List.isPrefixOf_iff_prefix]
        cases line <;> simp [List.cons_prefix_cons, eq_comm]
      simp [Part.lines, Part.startsWith, ← Bool.not_eq_true, tagged]

/-- What holds of the first part, in front of the others. -/
theorem regular_cons_iff :
    Regular filename (p :: parts) ↔ p.Sound ∧
      (p.isHunk = true → ∀ q ∈ parts.head?, q.startsWith ['\\'] = false) ∧
      (∀ text, p = .other (newFileTag ++ text) →
        ∃ path, GivesPath text path ∧ NamesFile filename path) ∧
      (p.isHunk = true → ∀ q ∈ parts, q.startsWith oldFileTag = false) ∧
      Regular filename parts := by
  constructor
  · rintro ⟨sound, chain, named, closed⟩
    obtain ⟨here, later⟩ := List.forall_mem_cons.1 sound
    obtain ⟨ends, chain⟩ := List.isChain_cons.1 chain
    obtain ⟨shut, closed⟩ := List.pairwise_cons.1 closed
    refine ⟨here, fun isHunk q there => ends q there isHunk, ?_,
      fun isHunk q there => shut q there isHunk, later, chain, ?_, closed⟩
    · rintro text rfl
      exact named text List.mem_cons_self
    · exact fun text there => named text (List.mem_cons_of_mem p there)
  · rintro ⟨here, ends, file, shut, sound, chain, named, closed⟩
    refine ⟨List.forall_mem_cons.2 ⟨here, sound⟩, ?_, fun text there => ?_, ?_⟩
    · exact List.isChain_cons.2 ⟨fun q there isHunk => ends isHunk q there, chain⟩
    · obtain same | there := List.mem_cons.1 there
      · exact file text same.symm
      · exact named text there
    · exact List.pairwise_cons.2 ⟨fun q there isHunk => shut isHunk q there, closed⟩

/-! ## Reading parts -/

/-- The parts continue a diff: `header` says whether a line for the new file stands in front of
them, and `hunks` whether a hunk does. -/
structure Continues (filename : List Char) (header hunks : Bool) (parts : List Part) : Prop
    extends Regular filename parts where
  hunk : hunks = true ∨ ∃ p ∈ parts, p.isHunk = true
  single : parts.countP (Part.startsWith newFileTag) + header.toNat ≤ 1
  /-- Behind a hunk that stands in front of them, no line is for an old file either. -/
  shut : hunks = true → ∀ p ∈ parts, p.startsWith oldFileTag = false

/-- A diff continues nothing. -/
theorem isDiff_iff : IsDiff filename parts ↔ Continues filename false false parts := by
  constructor
  · intro h
    exact ⟨h.toRegular, .inr h.hunk, h.single, nofun⟩
  · intro h
    exact ⟨h.toRegular, h.hunk.resolve_left nofun, h.single⟩

/-- A diff may end once it has a hunk. -/
theorem continues_nil_iff : Continues filename header hunks [] ↔ hunks = true := by
  constructor
  · intro h
    exact h.hunk.resolve_right (by simp)
  · intro h
    exact ⟨⟨nofun, .nil, nofun, .nil⟩, .inl h, by cases header <;> decide, fun _ => nofun⟩

/-- Behind a hunk comes no marker, and no line for an old file. -/
theorem continues_hunk_iff {line : Line} {body markers : List Line} :
    Continues filename header hunks (.hunk line body markers :: parts) ↔
      (Part.hunk line body markers).Sound ∧
      (∀ q ∈ parts.head?, q.startsWith ['\\'] = false) ∧
      Continues filename header true parts := by
  have count : (Part.hunk line body markers :: parts).countP (Part.startsWith newFileTag) =
      parts.countP (Part.startsWith newFileTag) := List.countP_cons_of_neg nofun
  constructor
  · rintro ⟨regular, -, single, -⟩
    obtain ⟨here, ends, -, shut, later⟩ := regular_cons_iff.1 regular
    exact ⟨here, ends rfl, later, .inl rfl, count ▸ single, fun _ => shut rfl⟩
  · rintro ⟨here, ends, later, -, single, shut⟩
    have regular := regular_cons_iff.2 ⟨here, fun _ => ends, nofun, fun _ => shut rfl, later⟩
    exact ⟨regular, .inr ⟨_, List.mem_cons_self, rfl⟩, count ▸ single,
      fun _ => List.forall_mem_cons.2 ⟨rfl, shut rfl⟩⟩

/-- Another line may be for the new file if no line before it is, and for an old file if no hunk
stands before it. -/
theorem continues_other_iff {line : Line} :
    Continues filename header hunks (.other line :: parts) ↔
      (Part.other line).Sound ∧
      (∀ text, line = newFileTag ++ text →
        header = false ∧ ∃ path, GivesPath text path ∧ NamesFile filename path) ∧
      (hunks = true → oldFileTag.isPrefixOf line = false) ∧
      Continues filename (header || newFileTag.isPrefixOf line) hunks parts := by
  have count : (Part.other line :: parts).countP (Part.startsWith newFileTag) =
      parts.countP (Part.startsWith newFileTag) + (newFileTag.isPrefixOf line).toNat := by
    rw [List.countP_cons, Part.startsWith]
    cases newFileTag.isPrefixOf line <;> rfl
  constructor
  · rintro ⟨regular, hunk, single, shut⟩
    obtain ⟨here, -, file, -, later⟩ := regular_cons_iff.1 regular
    rw [count] at single
    refine ⟨here, ?_, fun seen => shut seen _ List.mem_cons_self, later, ?_, ?_,
      fun seen q there => shut seen q (List.mem_cons_of_mem _ there)⟩
    · rintro text rfl
      refine ⟨?_, file text rfl⟩
      rw [List.isPrefixOf_iff_prefix.2 (List.prefix_append _ _)] at single
      -- A second line for the new file would make two of them.
      cases header with
      | false => rfl
      | true => simp at single
    · refine hunk.imp_right fun ⟨q, there, isHunk⟩ => ?_
      obtain rfl | there := List.mem_cons.1 there
      · cases isHunk
      · exact ⟨q, there, isHunk⟩
    · have either : ∀ b b' : Bool, (b || b').toNat ≤ b'.toNat + b.toNat := by decide
      have := either header (newFileTag.isPrefixOf line)
      omega
  · rintro ⟨here, file, shutHere, later, hunk, single, shut⟩
    refine ⟨regular_cons_iff.2 ⟨here, nofun, ?_, nofun, later⟩, ?_, ?_,
      fun seen => List.forall_mem_cons.2 ⟨shutHere seen, shut seen⟩⟩
    · rintro text ⟨⟩
      exact (file text rfl).2
    · exact hunk.imp_right fun ⟨q, there, isHunk⟩ => ⟨q, List.mem_cons_of_mem _ there, isHunk⟩
    · rw [count]
      -- Only a line for the new file counts, and there has been none before it.
      cases tagged : newFileTag.isPrefixOf line with
      | false => simpa [tagged] using single
      | true =>
        obtain ⟨text, rfl⟩ := List.isPrefixOf_iff_prefix.1 tagged
        simpa [tagged, (file text rfl).1] using single

/-- A line that does not start with a word has nothing behind it. -/
theorem isPrefixOf?_eq_none_iff {word line : List Char} :
    word.isPrefixOf? line = none ↔ word.isPrefixOf line = false := by
  rw [← Option.not_isSome_iff_eq_none, List.isSome_isPrefixOf?_eq_isPrefixOf, Bool.not_eq_true]

/-- Lines that are read fall into parts. -/
theorem ReadsHunks.exists_parts {lines : List Line} {hs : List Hunk}
    (reads : ReadsHunks filename header hunks lines hs) :
    ∃ parts, lines = parts.flatMap Part.lines ∧ Continues filename header hunks parts := by
  induction reads with
  | done header => exact ⟨[], rfl, continues_nil_iff.2 rfl⟩
  | @hunk header hunks line lines rest t h body hs opens numbers filled later ih =>
    -- The lines are the header, the body, all markers behind it, and the parts behind them.
    obtain ⟨parts, whole, continues⟩ := ih
    obtain ⟨body, oldCount, newCount, rfl, hold, hnew, fills⟩ := filled.exists_fills
    obtain ⟨marked, hmarked, all, ends⟩ := exists_readMarkers rest
    rw [whole] at ends
    refine ⟨.hunk line body marked :: parts, ?_,
      continues_hunk_iff.2 ⟨⟨h, ?_, ?_, all⟩, ?_, continues⟩⟩
    · rw [hmarked, whole, List.flatMap_cons, Part.lines, List.cons_append, List.append_assoc]
    · exact Header.writtenIn_iff.2 ⟨t, opens, numbers⟩
    · rwa [hold, hnew]
    · exact (head_flatMap_lines continues.sound).1 ends
  | @target hunks line path lines hs outside tagged named later ih =>
    obtain ⟨parts, rfl, continues⟩ := ih
    obtain rfl : newFileTag ++ path = line := List.isPrefixOf?_eq_some_iff_append_eq.1 tagged
    have prefixed : newFileTag.isPrefixOf (newFileTag ++ path) = true :=
      List.isPrefixOf_iff_prefix.2 (List.prefix_append _ _)
    refine ⟨.other (newFileTag ++ path) :: parts, rfl, continues_other_iff.2
      ⟨HeaderText.ofLine?_eq_none_iff.1 outside, fun text same => ?_, fun _ => rfl, ?_⟩⟩
    · cases List.append_cancel_left same
      exact ⟨rfl, _, givesPath_iff.2 rfl, names_iff.1 named⟩
    · rwa [prefixed, Bool.or_true]
  | @other header hunks line lines hs outside untagged unclosed later ih =>
    obtain ⟨parts, rfl, continues⟩ := ih
    have noFile : newFileTag.isPrefixOf line = false := isPrefixOf?_eq_none_iff.1 untagged
    refine ⟨.other line :: parts, rfl, continues_other_iff.2
      ⟨HeaderText.ofLine?_eq_none_iff.1 outside, ?_, unclosed, ?_⟩⟩
    · rintro text rfl
      cases noFile
    · rwa [noFile, Bool.or_false]

/-- Lines that fall into parts are read. -/
theorem Continues.exists_readsHunks (continues : Continues filename header hunks parts) :
    ∃ hs, ReadsHunks filename header hunks (parts.flatMap Part.lines) hs := by
  induction parts generalizing header hunks with
  | nil =>
    obtain rfl := continues_nil_iff.1 continues
    exact ⟨[], .done header⟩
  | cons p parts ih =>
    cases p with
    | hunk line body markers =>
      -- A hunk takes its body and its markers, so the rest is read as the other parts.
      obtain ⟨⟨h, written, fills, all⟩, ends, later⟩ := continues_hunk_iff.1 continues
      obtain ⟨t, ht, hh⟩ := Header.writtenIn_iff.1 written
      obtain ⟨bs, filled⟩ := fills.exists_readsBody (Nat.add_zero _).symm (Nat.add_zero _).symm
        (markers ++ parts.flatMap Part.lines)
      obtain ⟨hs, hlater⟩ := ih later
      rw [← readMarkers_append all ((head_flatMap_lines later.sound).2 ends)] at hlater
      rw [List.flatMap_cons, Part.lines, List.cons_append, List.append_assoc]
      exact ⟨_, .hunk ht hh filled hlater⟩
    | other line =>
      obtain ⟨sound, file, shut, later⟩ := continues_other_iff.1 continues
      obtain ⟨hs, hlater⟩ := ih later
      have outside := HeaderText.ofLine?_eq_none_iff.2 sound
      -- Whether a line is for the new file decides what is known of those behind it.
      cases tagged : newFileTag.isPrefixOf line with
      | false =>
        rw [tagged, Bool.or_false] at hlater
        exact ⟨hs, .other outside (isPrefixOf?_eq_none_iff.2 tagged) shut hlater⟩
      | true =>
        obtain ⟨text, rfl⟩ := List.isPrefixOf_iff_prefix.1 tagged
        obtain ⟨rfl, path, gives, named⟩ := file text rfl
        rw [tagged] at hlater
        rw [← givesPath_iff.1 gives] at named
        exact ⟨hs, .target outside (List.isPrefixOf?_eq_some_iff_append_eq.2 rfl)
          (names_iff.2 named) hlater⟩

end Parts

/-- A text is read as a diff for a file exactly if its lines, less one newline at the end, fall into
parts that make up a diff for this file: at least one hunk, each with the numbers of lines that its
header states and with the markers behind it, and lines that do not look like a header; of which at
most one is for the new file and names it, and none behind the first hunk is for an old file. -/
theorem FileDiff.exists_parse_iff (filename diff : String) :
    (∃ d, parse filename diff = .ok d) ↔
      ∃ parts, diffLines diff.toList = parts.flatMap Part.lines ∧
        IsDiff filename.toList parts := by
  simp only [isDiff_iff]
  constructor
  · rintro ⟨d, parsed⟩
    obtain ⟨hunks, hhunks, -⟩ := Outcome.map_eq_ok_iff.1 parsed
    exact (readLines_eq_ok_iff.1 hhunks).exists_parts
  · rintro ⟨parts, whole, continues⟩
    obtain ⟨hs, reads⟩ := continues.exists_readsHunks
    rw [← whole] at reads
    exact ⟨_, Outcome.map_eq_ok_iff.2 ⟨hs, readLines_eq_ok_iff.2 reads, rfl⟩⟩

end OverlaySync.Diff
