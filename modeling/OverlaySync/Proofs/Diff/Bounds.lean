import OverlaySync.Diff.PatchedFile
import OverlaySync.Proofs.Diff.Acceptance
import OverlaySync.Proofs.Host.Sessions

/-! # Patching in range

The numbers of a diff are read from its headers and can be as large as 64 bits allow. `patched?`
reads and applies a diff with positions in the whole text, and gives nothing as soon as a sum needs
more than 64 bits, a slice does not lie in the text, or the lines that are done are more than there
are. It gives a result for all texts that memory holds, the one of `patched`: no number of a header
leads out of range.

Main statement: `patched_in_range`. -/

namespace OverlaySync.Diff

/-! ## Sums and slices -/

/-- The sum of two numbers, if 64 bits hold it. -/
def add? (a b : Nat) : Option Nat :=
  if a + b ≤ maxNumber then some (a + b) else none

/-- The lines behind the first `i` and up to the first `j`, if there are so many, in this order. -/
def slice? (lines : List Line) (i j : Nat) : Option (List Line) :=
  if i ≤ j ∧ j ≤ lines.length then some ((lines.take j).drop i) else none

/-- The checked sum is the sum, where it fits. -/
theorem add?_eq_some_iff {a b c : Nat} : add? a b = some c ↔ a + b = c ∧ c ≤ maxNumber := by
  grind [add?]

/-- A sum that fits is found. -/
theorem add?_of_le {a b : Nat} (fits : a + b ≤ maxNumber) : add? a b = some (a + b) :=
  add?_eq_some_iff.2 ⟨rfl, fits⟩

/-- A slice within the lines is found: what is left behind its start, cut at its end. -/
theorem slice?_of_le {lines : List Line} {i j : Nat} (order : i ≤ j) (inside : j ≤ lines.length) :
    slice? lines i j = some ((lines.drop i).take (j - i)) := by
  rw [slice?, if_pos ⟨order, inside⟩, List.drop_take]

/-- What comes behind the first lines. -/
theorem slice?_length {lines : List Line} {i : Nat} (inside : i ≤ lines.length) :
    slice? lines i lines.length = some (lines.drop i) := by
  rw [slice?_of_le inside (Nat.le_refl _), List.take_of_length_le (by rw [List.length_drop])]

/-! ## Reading in range -/

/-- Read a body as `readBody` does, with counts that 64 bits hold. -/
def readBody? (h : Header) (old new : Nat) :
    List Line → Option (Except Fault (List BodyLine × List Line))
  | [] =>
    if old < h.oldCount ∨ new < h.newCount then some (.error (.truncated h.oldStart))
    else if old = h.oldCount ∧ new = h.newCount then some (.ok ([], []))
    else some (.error (.countMismatch h.oldStart h.oldCount h.newStart h.newCount))
  | line :: lines =>
    if old < h.oldCount ∨ new < h.newCount then
      match BodyLine.ofLine? line with
      | none => some (.error (.unexpectedLine h.oldStart line))
      | some b => do
        let old' ← add? old b.old?.toList.length
        let new' ← add? new b.new?.toList.length
        let read ← readBody? h old' new' lines
        return read.map fun (bs, rest) => (b :: bs, rest)
    else if old = h.oldCount ∧ new = h.newCount then some (.ok ([], line :: lines))
    else some (.error (.countMismatch h.oldStart h.oldCount h.newStart h.newCount))

/-- Reading in range gives nothing but what is read. -/
theorem readBody_of_readBody? {h : Header} {old new : Nat} {lines : List Line}
    {read : Except Fault (List BodyLine × List Line)}
    (hread : readBody? h old new lines = some read) : readBody h old new lines = read := by
  induction lines generalizing old new read with
  | nil => grind [readBody?, readBody]
  | cons line lines ih =>
    by_cases missing : old < h.oldCount ∨ new < h.newCount
    · rw [readBody?, if_pos missing] at hread
      rw [readBody, if_pos missing]
      cases hb : BodyLine.ofLine? line with
      | none =>
        rw [hb] at hread
        exact Option.some.inj hread
      | some b =>
        simp only [hb, Option.bind_eq_bind, Option.bind_eq_some_iff, add?_eq_some_iff] at hread
        obtain ⟨_, ⟨rfl, -⟩, _, ⟨rfl, -⟩, later, hlater, ok⟩ := hread
        cases Option.some.inj ok
        dsimp only
        rw [ih hlater]
        cases later <;> rfl
    · grind [readBody?, readBody]

/-- The counts of a body grow with its lines, so 64 bits hold them if they hold the number of
lines. -/
theorem readBody?_eq {h : Header} {old new : Nat} {lines : List Line}
    (hold : old + lines.length ≤ maxNumber) (hnew : new + lines.length ≤ maxNumber) :
    readBody? h old new lines = some (readBody h old new lines) := by
  induction lines generalizing old new with
  | nil => grind [readBody?, readBody]
  | cons line lines ih =>
    by_cases missing : old < h.oldCount ∨ new < h.newCount
    · rw [List.length_cons] at hold hnew
      rw [readBody?, if_pos missing, readBody, if_pos missing]
      cases BodyLine.ofLine? line with
      | none => rfl
      | some b =>
        have one (l : Option Line) : l.toList.length ≤ 1 := by cases l <;> simp
        have oldOne := one b.old?
        have newOne := one b.new?
        dsimp only
        have oldSum : add? old b.old?.toList.length = _ := add?_of_le (by omega)
        have newSum : add? new b.new?.toList.length = _ := add?_of_le (by omega)
        simp only [oldSum, newSum, ih (show old + b.old?.toList.length + _ ≤ _ by omega)
          (show new + b.new?.toList.length + _ ≤ _ by omega), Option.bind_eq_bind, Option.bind_some]
        cases readBody h (old + b.old?.toList.length) (new + b.new?.toList.length) lines <;> rfl
    · grind [readBody?, readBody]

/-- Read the lines of a diff as `readLines` does, with counts that 64 bits hold. -/
def readLines? (filename : List Char) (header hunks : Bool) (lines : List Line) :
    Option (Except Fault (List Hunk)) :=
  match lines with
  | [] => some (if hunks then .ok [] else .error .noHunks)
  | line :: rest =>
    match HeaderText.ofLine? line with
    | some t =>
      match t.numbers with
      | .error f => some (.error (.badHeader line f))
      | .ok h =>
        match hb : readBody? h 0 0 rest with
        | none => none
        | some (.error f) => some (.error f)
        | some (.ok (body, rest')) =>
          have := readBody_length_le (readBody_of_readBody? hb)
          have := readMarkers_length_le rest'
          let markers := readMarkers rest'
          (readLines? filename header true markers.2).map (·.map (⟨h, body ++ markers.1⟩ :: ·))
    | none =>
      match ['+', '+', '+', ' '].isPrefixOf? line with
      | some target =>
        if header then some (.error .severalFiles)
        else if !names (targetOf target) filename then some (.error (.otherFile (targetOf target)))
        else readLines? filename true hunks rest
      | none =>
        if hunks && ['-', '-', '-', ' '].isPrefixOf line then some (.error .severalFiles)
        else readLines? filename header hunks rest
  termination_by lines.length

/-- A diff is read in range. -/
theorem readLines?_eq {filename : List Char} {header hunks : Bool} {lines : List Line}
    (few : lines.length ≤ maxNumber) :
    readLines? filename header hunks lines = some (readLines filename header hunks lines) := by
  -- No body is cut off: it has fewer lines than the diff, which 64 bits can count.
  fun_induction readLines? filename header hunks lines with
  | case1 header hunks => rw [readLines]
  | case2 header hunks line rest t ht f hf => simp only [readLines_cons, ht, hf]
  | case3 header hunks line rest t ht h hh hb =>
    rw [List.length_cons] at few
    rw [readBody?_eq (by omega) (by omega)] at hb
    cases hb
  | case4 header hunks line rest t ht h hh f hb =>
    simp only [readLines_cons, ht, hh, readBody_of_readBody? hb]
  | case5 header hunks line rest t ht h hh body rest' hb hrest _ markers ih =>
    have hmarkers : markers.2.length ≤ rest'.length := readMarkers_length_le rest'
    rw [List.length_cons] at few
    rw [ih (by omega)]
    simp only [readLines_cons, ht, hh, readBody_of_readBody? hb]
    rfl
  | case6 hunks line rest other target htarget =>
    simp only [readLines_cons, other, htarget, if_pos]
  | case7 header hunks line rest other target htarget fresh foreign =>
    simp only [readLines_cons, other, htarget, if_neg fresh, if_pos foreign]
  | case8 header hunks line rest other target htarget fresh named ih =>
    simp only [readLines_cons, other, htarget, if_neg fresh, if_neg named]
    exact ih (Nat.le_of_succ_le few)
  | case9 header hunks line rest other untagged closed =>
    simp only [readLines_cons, other, untagged, if_pos closed]
  | case10 header hunks line rest other untagged closed ih =>
    simp only [readLines_cons, other, untagged, if_neg closed]
    exact ih (Nat.le_of_succ_le few)

/-- 64 bits hold the numbers of a header. -/
theorem Header.WrittenIn.small {line : Line} {h : Header} (written : h.WrittenIn line) :
    ∀ n ∈ [h.oldStart, h.oldCount, h.newStart, h.newCount], n ≤ maxNumber := by
  have number {ds : List Char} {n : Nat} (writes : WritesNumber ds n) : n ≤ maxNumber :=
    Nat.le_of_lt_succ writes.2.2
  have count {ds : Option (List Char)} {n : Nat} (writes : WritesCount ds n) : n ≤ maxNumber := by
    cases ds with
    | none => rw [show n = 1 from writes]; decide
    | some ds => exact number writes
  obtain ⟨old, new, -, oldStart, oldCount, newStart, newCount⟩ := written
  simp [number oldStart, count oldCount, number newStart, count newCount]

/-- The headers of the hunks stand in the lines, in their order. -/
theorem ReadsHunks.exists_headers {filename : List Char} {header hunks : Bool}
    {lines : List Line} {hs : List Hunk} (reads : ReadsHunks filename header hunks lines hs) :
    ∃ headers, List.Sublist headers lines ∧
      List.Forall₂ (fun h line => h.toHeader.WrittenIn line) hs headers := by
  induction reads with
  | done header => exact ⟨[], .slnil, .nil⟩
  | @hunk _ _ line _ _ t _ _ _ opens numbers filled _ ih =>
    obtain ⟨headers, inside, written⟩ := ih
    exact ⟨line :: headers, (inside.trans filled.suffix_markers.sublist).cons_cons line,
      .cons (Header.writtenIn_iff.2 ⟨t, opens, numbers⟩) written⟩
  | @target _ line _ _ _ _ _ _ _ ih =>
    obtain ⟨headers, inside, written⟩ := ih
    exact ⟨headers, inside.cons line, written⟩
  | @other _ _ line _ _ _ _ _ _ ih =>
    obtain ⟨headers, inside, written⟩ := ih
    exact ⟨headers, inside.cons line, written⟩

/-! ## Applying in range -/

/-- Apply hunks as `applyHunks` does, to the whole text. Its first `cursor` lines are done, which
took `done` hunks. -/
def applyHunks? (source : List Line) (done cursor : Nat) (terminated : Bool) :
    List Hunk → Option (Except Fault (List Line × Bool))
  | [] => do
    let behind ← slice? source cursor source.length
    return .ok (behind, terminated)
  | h :: hs => do
    guard (cursor ≤ source.length)
    let index ← add? done 1
    if h.start < cursor then
      return .error (.overlap index)
    else
      match (add? h.start h.oldCount).filter (· ≤ source.length) with
      | none => return .error (.beyondEnd index h.oldStart h.oldCount source.length)
      | some stop =>
        let here ← slice? source h.start stop
        match firstMismatch h.oldLines here with
        | some (n, expected, found) =>
          let before ← add? h.start n
          let line ← add? before 1
          return .error (.lineMismatch index line expected found)
        | none =>
          if stop = source.length ∧ 0 < h.oldCount ∧ h.oldUnterminated = terminated then
            return .error (.newlineMismatch index)
          else
            let between ← slice? source cursor h.start
            let terminated' := if stop = source.length then !h.newUnterminated else terminated
            let later ← applyHunks? source index stop terminated' hs
            return later.map fun (lines, final) => (between ++ h.newLines ++ lines, final)

/-- A mismatch is at one of the lines. -/
theorem lt_length_of_firstMismatch {es fs : List Line} {n : Nat} {x y : Line}
    (h : firstMismatch es fs = some (n, x, y)) : n < fs.length := by
  induction es generalizing fs n x y with
  | nil => cases h
  | cons e es ih =>
    cases fs with
    | nil => cases h
    | cons f fs =>
      rw [firstMismatch] at h
      split at h
      · obtain ⟨⟨m, x', y'⟩, hm, same⟩ := Option.map_eq_some_iff.1 h
        cases same
        exact Nat.succ_lt_succ (ih hm)
      · cases h
        exact Nat.zero_lt_succ _

/-- Hunks apply in range: what is done of the text is never more than there is, and a hunk that
starts behind it and ends in the text has its lines there. -/
theorem applyHunks?_eq {source : List Line} {done cursor : Nat} {terminated : Bool} {hs : List Hunk}
    (small : source.length ≤ maxNumber) (inside : cursor ≤ source.length)
    (few : done + hs.length ≤ maxNumber) :
    applyHunks? source done cursor terminated hs =
      some (applyHunks source.length (done + 1) cursor (source.drop cursor) terminated hs) := by
  induction hs generalizing done cursor terminated with
  | nil =>
    rw [applyHunks?, slice?_length inside]
    rfl
  | cons h hs ih =>
    rw [List.length_cons] at few
    rw [applyHunks?, applyHunks]
    have index : add? done 1 = some (done + 1) := add?_of_le (by omega)
    simp only [guard, if_pos inside, index, Option.pure_def, Option.bind_eq_bind, Option.bind_some]
    by_cases overlap : h.start < cursor
    · rw [if_pos overlap, if_pos overlap]
    · rw [if_neg overlap, if_neg overlap]
      by_cases beyond : source.length < h.stop
      · have refused : (add? h.start h.oldCount).filter (· ≤ source.length) = none := by
          rw [Option.filter_eq_none_iff]
          intro stop hstop
          obtain ⟨rfl, -⟩ := add?_eq_some_iff.1 hstop
          simpa [Hunk.stop] using beyond
        rw [refused, if_pos beyond]
      · have stopped : (add? h.start h.oldCount).filter (· ≤ source.length) = some h.stop := by
          rw [Option.filter_eq_some_iff, add?_eq_some_iff, Hunk.stop]
          simp only [Hunk.stop] at beyond
          exact ⟨⟨rfl, by omega⟩, by simpa using beyond⟩
        have order := h.start_le_stop
        rw [stopped, if_neg beyond]
        dsimp only
        -- What is compared and what is left are the same lines of the whole text.
        have here : (source.drop cursor).drop (h.start - cursor) = source.drop h.start := by
          rw [List.drop_drop, Nat.add_sub_cancel' (by omega)]
        have behind : (source.drop h.start).drop h.oldCount = source.drop h.stop := by
          rw [List.drop_drop, Hunk.stop]
        have count : h.stop - h.start = h.oldCount := Nat.add_sub_cancel_left ..
        rw [slice?_of_le order (by omega), count, here, behind]
        simp only [Option.bind_some]
        cases hfirst : firstMismatch h.oldLines ((source.drop h.start).take h.oldCount) with
        | some m =>
          obtain ⟨n, expected, found⟩ := m
          have place := lt_length_of_firstMismatch hfirst
          rw [List.length_take] at place
          have before : add? h.start n = _ := add?_of_le (by omega)
          have line : add? (h.start + n) 1 = _ := add?_of_le (by omega)
          simp only [before, line, Option.bind_some]
        | none =>
          dsimp only
          split
          · rfl
          · rw [slice?_of_le (Nat.le_of_not_lt overlap) (by omega), ih (by omega) (by omega)]
            simp only [Option.bind_some]
            generalize applyHunks _ _ _ (source.drop h.stop) _ hs = later
            cases later <;> rfl

/-! ## Texts -/

/-- There is one more piece than there are separators. -/
theorem length_pieces (sep : Char) (cs : List Char) :
    (Text.pieces sep cs).length = cs.count sep + 1 := by
  induction cs with
  | nil => rfl
  | cons c cs ih =>
    obtain ⟨p, ps, hp⟩ := List.exists_cons_of_ne_nil (Text.pieces_ne_nil sep cs)
    rw [hp] at ih
    by_cases hc : c = sep
    · rw [hc, Text.pieces_cons_sep, List.length_cons, hp, ih, List.count_cons_self]
    · rw [Text.pieces_cons_of_ne hc hp, List.count_cons_of_ne hc, ← ih]
      rfl

/-- A text that is not empty has at most as many lines as characters. -/
theorem length_diffLines_le {cs : List Char} (some : cs ≠ []) :
    (diffLines cs).length ≤ cs.length := by
  obtain ⟨front, c, rfl⟩ := (List.eq_nil_or_concat cs).resolve_left some
  rw [List.concat_eq_append, diffLines, length_pieces]
  have few : front.count '\n' ≤ front.length := List.count_le_length
  split
  · rw [List.dropLast_concat, List.length_append]
    exact Nat.succ_le_succ few
  · next unended =>
    have other : c ≠ '\n' := by simpa using unended
    rw [List.count_append, List.count_singleton, if_neg (by simpa using other), List.length_append]
    exact Nat.succ_le_succ few

/-- A text has no more lines than characters. -/
theorem LineText.length_ofChars_le (cs : List Char) : (ofChars cs).lines.length ≤ cs.length := by
  by_cases some : cs = []
  · simp [some, ofChars]
  · have same : (ofChars cs).lines = diffLines cs := by
      simp only [ofChars, List.isEmpty_iff, some, if_false, diffLines]
      split <;> rfl
    rw [same]
    exact length_diffLines_le some

/-- The text that a diff makes of another one, if it can be read and applies, with every range
checked. -/
def patched? (filename diff original : String) : Option (Except Fault String) := do
  let read ← readLines? filename.toList false false (diffLines diff.toList)
  match read with
  | .error f => return .error f
  | .ok hunks =>
    let t := LineText.ofChars original.toList
    let applied ← applyHunks? t.lines 0 0 t.terminated hunks
    return applied.map fun (lines, final) => String.ofList (LineText.toChars ⟨lines, final⟩)

/-- Texts that memory holds are patched without a sum or a slice out of range. -/
theorem patched?_eq (filename : String) {diff original : String} (hdiff : diff.length ≤ maxNumber)
    (horiginal : original.length ≤ maxNumber) :
    patched? filename diff original = some (patched filename diff original) := by
  have fewLines : (diffLines diff.toList).length ≤ maxNumber := by
    by_cases some : diff.toList = []
    · rw [some]
      decide
    · exact (length_diffLines_le some).trans hdiff
  have small := (LineText.length_ofChars_le original.toList).trans horiginal
  rw [patched?, readLines?_eq fewLines, patched, FileDiff.parse]
  cases hread : readLines filename.toList false false (diffLines diff.toList) with
  | error f => rfl
  | ok hunks =>
    obtain ⟨headers, inside, written⟩ := (readLines_eq_ok_iff.1 hread).exists_headers
    have few : hunks.length ≤ maxNumber := by
      rw [written.length_eq]
      exact inside.length_le.trans fewLines
    simp only [Option.bind_eq_bind, Option.bind_some]
    rw [applyHunks?_eq small (Nat.zero_le _) (by omega)]
    change _ = some (((LineText.ofChars original.toList).patch hunks).map _)
    rw [LineText.patch, List.drop_zero]
    generalize applyHunks _ (0 + 1) 0 _ _ hunks = applied
    cases applied <;> rfl

/-- 64 bits hold the numbers of a diff that is read. -/
theorem FileDiff.small_of_parse {filename diff : String} {d : FileDiff}
    (parsed : parse filename diff = .ok d) :
    ∀ h ∈ d.hunks, ∀ n ∈ [h.oldStart, h.oldCount, h.newStart, h.newCount], n ≤ maxNumber := by
  obtain ⟨hunks, hhunks, rfl⟩ := Outcome.map_eq_ok_iff.1 parsed
  obtain ⟨headers, -, written⟩ := (readLines_eq_ok_iff.1 hhunks).exists_headers
  intro h hh
  obtain ⟨i, hi, rfl⟩ := List.mem_iff_getElem.1 hh
  exact (written.get hi (written.length_eq ▸ hi)).small

/-- A file that a diff does not apply to is not patched, and the failure names it. -/
theorem execute_patchFile_of_fault {filename diff original : String} {f : Fault}
    (fails : patched filename diff original = .error f) {w : World} {source : Path} (dest : Path)
    (named : source.fileName?.getD "" = filename)
    (content : (w.execute (Host.readText source)).1 = .ok original) :
    w.execute (patchFile source diff dest) = (.error (.patchRefused filename f.message), w) := by
  subst named
  unfold patchFile
  dsimp only
  rw [patched] at fails
  cases hparse : FileDiff.parse (source.fileName?.getD "") diff with
  | error g =>
    rw [hparse] at fails
    cases fails
    rfl
  | ok d =>
    rw [hparse] at fails
    have fails : d.apply original = .error f := fails
    dsimp only
    rw [World.execute_bind_of_readsOnly (readsOnly_readText source), content]
    dsimp only
    rw [fails]
    rfl

/-- Patching never goes out of range, whatever the numbers in the headers are. For a diff and a text
that memory holds, sums stay within 64 bits, slices lie in the text, and what is done of the text is
never more than there is; 64 bits hold the numbers of the headers; and the patching of a file by a
diff that is refused or does not apply ends in the failure that names the file, and writes
nothing. -/
theorem patched_in_range (filename : String) {diff original : String}
    (hdiff : diff.length ≤ maxNumber) (horiginal : original.length ≤ maxNumber) :
    patched? filename diff original = some (patched filename diff original) ∧
    (∀ d, FileDiff.parse filename diff = .ok d → ∀ h ∈ d.hunks,
      ∀ n ∈ [h.oldStart, h.oldCount, h.newStart, h.newCount], n ≤ maxNumber) ∧
    ∀ f, patched filename diff original = .error f → ∀ (w : World) (source dest : Path),
      source.fileName?.getD "" = filename → (w.execute (Host.readText source)).1 = .ok original →
        w.execute (patchFile source diff dest) = (.error (.patchRefused filename f.message), w) :=
  ⟨patched?_eq filename hdiff horiginal, fun _ parsed => FileDiff.small_of_parse parsed,
    fun _ fails _ _ dest named content => execute_patchFile_of_fault fails dest named content⟩

/-- A world with one file. -/
def oneFileWorld (name content : String) : World where
  files := ⟨.ofList [([name], .file content.toUTF8)]⟩
  current := []
  tools := []
  respond _ _ files := ⟨files, 0, .empty, .empty⟩
  runs := []
  requests := []

/-- An insertion before the first line, and a hunk at the last line that 64 bits can number. It lies
beyond the end of the text. -/
theorem patched_in_range_huge_line_number :
    let diff := "@@ -0,0 +1 @@\n+x\n@@ -18446744073709551615,2 +2 @@\n-a\n-b\n+c\n"
    let original := "a\nb\n"
    let fault := Fault.beyondEnd 2 18446744073709551615 2 2
    let w := oneFileWorld "f" original
    (diff.length ≤ maxNumber ∧ original.length ≤ maxNumber) ∧
    patched? "f" diff original = some (.error fault) ∧
    w.execute (patchFile ⟨"/f"⟩ diff ⟨"/g"⟩) = (.error (.patchRefused "f" fault.message), w) ∧
    fault.message = "hunk #2 expects lines 18446744073709551615..18446744073709551615 " ++
      "but the file has 2 lines" := by
  intro diff original fault w
  have hdiff : diff.length ≤ maxNumber := by decide +kernel
  have horiginal : original.length ≤ maxNumber := by decide +kernel
  have fails : patched "f" diff original = .error fault := by decide +kernel
  have content : (w.execute (Host.readText ⟨"/f"⟩)).1 = .ok original := by decide +kernel
  obtain ⟨inRange, -, refused⟩ := patched_in_range "f" hdiff horiginal
  exact ⟨⟨hdiff, horiginal⟩, fails ▸ inRange,
    refused fault fails w ⟨"/f"⟩ ⟨"/g"⟩ (by decide +kernel) content, by decide +kernel⟩

end OverlaySync.Diff
