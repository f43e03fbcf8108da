import OverlaySync.Proofs.Diff.Acceptance
import OverlaySync.Proofs.LineEnds

/-! # Other ends of lines in a diff and a text

A diff whose lines end in a carriage return and a newline does to a text with such lines what the
diff with plain newlines does to the text with plain newlines. The returns belong to the lines:
those of headers are not looked at, and those of body lines are compared with the returns in the
text.

Main statement: `patched_withReturns`. -/

namespace OverlaySync.Diff

/-! ## Lines with returns -/

/-- The line with a return at its end. -/
def Line.withReturn (l : Line) : Line :=
  l ++ ['\r']

/-- The body line, written with a return at its end. -/
def BodyLine.withReturn : BodyLine → BodyLine
  | context s => context (Line.withReturn s)
  | removed s => removed (Line.withReturn s)
  | added s => added (Line.withReturn s)
  | noNewline s => noNewline (Line.withReturn s)

/-- The hunk, written with returns. -/
def Hunk.withReturns (h : Hunk) : Hunk :=
  { h with body := h.body.map BodyLine.withReturn }

/-- The text with a return at the end of every line. -/
def LineText.withReturns (t : LineText) : LineText :=
  ⟨t.lines.map Line.withReturn, t.terminated⟩

/-- The fault, if the lines that it quotes are written with returns. -/
def Fault.withReturns : Fault → Fault
  | badHeader line fault => badHeader (Line.withReturn line) fault
  | unexpectedLine oldStart line => unexpectedLine oldStart (Line.withReturn line)
  | lineMismatch index line expected found =>
    lineMismatch index line (Line.withReturn expected) (Line.withReturn found)
  | f => f

/-- The text with a carriage return in front of every newline. -/
def crlf (text : String) : String :=
  String.ofList (withReturns text.toList)

/-- Lines with returns are the same only if the lines are. -/
theorem Line.withReturn_inj {l m : Line} : Line.withReturn l = Line.withReturn m ↔ l = m :=
  List.append_left_inj _

/-- A word without a return starts a line with a return if it starts the line. -/
theorem isPrefixOf_withReturn {word : List Char} (plain : '\r' ∉ word) (line : Line) :
    word.isPrefixOf (Line.withReturn line) = word.isPrefixOf line := by
  induction word generalizing line with
  | nil => cases line <;> rfl
  | cons c word ih =>
    simp only [List.mem_cons, not_or] at plain
    cases line with
    | nil => simp [Line.withReturn, List.isPrefixOf, Ne.symm plain.1]
    | cons d line =>
      have later := ih plain.2 line
      simp only [Line.withReturn, List.cons_append, List.isPrefixOf] at later ⊢
      rw [later]

/-- What stands behind the word is ended by the return. -/
theorem isPrefixOf?_withReturn {word : List Char} (plain : '\r' ∉ word) (line : Line) :
    word.isPrefixOf? (Line.withReturn line) = (word.isPrefixOf? line).map Line.withReturn := by
  cases h : word.isPrefixOf? line with
  | none =>
    rw [isPrefixOf?_eq_none_iff] at h
    rw [Option.map_none, isPrefixOf?_eq_none_iff, isPrefixOf_withReturn plain, h]
  | some text =>
    rw [List.isPrefixOf?_eq_some_iff_append_eq] at h
    rw [Option.map_some, List.isPrefixOf?_eq_some_iff_append_eq, ← h, Line.withReturn,
      Line.withReturn, List.append_assoc]

/-! ## Headers -/

/-- The ranges of a header are the same with a return behind it. -/
theorem hasRanges_withReturn {line : Line} {old new : RangeText} :
    HasRanges (Line.withReturn line) old new ↔ HasRanges line old new := by
  refine and_congr_right fun _ => and_congr_right fun _ => ?_
  have ended (back : List Char) : headerLine old new back =
      headerLine old new [] ++ back := by
    simp [headerLine]
  constructor
  · rintro ⟨back, h⟩
    -- A header does not end in a return, so the return stands behind it.
    obtain rfl | ⟨back, c, rfl⟩ := List.eq_nil_or_concat back
    · have last : headerLine old new [] = ['@', '@', ' ', '-'] ++ (old.toChars ++ ([' ', '+'] ++
          (new.toChars ++ [' ', '@']))) ++ ['@'] := by
        simp [headerLine]
      rw [last] at h
      cases (List.append_inj' h rfl).2
    · rw [List.concat_eq_append, ended, ← List.append_assoc, Line.withReturn] at h
      obtain ⟨rfl, -⟩ := List.append_inj' h rfl
      exact ⟨back, (ended back).symm⟩
  · rintro ⟨back, rfl⟩
    exact ⟨back ++ ['\r'], by rw [Line.withReturn, ended, ended (back ++ _), List.append_assoc]⟩

/-- A header line is read up to its second pair of at signs, so that a return at its end is passed
over. -/
theorem HeaderText.ofLine?_withReturn (line : Line) :
    ofLine? (Line.withReturn line) = ofLine? line := by
  refine Option.ext fun t => ?_
  rw [HeaderText.ofLine?_eq_some_iff, HeaderText.ofLine?_eq_some_iff, hasRanges_withReturn]

/-- A return is no part of the text before a word without one. -/
theorem before_withReturn {word : List Char} (plain : '\r' ∉ word) (some : word ≠ [])
    (cs : List Char) :
    before word (cs ++ ['\r']) = before word cs ∨
      before word cs = cs ∧ before word (cs ++ ['\r']) = cs ++ ['\r'] := by
  induction cs with
  | nil =>
    obtain ⟨c, word, rfl⟩ := List.exists_cons_of_ne_nil some
    simp only [List.mem_cons, not_or] at plain
    refine .inr ⟨rfl, ?_⟩
    simp [before, List.isPrefixOf, Ne.symm plain.1]
  | cons c cs ih =>
    have starts := isPrefixOf_withReturn plain (c :: cs)
    rw [Line.withReturn, List.cons_append] at starts
    rw [List.cons_append, before, before, starts]
    split
    · exact .inl rfl
    · obtain same | ⟨all, ended⟩ := ih
      · exact .inl (by rw [same])
      · exact .inr ⟨by rw [all], by rw [ended]⟩

/-- White space at the end is trimmed away. -/
theorem trim_append {c : Char} (blank : Unicode.isBlank c = true) (cs : List Char) :
    Unicode.trim (cs ++ [c]) = Unicode.trim cs := by
  have ended (ds : List Char) : Unicode.trimEnd (ds ++ [c]) = Unicode.trimEnd ds := by
    simp [Unicode.trimEnd, blank]
  rw [Unicode.trim, Unicode.trim, List.dropWhile_append]
  split
  · next all => rw [List.isEmpty_iff.1 all, List.dropWhile_cons_of_pos blank, List.dropWhile_nil]
  · exact ended _

/-- The path of a header is the same with a return behind it. -/
theorem targetOf_withReturn (text : Line) : targetOf (Line.withReturn text) = targetOf text := by
  have blank : Unicode.isBlank '\r' = true := by decide
  have path : Unicode.trim (before [' ', '('] (before ['\t'] (Line.withReturn text))) =
      Unicode.trim (before [' ', '('] (before ['\t'] text)) := by
    rw [Line.withReturn]
    have noTab : '\r' ∉ ['\t'] := by decide
    have noBracket : '\r' ∉ [' ', '('] := by decide
    obtain same | ⟨all, ended⟩ := before_withReturn noTab (by decide) text
    · rw [same]
    · rw [all, ended]
      obtain same | ⟨all, ended⟩ := before_withReturn noBracket (by decide) text
      · rw [same]
      · rw [all, ended, trim_append blank]
  rw [targetOf, targetOf, path]

/-! ## Bodies -/

/-- The old side has the line with its return. -/
@[simp] theorem BodyLine.old?_withReturn (b : BodyLine) :
    b.withReturn.old? = b.old?.map Line.withReturn := by
  cases b <;> rfl

/-- The new side has the line with its return. -/
@[simp] theorem BodyLine.new?_withReturn (b : BodyLine) :
    b.withReturn.new? = b.new?.map Line.withReturn := by
  cases b <;> rfl

/-- A body line is read with its return. Of a line that is empty only the return is left, and a line
that is nothing else is read as the empty one. -/
theorem BodyLine.ofLine?_withReturn {line : Line} (free : '\r' ∉ line) :
    ofLine? (Line.withReturn line) = (ofLine? line).map withReturn := by
  cases line with
  | nil => rfl
  | cons c s =>
    simp only [List.mem_cons, not_or] at free
    have other : c ≠ '\r' := Ne.symm free.1
    have bare : c :: (s ++ ['\r']) ≠ ['\r'] := by simp
    rw [Line.withReturn, List.cons_append]
    unfold ofLine?
    split <;> simp_all [withReturn, Line.withReturn]

/-- A body is read with its returns. -/
theorem readBody_withReturns (h : Header) (old new : Nat) {lines : List Line}
    (free : ∀ l ∈ lines, '\r' ∉ l) :
    readBody h old new (lines.map Line.withReturn) =
      ((readBody h old new lines).map fun (bs, rest) =>
        (bs.map BodyLine.withReturn, rest.map Line.withReturn)).mapError Fault.withReturns := by
  -- On the reading of the body: each line has its own return, and faults quote the line with it.
  fun_induction readBody h old new lines with
  | case1 old new missing => rw [List.map_nil, readBody, if_pos missing]; rfl
  | case2 old new missing done => rw [List.map_nil, readBody, if_neg missing, if_pos done]; rfl
  | case3 old new missing other => rw [List.map_nil, readBody, if_neg missing, if_neg other]; rfl
  | case4 old new line lines missing hb =>
    have hline := BodyLine.ofLine?_withReturn (free line List.mem_cons_self)
    rw [List.map_cons, readBody, if_pos missing, hline, hb]
    rfl
  | case5 old new line lines missing b hb f hf ih =>
    have hline := BodyLine.ofLine?_withReturn (free line List.mem_cons_self)
    have later := ih fun l hl => free l (List.mem_cons_of_mem _ hl)
    rw [hf] at later
    simp only [List.map_cons, readBody, if_pos missing, hline, hb, Option.map_some,
      BodyLine.old?_withReturn, BodyLine.new?_withReturn, Option.toList_map, List.length_map, later]
    rfl
  | case6 old new line lines missing b hb bs rest hr ih =>
    have hline := BodyLine.ofLine?_withReturn (free line List.mem_cons_self)
    have later := ih fun l hl => free l (List.mem_cons_of_mem _ hl)
    rw [hr] at later
    simp only [List.map_cons, readBody, if_pos missing, hline, hb, Option.map_some,
      BodyLine.old?_withReturn, BodyLine.new?_withReturn, Option.toList_map, List.length_map, later]
    rfl
  | case7 old new line lines missing done =>
    rw [List.map_cons, readBody, if_neg missing, if_pos done]
    rfl
  | case8 old new line lines missing other =>
    rw [List.map_cons, readBody, if_neg missing, if_neg other]
    rfl

/-- The markers behind a body are read with their returns. -/
theorem readMarkers_withReturns (lines : List Line) :
    readMarkers (lines.map Line.withReturn) = ((readMarkers lines).1.map BodyLine.withReturn,
      (readMarkers lines).2.map Line.withReturn) := by
  fun_induction readMarkers lines with
  | case1 s lines more ih =>
    rw [List.map_cons, Line.withReturn, List.cons_append, readMarkers, ih]
    rfl
  | case2 lines other =>
    refine readMarkers_of_head fun l hl => ?_
    rw [List.head?_map] at hl
    obtain ⟨line, hline, rfl⟩ := Option.map_eq_some_iff.1 hl
    obtain ⟨behind, rfl⟩ := List.head?_eq_some_iff.1 hline
    cases line with
    | nil => decide
    | cons c s =>
      intro marker
      cases marker
      exact other s behind rfl

/-! ## Diffs -/

/-- A diff is read with its returns, for the same file. -/
theorem readLines_withReturns {filename : List Char} {header hunks : Bool} {lines : List Line}
    (free : ∀ l ∈ lines, '\r' ∉ l) :
    readLines filename header hunks (lines.map Line.withReturn) =
      ((readLines filename header hunks lines).map (List.map Hunk.withReturns)).mapError
        Fault.withReturns := by
  have plus : '\r' ∉ ['+', '+', '+', ' '] := by decide
  have minus : '\r' ∉ ['-', '-', '-', ' '] := by decide
  fun_induction readLines filename header hunks lines with
  | case1 header => rw [List.map_nil, readLines, if_pos rfl]; rfl
  | case2 header hunks none => rw [List.map_nil, readLines, if_neg none]; rfl
  | case3 header hunks line rest t ht f hf =>
    simp only [List.map_cons, readLines_cons, HeaderText.ofLine?_withReturn, ht, hf]
    rfl
  | case4 header hunks line rest t ht h hh f hf =>
    have body := readBody_withReturns h 0 0 fun l hl => free l (List.mem_cons_of_mem _ hl)
    simp only [List.map_cons, readLines_cons, HeaderText.ofLine?_withReturn, ht, hh, body, hf]
    rfl
  | case5 header hunks line rest t ht h hh bs rest' hb _ _ markers ih =>
    have free' : ∀ l ∈ rest, '\r' ∉ l := fun l hl => free l (List.mem_cons_of_mem _ hl)
    have body := readBody_withReturns h 0 0 free'
    -- What is left behind the hunk is a part of the lines.
    have later := ih fun l hl =>
      free' l ((readBody_eq_ok_iff.1 hb).suffix_markers.subset hl)
    rw [hb] at body
    simp only [List.map_cons, readLines_cons, HeaderText.ofLine?_withReturn, ht, hh, body]
    simp only [Except.map, Except.mapError, readMarkers_withReturns]
    rw [later]
    cases readLines filename header true (readMarkers rest').2 <;>
      simp [Except.map, Except.mapError, Hunk.withReturns, markers]
  | case6 hunks line rest other target htarget =>
    simp only [List.map_cons, readLines_cons, HeaderText.ofLine?_withReturn, other,
      isPrefixOf?_withReturn plus, htarget, Option.map_some]
    rfl
  | case7 header hunks line rest other target htarget fresh foreign =>
    simp only [List.map_cons, readLines_cons, HeaderText.ofLine?_withReturn, other,
      isPrefixOf?_withReturn plus, htarget, Option.map_some, targetOf_withReturn, if_neg fresh,
      if_pos foreign]
    rfl
  | case8 header hunks line rest other target htarget fresh named ih =>
    simp only [List.map_cons, readLines_cons, HeaderText.ofLine?_withReturn, other,
      isPrefixOf?_withReturn plus, htarget, Option.map_some, targetOf_withReturn, if_neg fresh,
      if_neg named]
    exact ih fun l hl => free l (List.mem_cons_of_mem _ hl)
  | case9 header hunks line rest other untagged closed =>
    simp only [List.map_cons, readLines_cons, HeaderText.ofLine?_withReturn, other,
      isPrefixOf?_withReturn plus, untagged, Option.map_none, isPrefixOf_withReturn minus,
      if_pos closed]
    rfl
  | case10 header hunks line rest other untagged closed ih =>
    simp only [List.map_cons, readLines_cons, HeaderText.ofLine?_withReturn, other,
      isPrefixOf?_withReturn plus, untagged, Option.map_none, isPrefixOf_withReturn minus,
      if_neg closed]
    exact ih fun l hl => free l (List.mem_cons_of_mem _ hl)

/-! ## Texts -/

/-- The lines of a text with returns, if the last one is ended as well. -/
theorem pieces_withReturns (cs : List Char) :
    Text.pieces '\n' (withReturns cs ++ ['\r']) = (Text.pieces '\n' cs).map Line.withReturn := by
  induction cs with
  | nil => decide
  | cons c cs ih =>
    obtain ⟨p, ps, hp⟩ := List.exists_cons_of_ne_nil (Text.pieces_ne_nil '\n' cs)
    rw [hp, List.map_cons] at ih
    by_cases hc : c = '\n'
    · subst hc
      have here : Text.pieces '\n' ('\r' :: '\n' :: (withReturns cs ++ ['\r'])) =
          ['\r'] :: Text.pieces '\n' (withReturns cs ++ ['\r']) :=
        Text.pieces_append_sep (p := ['\r']) (by decide) _
      rw [withReturns_newline, List.cons_append, List.cons_append, here, ih,
        Text.pieces_cons_sep, hp]
      rfl
    · rw [withReturns_cons hc, List.cons_append, Text.pieces_cons_of_ne hc ih,
        Text.pieces_cons_of_ne hc hp]
      rfl

/-- What ends in a newline does so with returns. -/
theorem withReturns_concat (cs : List Char) :
    withReturns (cs ++ ['\n']) = withReturns cs ++ ['\r'] ++ ['\n'] := by
  simp [withReturns]

/-- A diff that ends in a newline has the same lines with returns. -/
theorem diffLines_withReturns {cs : List Char} (ended : cs.getLast? = some '\n') :
    diffLines (withReturns cs) = (diffLines cs).map Line.withReturn := by
  obtain ⟨front, rfl⟩ := List.getLast?_eq_some_iff.1 ended
  rw [withReturns_concat, diffLines, diffLines, if_pos (by simp), if_pos ended,
    List.dropLast_concat, List.dropLast_concat, pieces_withReturns]

namespace LineText

/-- A text all lines of which are ended: it ends in a newline or has no lines. -/
def Closed (t : LineText) : Prop :=
  t.terminated = true ∨ t.lines = []

/-- A final newline ends the last line. -/
theorem ofChars_concat (cs : List Char) :
    ofChars (cs ++ ['\n']) = ⟨Text.pieces '\n' cs, true⟩ := by
  simp [ofChars]

/-- Lines that all end in a newline can be given their returns before or after the text is taken
apart. -/
theorem ofChars_withReturns {cs : List Char} (closed : cs = [] ∨ cs.getLast? = some '\n') :
    ofChars (OverlaySync.withReturns cs) = (ofChars cs).withReturns := by
  obtain rfl | ended := closed
  · rfl
  · obtain ⟨front, rfl⟩ := List.getLast?_eq_some_iff.1 ended
    rw [withReturns_concat, ofChars_concat, ofChars_concat, pieces_withReturns]
    rfl

/-- A text that is empty or ends in a newline is closed. -/
theorem closed_ofChars {cs : List Char} (closed : cs = [] ∨ cs.getLast? = some '\n') :
    (ofChars cs).Closed := by
  obtain rfl | ended := closed
  · exact .inr rfl
  · obtain ⟨front, rfl⟩ := List.getLast?_eq_some_iff.1 ended
    exact .inl (by rw [ofChars_concat])

/-- A line without a newline is written with the return at its end only. -/
theorem withReturns_of_not_mem {l : List Char} (free : '\n' ∉ l) (cs : List Char) :
    OverlaySync.withReturns (l ++ cs) = l ++ OverlaySync.withReturns cs := by
  induction l with
  | nil => rfl
  | cons c l ih =>
    simp only [List.mem_cons, not_or] at free
    rw [List.cons_append, withReturns_cons (Ne.symm free.1), ih free.2, List.cons_append]

/-- The characters of a text with returns are its characters with returns, if all its lines are
ended. -/
theorem toChars_withReturns {t : LineText} (closed : t.Closed) (free : ∀ l ∈ t.lines, '\n' ∉ l) :
    t.withReturns.toChars = OverlaySync.withReturns t.toChars := by
  obtain ⟨lines, terminated⟩ := t
  obtain rfl | rfl := closed
  · rw [withReturns, toChars_terminated, toChars_terminated]
    induction lines with
    | nil => rfl
    | cons l lines ih =>
      obtain ⟨hl, free⟩ := List.forall_mem_cons.1 free
      rw [List.map_cons, List.flatMap_cons, List.flatMap_cons, List.append_assoc,
        List.append_assoc, withReturns_of_not_mem hl, ih free, Line.withReturn, List.append_assoc]
      rfl
  · simp [withReturns, toChars, Text.joined]

end LineText

/-! ## Applying -/

@[simp] theorem Hunk.start_withReturns (h : Hunk) : h.withReturns.start = h.start := rfl

@[simp] theorem Hunk.stop_withReturns (h : Hunk) : h.withReturns.stop = h.stop := rfl

/-- The lines of a side are written with returns. -/
theorem filterMap_withReturn {side : BodyLine → Option Line}
    (hside : ∀ b : BodyLine, side b.withReturn = (side b).map Line.withReturn)
    (body : List BodyLine) :
    (body.map BodyLine.withReturn).filterMap side =
      (body.filterMap side).map Line.withReturn := by
  rw [List.filterMap_map, List.map_filterMap]
  exact List.filterMap_congr fun b _ => hside b

/-- The old side of a hunk with returns has its lines with returns. -/
theorem Hunk.oldLines_withReturns (h : Hunk) :
    h.withReturns.oldLines = h.oldLines.map Line.withReturn :=
  filterMap_withReturn BodyLine.old?_withReturn h.body

/-- The new side of a hunk with returns has its lines with returns. -/
theorem Hunk.newLines_withReturns (h : Hunk) :
    h.withReturns.newLines = h.newLines.map Line.withReturn :=
  filterMap_withReturn BodyLine.new?_withReturn h.body

/-- The markers mark the same sides. -/
theorem markedIn_withReturn {side : BodyLine → Option Line}
    (hside : ∀ b : BodyLine, side b.withReturn = (side b).map Line.withReturn) (before : Bool)
    (body : List BodyLine) :
    Hunk.markedIn side before (body.map BodyLine.withReturn) = Hunk.markedIn side before body := by
  induction body generalizing before with
  | nil => rfl
  | cons b body ih =>
    have same : (side b.withReturn).isSome = (side b).isSome := by
      rw [hside, Option.isSome_map]
    cases b with
    | noNewline s => simp only [List.map_cons, BodyLine.withReturn, Hunk.markedIn, ih]
    | context s =>
      simp only [BodyLine.withReturn] at same
      simp only [List.map_cons, BodyLine.withReturn, Hunk.markedIn, same, ih]
    | removed s =>
      simp only [BodyLine.withReturn] at same
      simp only [List.map_cons, BodyLine.withReturn, Hunk.markedIn, same, ih]
    | added s =>
      simp only [BodyLine.withReturn] at same
      simp only [List.map_cons, BodyLine.withReturn, Hunk.markedIn, same, ih]

/-- The first mismatch is at the same line, and shows both lines with returns. -/
theorem firstMismatch_withReturn (es fs : List Line) :
    firstMismatch (es.map Line.withReturn) (fs.map Line.withReturn) =
      (firstMismatch es fs).map fun (n, x, y) => (n, x.withReturn, y.withReturn) := by
  induction es generalizing fs with
  | nil => rfl
  | cons e es ih =>
    cases fs with
    | nil => rfl
    | cons f fs =>
      simp only [List.map_cons, firstMismatch, Line.withReturn_inj, ih]
      split
      · rw [Option.map_map, Option.map_map]
        rfl
      · rfl

/-- Hunks with returns apply to lines with returns as hunks without them to lines without them. -/
theorem applyHunks_withReturns (total index cursor : Nat) (rest : List Line) (terminated : Bool)
    (hs : List Hunk) :
    applyHunks total index cursor (rest.map Line.withReturn) terminated
        (hs.map Hunk.withReturns) =
      ((applyHunks total index cursor rest terminated hs).map fun (ls, final) =>
        (ls.map Line.withReturn, final)).mapError Fault.withReturns := by
  -- Returns change neither counts nor markers, so the same hunk is the first to fail, with its
  -- mismatch written with returns.
  induction hs generalizing index cursor rest terminated with
  | nil => rfl
  | cons h hs ih =>
    have marked : h.withReturns.oldUnterminated = h.oldUnterminated :=
      markedIn_withReturn BodyLine.old?_withReturn false h.body
    have marked' : h.withReturns.newUnterminated = h.newUnterminated :=
      markedIn_withReturn BodyLine.new?_withReturn false h.body
    have counts : h.withReturns.oldStart = h.oldStart ∧ h.withReturns.oldCount = h.oldCount :=
      ⟨rfl, rfl⟩
    simp only [List.map_cons, applyHunks, Hunk.start_withReturns, Hunk.stop_withReturns, counts,
      marked, marked', Hunk.oldLines_withReturns, Hunk.newLines_withReturns, ← List.map_drop,
      ← List.map_take, firstMismatch_withReturn, ih]
    split
    · rfl
    split
    · rfl
    cases firstMismatch h.oldLines ((rest.drop (h.start - cursor)).take h.oldCount) with
    | some m => rfl
    | none =>
      dsimp only [Option.map_none]
      split
      · rfl
      cases applyHunks total (index + 1) h.stop ((rest.drop (h.start - cursor)).drop h.oldCount)
        (if h.stop = total then !h.newUnterminated else terminated) hs with
      | error f => rfl
      | ok later => simp [Except.map, Except.mapError]

/-! ## No markers -/

/-- What is read into hunks stands in the lines. -/
theorem ReadsHunks.exists_line {filename : List Char} {header hunks : Bool} {lines : List Line}
    {hs : List Hunk} (reads : ReadsHunks filename header hunks lines hs) :
    ∀ h ∈ hs, ∀ b ∈ h.body, ∃ line ∈ lines, BodyLine.ofLine? line = some b := by
  have more {line : Line} {lines : List Line} {b : BodyLine} :
      (∃ l ∈ lines, BodyLine.ofLine? l = some b) →
        ∃ l ∈ line :: lines, BodyLine.ofLine? l = some b := by
    rintro ⟨l, hl, found⟩
    exact ⟨l, List.mem_cons_of_mem _ hl, found⟩
  induction reads with
  | done header => exact List.forall_mem_nil _
  | @hunk _ _ _ lines rest _ _ body hs _ _ filled _ ih =>
    refine List.forall_mem_cons.2 ⟨fun b there => ?_, fun g hg b there => ?_⟩
    · obtain there | there := List.mem_append.1 there
      · exact more (filled.exists_line b there)
      · obtain ⟨l, hl, found⟩ := readMarkers_exists_line rest b there
        exact more ⟨l, filled.suffix.subset hl, found⟩
    · obtain ⟨l, hl, found⟩ := ih g hg b there
      exact more ⟨l, filled.suffix_markers.subset hl, found⟩
  | target _ _ _ _ ih => exact fun h hh b there => more (ih h hh b there)
  | other _ _ _ _ ih => exact fun h hh b there => more (ih h hh b there)

/-- Markers start with a backslash. -/
theorem BodyLine.head?_of_noNewline {line s : Line} (h : ofLine? line = some (.noNewline s)) :
    line.head? = some '\\' := by
  unfold ofLine? at h
  split at h <;> cases h
  rfl

/-- A diff without lines that start with a backslash marks nothing. -/
theorem newUnterminated_of_parse {filename diff : String} {d : FileDiff}
    (parsed : FileDiff.parse filename diff = .ok d)
    (plain : ∀ line ∈ diffLines diff.toList, line.head? ≠ some '\\') :
    ∀ h ∈ d.hunks, h.newUnterminated = false := by
  obtain ⟨hunks, hhunks, rfl⟩ := Outcome.map_eq_ok_iff.1 parsed
  refine fun h hh => Bool.eq_false_iff.2 fun marked => ?_
  obtain ⟨front, b, markers, s, back, hbody, -⟩ := Hunk.newUnterminated_eq_true_iff.1 marked
  obtain ⟨line, hline, found⟩ := (readLines_eq_ok_iff.1 hhunks).exists_line h hh (.noNewline s)
    (by rw [hbody]; simp)
  exact plain line hline (BodyLine.head?_of_noNewline found)

/-- Without markers the new text is closed as well. -/
theorem LineText.closed_splice {t : LineText} {hs : List Hunk} (closed : t.Closed) (some : hs ≠ [])
    (meets : ∀ h ∈ hs, h.Meets t) (unmarked : ∀ h ∈ hs, h.newUnterminated = false) :
    (t.splice hs).Closed := by
  left
  change splicedTerminated t hs = true
  rw [splicedTerminated]
  cases hfind : hs.reverse.find? (·.stop = t.lines.length) with
  | some h =>
    have hh := List.mem_reverse.1 (List.mem_of_find?_eq_some hfind)
    dsimp only
    rw [unmarked h hh]
    rfl
  | none =>
    obtain terminated | empty := closed
    · exact terminated
    · -- Every hunk reaches the end of a text without lines.
      obtain ⟨h, hs, rfl⟩ := List.exists_cons_of_ne_nil some
      have inside := (meets h List.mem_cons_self).inside
      have short := List.find?_eq_none.1 hfind h (by simp)
      simp [empty] at inside short
      exact absurd inside short

/-! ## Diffs and texts with returns -/

/-- What stands in a piece stands in the text. -/
theorem mem_of_mem_pieces {x sep : Char} {cs p : List Char} (hp : p ∈ Text.pieces sep cs)
    (hx : x ∈ p) : x ∈ cs := by
  induction cs generalizing p with
  | nil =>
    rw [Text.pieces_nil, List.mem_singleton] at hp
    exact hp ▸ hx
  | cons c cs ih =>
    obtain ⟨q, qs, hq⟩ := List.exists_cons_of_ne_nil (Text.pieces_ne_nil sep cs)
    by_cases hc : c = sep
    · rw [hc, Text.pieces_cons_sep] at hp
      obtain rfl | hp := List.mem_cons.1 hp
      · cases hx
      · exact List.mem_cons_of_mem _ (ih hp hx)
    · rw [Text.pieces_cons_of_ne hc hq] at hp
      rw [hq] at ih
      obtain rfl | hp := List.mem_cons.1 hp
      · obtain rfl | hx := List.mem_cons.1 hx
        · exact List.mem_cons_self
        · exact List.mem_cons_of_mem _ (ih List.mem_cons_self hx)
      · exact List.mem_cons_of_mem _ (ih (List.mem_cons_of_mem _ hp) hx)

/-- The lines of a diff without returns have none. -/
theorem not_mem_diffLines {cs : List Char} (free : '\r' ∉ cs) : ∀ l ∈ diffLines cs, '\r' ∉ l := by
  intro l hl there
  have inside := mem_of_mem_pieces hl there
  split at inside
  · exact free ((List.dropLast_prefix cs).subset inside)
  · exact free inside

/-- A diff with returns is read as the hunks with returns. -/
theorem FileDiff.parse_crlf {filename diff : String} (free : '\r' ∉ diff.toList)
    (ended : diff.toList.getLast? = some '\n') :
    parse filename (crlf diff) = ((parse filename diff).map fun d =>
      ⟨d.filename, d.hunks.map Hunk.withReturns⟩).mapError Fault.withReturns := by
  rw [parse, parse, crlf, String.toList_ofList, diffLines_withReturns ended,
    readLines_withReturns (not_mem_diffLines free)]
  cases readLines filename.toList false false (diffLines diff.toList) <;> rfl

/-- Hunks with returns apply to a text with returns, and make a text with returns. -/
theorem LineText.patch_withReturns (t : LineText) (hs : List Hunk) :
    t.withReturns.patch (hs.map Hunk.withReturns) =
      ((t.patch hs).map LineText.withReturns).mapError Fault.withReturns := by
  rw [patch, patch, LineText.withReturns, List.length_map, applyHunks_withReturns]
  cases applyHunks t.lines.length 1 0 t.lines t.terminated hs <;> rfl

/-- A diff without markers leaves all lines of a text ended. -/
theorem LineText.closed_patch {filename diff : String} {d : FileDiff} {t u : LineText}
    (parsed : FileDiff.parse filename diff = .ok d)
    (plain : ∀ line ∈ diffLines diff.toList, line.head? ≠ some '\\') (closed : t.Closed)
    (free : ∀ l ∈ t.lines, '\n' ∉ l) (ok : t.patch d.hunks = .ok u) :
    u.Closed ∧ ∀ l ∈ u.lines, '\n' ∉ l := by
  have complete := FileDiff.complete_of_parse parsed
  obtain ⟨⟨-, meets⟩, rfl⟩ := (LineText.patch_eq_ok_iff complete).1 ok
  exact ⟨closed_splice closed (FileDiff.hunks_ne_nil_of_parse parsed) meets
    (newUnterminated_of_parse parsed plain), not_mem_of_mem_splice free complete⟩

/-- Patching a text with returns by a diff with returns ends as patching the plain text by the plain
diff: well, with the result with returns, or in the same fault about lines with returns. -/
theorem patched_crlf {filename diff original : String} (free : '\r' ∉ diff.toList)
    (ended : diff.toList.getLast? = some '\n')
    (plain : ∀ line ∈ diffLines diff.toList, line.head? ≠ some '\\')
    (closed : original = "" ∨ original.toList.getLast? = some '\n') :
    patched filename (crlf diff) (crlf original) =
      ((patched filename diff original).map crlf).mapError Fault.withReturns := by
  have closed' : original.toList = [] ∨ original.toList.getLast? = some '\n' :=
    closed.imp_left fun h => by rw [h]; rfl
  rw [patched, patched, FileDiff.parse_crlf free ended]
  cases parsed : FileDiff.parse filename diff with
  | error f => rfl
  | ok d =>
    change FileDiff.apply ⟨d.filename, d.hunks.map Hunk.withReturns⟩ (crlf original) =
      ((d.apply original).map crlf).mapError Fault.withReturns
    rw [FileDiff.apply, FileDiff.apply, crlf, String.toList_ofList,
      LineText.ofChars_withReturns closed', LineText.patch_withReturns]
    cases ok : (LineText.ofChars original.toList).patch d.hunks with
    | error f => rfl
    | ok u =>
      obtain ⟨uclosed, ufree⟩ := LineText.closed_patch parsed plain
        (LineText.closed_ofChars closed') (fun l hl => LineText.not_mem_of_mem_lines hl) ok
      simp only [Except.map, Except.mapError, crlf, String.toList_ofList,
        LineText.toChars_withReturns uclosed ufree]

/-- The text with returns determines the text. -/
theorem crlf_inj {a b : String} (h : crlf a = crlf b) : a = b :=
  String.toList_inj.1 (withReturns_inj (String.ofList_injective h))

/-- A diff with returns does to a text with returns what the plain diff does to the plain text. It
succeeds exactly if the plain one does; the result is the plain result with returns; and it fails
for the same reason, with returns in the lines that the fault quotes. The diff and the text end in a
newline, or the text is empty, and the diff marks no missing newlines. -/
theorem patched_withReturns {filename diff original : String} (free : '\r' ∉ diff.toList)
    (ended : diff.toList.getLast? = some '\n')
    (plain : ∀ line ∈ diffLines diff.toList, line.head? ≠ some '\\')
    (closed : original = "" ∨ original.toList.getLast? = some '\n') :
    (∀ r, patched filename diff original = .ok r ↔
      patched filename (crlf diff) (crlf original) = .ok (crlf r)) ∧
    (∀ r', patched filename (crlf diff) (crlf original) = .ok r' → ∃ r, crlf r = r') ∧
    ∀ f', patched filename (crlf diff) (crlf original) = .error f' ↔
      ∃ f, patched filename diff original = .error f ∧ f.withReturns = f' := by
  rw [patched_crlf free ended plain closed]
  cases patched filename diff original with
  | error f => simp [Except.map, Except.mapError]
  | ok s =>
    refine ⟨fun r => ⟨fun h => ?_, fun h => ?_⟩, fun r' h => ⟨s, Except.ok.inj h⟩, ?_⟩
    · cases h
      rfl
    · rw [crlf_inj (Except.ok.inj h)]
    · simp [Except.map, Except.mapError]

/-- Two hunks with an empty context line that has no blank, behind file headers and with a section
behind the numbers. -/
theorem patched_withReturns_two_hunks :
    let diff := "--- a/f\n+++ b/f\t(new)\n@@ -1,3 +1,3 @@ f\n a\n-b\n+c\n\n@@ -5 +5,0 @@\n-e\n"
    let original := "a\nb\n\nd\ne\n"
    ('\r' ∉ diff.toList ∧ diff.toList.getLast? = some '\n' ∧
      (∀ line ∈ diffLines diff.toList, line.head? ≠ some '\\') ∧
      original.toList.getLast? = some '\n') ∧
    patched "f" diff original = .ok "a\nc\n\nd\n" ∧
    patched "f" (crlf diff) (crlf original) = .ok "a\r\nc\r\n\r\nd\r\n" := by
  intro diff original
  have free : '\r' ∉ diff.toList := by decide +kernel
  have ended : diff.toList.getLast? = some '\n' := by decide +kernel
  have plain : ∀ line ∈ diffLines diff.toList, line.head? ≠ some '\\' := by decide +kernel
  have closed : original.toList.getLast? = some '\n' := by decide +kernel
  have ok : patched "f" diff original = .ok "a\nc\n\nd\n" :=
    Outcome.eq_ok_of_toOption (by decide +kernel)
  have result : crlf "a\nc\n\nd\n" = "a\r\nc\r\n\r\nd\r\n" := by decide +kernel
  obtain ⟨same, -, -⟩ := patched_withReturns free ended plain (.inr closed)
  exact ⟨⟨free, ended, plain, closed⟩, ok, result ▸ (same _).1 ok⟩

end OverlaySync.Diff
