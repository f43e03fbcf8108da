import OverlaySync.Diff.Reading
import OverlaySync.Proofs.Outcome

/-! # What is read is complete

How lines are read as a body, and as hunks, is said by two relations, with one case for each kind of
line that the readers accept; what holds of a diff that is read is proved on them. Its hunks have as
many lines on each side as their headers state, and their lines are lines: no newline stands inside
one. -/

namespace OverlaySync.Diff

/-- A hunk whose sides have the numbers of lines that its header states. -/
structure Hunk.Complete (h : Hunk) : Prop where
  /-- The lines of the old side are as many as the header states. -/
  old : h.oldLines.length = h.oldCount
  /-- The lines of the new side are as many as the header states. -/
  new : h.newLines.length = h.newCount
  /-- No newline stands inside a line of the new side. -/
  free : ∀ l ∈ h.newLines, '\n' ∉ l

/-- A body line adds no newline to the new side. -/
theorem BodyLine.not_mem_of_new? {line l : Line} {b : BodyLine} (hb : ofLine? line = some b)
    (hl : b.new? = some l) (free : '\n' ∉ line) : '\n' ∉ l := by
  unfold ofLine? at hb
  split at hb
  · cases hb
    cases hl
    exact free
  · cases hb
    cases hl
    exact free
  · cases hb
    cases hl
    exact fun h => free (List.mem_cons_of_mem _ h)
  · cases hb
    cases hl
  · cases hb
    cases hl
    exact fun h => free (List.mem_cons_of_mem _ h)
  · cases hb
    cases hl
  · cases hb

/-- The number of lines of a side, counted from the first body line on. -/
theorem length_filterMap_cons (side : BodyLine → Option Line) (b : BodyLine)
    (bs : List BodyLine) :
    ((b :: bs).filterMap side).length = (side b).toList.length + (bs.filterMap side).length := by
  cases hb : side b with
  | none => simp [hb]
  | some l => simp [hb, Nat.add_comm]

/-! ## Bodies and markers -/

/-- How lines are read as the body of a hunk; `old` and `new` count the lines that its sides have so
far. -/
inductive ReadsBody (h : Header) : Nat → Nat → List Line → List BodyLine → List Line → Prop
  /-- Once both sides are complete, the lines are left. -/
  | done (rest : List Line) : ReadsBody h h.oldCount h.newCount rest [] rest
  /-- As long as a side misses a line, the next one is read. -/
  | line {old new : Nat} {line : Line} {lines rest : List Line} {b : BodyLine} {bs : List BodyLine}
      (missing : old < h.oldCount ∨ new < h.newCount) (read : BodyLine.ofLine? line = some b)
      (later : ReadsBody h (old + b.old?.toList.length) (new + b.new?.toList.length) lines bs
        rest) :
      ReadsBody h old new (line :: lines) (b :: bs) rest

section Body

variable {h : Header} {old new : Nat} {lines rest : List Line} {bs : List BodyLine}

/-- The relation says what the reader does where it reads a body. -/
theorem readBody_eq_ok_iff :
    readBody h old new lines = .ok (bs, rest) ↔ ReadsBody h old new lines bs rest := by
  constructor
  · intro ok
    fun_induction readBody h old new lines generalizing bs rest with
    | case2 old new _ done =>
      cases ok
      obtain ⟨rfl, rfl⟩ := done
      exact .done []
    | case6 old new line lines missing b hb bs rest' hr ih =>
      cases ok
      exact .line missing hb (ih hr)
    | case7 old new line lines _ done =>
      cases ok
      obtain ⟨rfl, rfl⟩ := done
      exact .done (line :: lines)
    | _ => cases ok
  · intro reads
    induction reads with
    | done rest =>
      have complete : ¬(h.oldCount < h.oldCount ∨ h.newCount < h.newCount) := by omega
      cases rest <;> rw [readBody, if_neg complete, if_pos ⟨rfl, rfl⟩]
    | line missing read later ih =>
      rw [readBody, if_pos missing, read]
      dsimp only
      rw [ih]

/-- The lines of each side add up to what the header states. -/
theorem ReadsBody.complete (reads : ReadsBody h old new lines bs rest) :
    old + (bs.filterMap BodyLine.old?).length = h.oldCount ∧
      new + (bs.filterMap BodyLine.new?).length = h.newCount := by
  induction reads with
  | done rest => exact ⟨rfl, rfl⟩
  | line missing read later ih =>
    rw [length_filterMap_cons, length_filterMap_cons]
    omega

/-- What is left of the lines is behind the body. -/
theorem ReadsBody.suffix (reads : ReadsBody h old new lines bs rest) : rest <:+ lines := by
  induction reads with
  | done rest => exact List.suffix_rfl
  | line missing read later ih => exact ih.trans (List.suffix_cons _ _)

/-- Each line of the body is read from one of the lines. -/
theorem ReadsBody.exists_line (reads : ReadsBody h old new lines bs rest) :
    ∀ b ∈ bs, ∃ line ∈ lines, BodyLine.ofLine? line = some b := by
  induction reads with
  | done rest => exact List.forall_mem_nil _
  | @line _ _ line _ _ b _ _ read _ ih =>
    refine List.forall_mem_cons.2 ⟨⟨line, List.mem_cons_self, read⟩, fun b' there => ?_⟩
    obtain ⟨line', there', read'⟩ := ih b' there
    exact ⟨line', List.mem_cons_of_mem _ there', read'⟩

end Body

/-- Markers add lines to neither side. -/
theorem readMarkers_sides (lines : List Line) :
    (readMarkers lines).1.filterMap BodyLine.old? = [] ∧
      (readMarkers lines).1.filterMap BodyLine.new? = [] := by
  fun_induction readMarkers lines with
  | case1 s lines more ih => simpa [BodyLine.old?, BodyLine.new?] using ih
  | case2 => exact ⟨rfl, rfl⟩

/-- What is left of the lines is behind the markers. -/
theorem readMarkers_suffix (lines : List Line) : (readMarkers lines).2 <:+ lines := by
  fun_induction readMarkers lines with
  | case1 s lines more ih => exact ih.trans (List.suffix_cons _ _)
  | case2 => exact List.suffix_rfl

/-- What is left behind a body and the markers behind it is a part of the lines. -/
theorem ReadsBody.suffix_markers {h : Header} {old new : Nat} {lines rest : List Line}
    {bs : List BodyLine} (reads : ReadsBody h old new lines bs rest) :
    (readMarkers rest).2 <:+ lines := (readMarkers_suffix rest).trans reads.suffix

/-- Each marker is read from one of the lines. -/
theorem readMarkers_exists_line (lines : List Line) :
    ∀ b ∈ (readMarkers lines).1, ∃ line ∈ lines, BodyLine.ofLine? line = some b := by
  fun_induction readMarkers lines with
  | case1 s lines more ih =>
    refine List.forall_mem_cons.2 ⟨⟨_, List.mem_cons_self, rfl⟩, fun b there => ?_⟩
    obtain ⟨line, there', read⟩ := ih b there
    exact ⟨line, List.mem_cons_of_mem _ there', read⟩
  | case2 => exact List.forall_mem_nil _

/-! ## Diffs -/

/-- What the first line of a diff decides: a header opens a hunk, and other lines are passed over
unless they are for another file. -/
theorem readLines_cons (filename : List Char) (header hunks : Bool) (line : Line)
    (lines : List Line) :
    readLines filename header hunks (line :: lines) =
      match HeaderText.ofLine? line with
      | some t =>
        match t.numbers with
        | .error f => .error (.badHeader line f)
        | .ok h =>
          match readBody h 0 0 lines with
          | .error f => .error f
          | .ok (body, rest) =>
            (readLines filename header true (readMarkers rest).2).map
              (⟨h, body ++ (readMarkers rest).1⟩ :: ·)
      | none =>
        match ['+', '+', '+', ' '].isPrefixOf? line with
        | some target =>
          if header then .error .severalFiles
          else if !names (targetOf target) filename then .error (.otherFile (targetOf target))
          else readLines filename true hunks lines
        | none =>
          if hunks && ['-', '-', '-', ' '].isPrefixOf line then .error .severalFiles
          else readLines filename header hunks lines := by
  rw [readLines]
  cases HeaderText.ofLine? line with
  | none => rfl
  | some t =>
    dsimp only
    generalize t.numbers = numbers
    cases numbers with
    | error f => rfl
    | ok h =>
      dsimp only
      -- The body is read together with the proof that it was, which the equation does not need.
      split
      · next f hf => rw [hf]
      · next body rest hb => rw [hb]

/-- How lines are read as the hunks of a diff for a file; the flags say whether a `+++` line and
whether a hunk stands in front of them. -/
inductive ReadsHunks (filename : List Char) : Bool → Bool → List Line → List Hunk → Prop
  /-- The lines may end once there was a hunk. -/
  | done (header : Bool) : ReadsHunks filename header true [] []
  /-- A header opens a hunk, which takes its body and the markers behind it. -/
  | hunk {header hunks : Bool} {line : Line} {lines rest : List Line} {t : HeaderText} {h : Header}
      {body : List BodyLine} {hs : List Hunk} (opens : HeaderText.ofLine? line = some t)
      (numbers : t.numbers = .ok h) (filled : ReadsBody h 0 0 lines body rest)
      (later : ReadsHunks filename header true (readMarkers rest).2 hs) :
      ReadsHunks filename header hunks (line :: lines) (⟨h, body ++ (readMarkers rest).1⟩ :: hs)
  /-- The first `+++` line names the file. -/
  | target {hunks : Bool} {line path : Line} {lines : List Line} {hs : List Hunk}
      (outside : HeaderText.ofLine? line = none)
      (tagged : ['+', '+', '+', ' '].isPrefixOf? line = some path)
      (named : names (targetOf path) filename = true)
      (later : ReadsHunks filename true hunks lines hs) :
      ReadsHunks filename false hunks (line :: lines) hs
  /-- Other lines are passed over, a `---` line only in front of all hunks. -/
  | other {header hunks : Bool} {line : Line} {lines : List Line} {hs : List Hunk}
      (outside : HeaderText.ofLine? line = none)
      (untagged : ['+', '+', '+', ' '].isPrefixOf? line = none)
      (unclosed : hunks = true → ['-', '-', '-', ' '].isPrefixOf line = false)
      (later : ReadsHunks filename header hunks lines hs) :
      ReadsHunks filename header hunks (line :: lines) hs

section Hunks

variable {filename : List Char} {header hunks : Bool} {lines : List Line} {hs : List Hunk}

/-- The relation says what the reader does where it reads a diff. -/
theorem readLines_eq_ok_iff :
    readLines filename header hunks lines = .ok hs ↔
      ReadsHunks filename header hunks lines hs := by
  constructor
  · intro ok
    fun_induction readLines filename header hunks lines generalizing hs with
    | case1 header =>
      cases ok
      exact .done header
    | case5 header hunks line rest t ht h hh body rest' hb _ _ markers =>
      rename_i ih
      obtain ⟨later, hlater, rfl⟩ := Outcome.map_eq_ok_iff.1 ok
      exact .hunk ht hh (readBody_eq_ok_iff.1 hb) (ih hlater)
    | case8 header hunks line rest outside path tagged fresh named ih =>
      cases header with
      | true => exact absurd rfl fresh
      | false => exact .target outside tagged (by simpa using named) (ih ok)
    | case10 header hunks line rest outside untagged hcond ih =>
      refine .other outside untagged (fun seen => ?_) (ih ok)
      exact Bool.eq_false_iff.2 fun closes => hcond (Bool.and_eq_true_iff.2 ⟨seen, closes⟩)
    | _ => cases ok
  · intro reads
    induction reads with
    | done header => rw [readLines, if_pos rfl]
    | hunk opens numbers filled later ih =>
      simp only [readLines_cons, opens, numbers, readBody_eq_ok_iff.2 filled, ih]
      rfl
    | target outside tagged named later ih =>
      rw [readLines_cons, outside, tagged]
      simpa [named] using ih
    | other outside untagged unclosed later ih =>
      rw [readLines_cons, outside, untagged]
      dsimp only
      rw [if_neg, ih]
      intro closed
      obtain ⟨seen, closes⟩ := Bool.and_eq_true_iff.1 closed
      exact absurd closes (Bool.eq_false_iff.1 (unclosed seen))

/-- Every hunk that is read is complete. -/
theorem ReadsHunks.complete (reads : ReadsHunks filename header hunks lines hs)
    (free : ∀ l ∈ lines, '\n' ∉ l) : ∀ h ∈ hs, h.Complete := by
  induction reads with
  | done header => exact List.forall_mem_nil _
  | @hunk _ _ line lines rest _ h body hs _ _ filled _ ih =>
    -- The body has the counts, and the markers behind it add nothing to them.
    obtain ⟨hold, hnew⟩ := filled.complete
    obtain ⟨mold, mnew⟩ := readMarkers_sides rest
    have free' : ∀ l ∈ lines, '\n' ∉ l := fun l hl => free l (List.mem_cons_of_mem _ hl)
    refine List.forall_mem_cons.2 ⟨⟨?_, ?_, fun l hl => ?_⟩, ?_⟩
    · simpa [Hunk.oldLines, mold] using hold
    · simpa [Hunk.newLines, mnew] using hnew
    · rw [Hunk.newLines, List.filterMap_append, mnew, List.append_nil] at hl
      obtain ⟨b, hb, new⟩ := List.mem_filterMap.1 hl
      obtain ⟨line', there, read⟩ := filled.exists_line b hb
      exact BodyLine.not_mem_of_new? read new (free' line' there)
    · exact ih fun l hl => free' l (filled.suffix_markers.subset hl)
  | target _ _ _ _ ih => exact ih fun l hl => free l (List.mem_cons_of_mem _ hl)
  | other _ _ _ _ ih => exact ih fun l hl => free l (List.mem_cons_of_mem _ hl)

/-- Lines without a hunk in front of them have one. -/
theorem ReadsHunks.ne_nil (reads : ReadsHunks filename header hunks lines hs)
    (first : hunks = false) : hs ≠ [] := by
  induction reads with
  | done header => cases first
  | hunk _ _ _ _ _ => exact List.cons_ne_nil _ _
  | target _ _ _ _ ih => exact ih first
  | other _ _ _ _ ih => exact ih first

end Hunks

/-- Every hunk of a diff that is read is complete. -/
theorem FileDiff.complete_of_parse {filename diff : String} {d : FileDiff}
    (ok : parse filename diff = .ok d) : ∀ h ∈ d.hunks, h.Complete := by
  obtain ⟨hunks, hhunks, rfl⟩ := Outcome.map_eq_ok_iff.1 ok
  exact (readLines_eq_ok_iff.1 hhunks).complete fun l hl => Text.not_mem_of_mem_pieces hl

/-- A diff that is read has hunks. -/
theorem FileDiff.hunks_ne_nil_of_parse {filename diff : String} {d : FileDiff}
    (parsed : parse filename diff = .ok d) : d.hunks ≠ [] := by
  obtain ⟨hunks, hhunks, rfl⟩ := Outcome.map_eq_ok_iff.1 parsed
  exact (readLines_eq_ok_iff.1 hhunks).ne_nil rfl

end OverlaySync.Diff
