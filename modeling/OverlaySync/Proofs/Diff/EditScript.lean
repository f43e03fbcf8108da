import OverlaySync.Proofs.Diff.Printing
import OverlaySync.Proofs.Diff.Splice

/-! # Every edit can be carried by a diff

An edit script goes through two texts line by line: it keeps, removes and adds lines. However its
changes are grouped into hunks, with or without kept lines around them, the printed hunks are read
back and take the one text to the other (`apply_print`).

The lines of a script are full lines: a line together with whether a newline ends it. In a text only
the last line may lack its newline (`Proper`), and this is what makes the markers of a diff, which
speak of the last lines of a hunk, speak of the texts. -/

namespace OverlaySync.Diff

/-! ## Full lines -/

/-- A line of a text, and whether a newline ends it. -/
structure FullLine where
  /-- The line, without the newline. -/
  text : Line
  /-- Whether a newline ends it. -/
  ended : Bool
  deriving DecidableEq, Repr

/-- Lines of which all but the last are ended by newlines, and the last one by `terminated`. -/
def fullLines (terminated : Bool) : List Line → List FullLine
  | [] => []
  | [l] => [⟨l, terminated⟩]
  | l :: m :: ls => ⟨l, true⟩ :: fullLines terminated (m :: ls)

/-- The full lines of a text. -/
def LineText.fullLines (t : LineText) : List FullLine :=
  Diff.fullLines t.terminated t.lines

/-- Only the last of the lines may lack its newline. -/
def Proper (ls : List FullLine) : Prop :=
  ∀ front back, ls = front ++ back → back ≠ [] → front.all (·.ended) = true

/-! ## Edit scripts -/

/-- A step through two texts. -/
inductive Edit where
  /-- A line of both texts. -/
  | kept (line : FullLine)
  /-- A line of the old text only. -/
  | removed (line : FullLine)
  /-- A line of the new text only. -/
  | added (line : FullLine)
  deriving DecidableEq, Repr

namespace Edit

/-- The line of the old text. -/
def old? : Edit → Option FullLine
  | kept l => some l
  | removed l => some l
  | added _ => none

/-- The line of the new text. -/
def new? : Edit → Option FullLine
  | kept l => some l
  | removed _ => none
  | added l => some l

/-- Whether the texts differ here. -/
def isChange : Edit → Bool
  | kept _ => false
  | _ => true

/-- The text of the marker behind a line without a newline. -/
def markerText : Line := " No newline at end of file".toList

/-- The body line of a step. -/
def tagged : Edit → BodyLine
  | kept l => .context l.text
  | removed l => .removed l.text
  | added l => .added l.text

/-- The line that a step is about. -/
def line : Edit → FullLine
  | kept l => l
  | removed l => l
  | added l => l

/-- What a hunk says of a step: the tagged line, and a marker if no newline ends the line. -/
def body (e : Edit) : List BodyLine :=
  e.tagged :: if e.line.ended then [] else [.noNewline markerText]

end Edit

/-- The old text of a script. -/
def oldSide (es : List Edit) : List FullLine := es.filterMap Edit.old?

/-- The new text of a script. -/
def newSide (es : List Edit) : List FullLine := es.filterMap Edit.new?

/-! ## Grouping -/

/-- The number in a header for a side of `count` lines behind `before` lines: the first of its
lines, or the line before it if there is none. -/
def startOf (before count : Nat) : Nat :=
  if count = 0 then before else before + 1

/-- The hunk of a part of a script, behind given numbers of lines of the two texts. -/
def hunkOf (old new : Nat) (es : List Edit) : Hunk where
  oldStart := startOf old (oldSide es).length
  oldCount := (oldSide es).length
  newStart := startOf new (newSide es).length
  newCount := (newSide es).length
  body := es.flatMap Edit.body

/-- A script cut into hunks: the parts that the hunks take, each with the kept lines behind it that
no hunk takes. -/
abbrev Parts := List (List Edit × List FullLine)

/-- The steps of the parts. -/
def Parts.edits (ps : Parts) : List Edit :=
  ps.flatMap fun p => p.1 ++ p.2.map Edit.kept

/-- The hunks of the parts, behind given numbers of lines of the two texts. -/
def Parts.hunks (old new : Nat) : Parts → List Hunk
  | [] => []
  | (es, gap) :: ps =>
    -- A kept line is one line further in both texts.
    hunkOf old new es ::
      Parts.hunks (old + (oldSide es).length + gap.length)
        (new + (newSide es).length + gap.length) ps

/-- Every part changes something, and between two parts at least one kept line is left out. -/
def Parts.Separate (ps : Parts) : Prop :=
  (∀ p ∈ ps, ∃ e ∈ p.1, e.isChange = true) ∧ ∀ p ∈ ps.dropLast, p.2 ≠ []

/-- A grouping of the steps of a script: kept lines before the first hunk, and the parts. -/
structure Grouping where
  /-- Kept lines before the first hunk. -/
  before : List FullLine
  /-- The hunks, with the kept lines behind them. -/
  parts : Parts
  /-- There is a hunk. -/
  some : parts ≠ []
  /-- Every hunk changes something, and hunks are separate. -/
  separate : parts.Separate

/-- The script of a grouping. -/
def Grouping.edits (g : Grouping) : List Edit :=
  g.before.map Edit.kept ++ g.parts.edits

/-- The hunks of a grouping. -/
def Grouping.hunks (g : Grouping) : List Hunk :=
  g.parts.hunks g.before.length g.before.length

/-! ## Full lines of texts -/

/-- All lines but the last are ended by newlines. -/
theorem fullLines_concat (terminated : Bool) (front : List Line) (last : Line) :
    fullLines terminated (front ++ [last]) = front.map (⟨·, true⟩) ++ [⟨last, terminated⟩] := by
  induction front with
  | nil => rfl
  | cons l front ih =>
    obtain ⟨m, ms, hm⟩ := List.exists_cons_of_ne_nil (List.append_ne_nil_of_right_ne_nil front
      (List.cons_ne_nil last []))
    rw [List.cons_append, hm, fullLines, ← hm, ih]
    rfl

/-- Full lines are the lines. -/
theorem map_text_fullLines (t : LineText) : t.fullLines.map FullLine.text = t.lines := by
  obtain ⟨lines, terminated⟩ := t
  obtain rfl | ⟨front, last, rfl⟩ := List.eq_nil_or_concat lines
  · rfl
  · rw [List.concat_eq_append, LineText.fullLines, fullLines_concat]
    simp [Function.comp_def]

/-- Of the full lines of a text only the last one may lack its newline. -/
theorem proper_fullLines (t : LineText) : Proper t.fullLines := by
  intro front back hsplit ne
  obtain ⟨lines, terminated⟩ := t
  obtain ⟨back', x, rfl⟩ := (List.eq_nil_or_concat back).resolve_left ne
  obtain rfl | ⟨init, last, rfl⟩ := List.eq_nil_or_concat lines
  · simp [LineText.fullLines, fullLines] at hsplit
  · rw [List.concat_eq_append, List.concat_eq_append, LineText.fullLines, fullLines_concat,
      ← List.append_assoc] at hsplit
    -- Everything in front of the last line is among the ended lines.
    have hinit := (List.append_inj' hsplit rfl).1
    have all : (front ++ back').all (·.ended) = true := by
      rw [← hinit]
      simp
    rw [List.all_append, Bool.and_eq_true] at all
    exact all.1

/-- A text that has lines ends in a newline exactly if all its lines do. -/
theorem all_ended_fullLines {t : LineText} (ne : t.lines ≠ []) :
    t.fullLines.all (·.ended) = t.terminated := by
  obtain ⟨lines, terminated⟩ := t
  obtain ⟨front, last, rfl⟩ := (List.eq_nil_or_concat lines).resolve_left ne
  rw [List.concat_eq_append, LineText.fullLines, fullLines_concat]
  simp

/-! ## Bodies of hunks -/

/-- A side of body lines and the same side of steps. -/
structure Picks (side : BodyLine → Option Line) (pick : Edit → Option FullLine) : Prop where
  /-- The tagged line of a step is on the side if the step is. -/
  tagged : ∀ e, side e.tagged = (pick e).map FullLine.text
  /-- The line on the side is the one that the step is about. -/
  line : ∀ e l, pick e = some l → l = e.line
  /-- Markers are on no side. -/
  marker : ∀ s, side (.noNewline s) = none

/-- The old side has the lines that are kept or removed. -/
theorem picks_old : Picks BodyLine.old? Edit.old? where
  tagged e := by cases e <;> rfl
  line e l h := by cases e <;> cases h <;> rfl
  marker _ := rfl

/-- The new side has the lines that are kept or added. -/
theorem picks_new : Picks BodyLine.new? Edit.new? where
  tagged e := by cases e <;> rfl
  line e l h := by cases e <;> cases h <;> rfl
  marker _ := rfl

section

variable {side : BodyLine → Option Line} {pick : Edit → Option FullLine}

/-- A side of a body has the lines of the side of its steps. -/
theorem filterMap_body (picks : Picks side pick) (es : List Edit) :
    (es.flatMap Edit.body).filterMap side = (es.filterMap pick).map FullLine.text := by
  induction es with
  | nil => rfl
  | cons e es ih =>
    have head : e.body.filterMap side = ((pick e).map FullLine.text).toList := by
      unfold Edit.body
      cases e.line.ended <;> cases hpick : pick e <;> simp [picks.tagged, picks.marker, hpick]
    rw [List.flatMap_cons, List.filterMap_append, head, ih]
    cases hpick : pick e <;> simp [hpick]

/-- What a hunk says of steps does not start with a marker. -/
theorem ne_noNewline_cons (es : List Edit) (s : Line) (ls : List BodyLine) :
    es.flatMap Edit.body ≠ .noNewline s :: ls := by
  cases es with
  | nil => exact nofun
  | cons e es =>
    intro h
    cases e <;> cases h

/-- A side of a body is marked exactly if one of its lines lacks its newline. -/
theorem marked_body (picks : Picks side pick) (es : List Edit) :
    Marked side (es.flatMap Edit.body) ↔ (es.filterMap pick).all (·.ended) = false := by
  induction es with
  | nil =>
    constructor
    · rintro ⟨front, b, markers, text, back, hbody, -⟩
      simp at hbody
    · nofun
  | cons e es ih =>
    have here : (side e.tagged).isSome = (pick e).isSome := by
      rw [picks.tagged, Option.isSome_map]
    -- Only the marker of the step itself can stand behind its line.
    have first : Marked side (e.body ++ es.flatMap Edit.body) ↔
        ((pick e).isSome = true ∧ e.line.ended = false) ∨ Marked side (es.flatMap Edit.body) := by
      cases hended : e.line.ended with
      | true =>
        have hbody : e.body = [e.tagged] := by simp [Edit.body, hended]
        rw [hbody]
        simp [marked_cons_iff, ne_noNewline_cons]
      | false =>
        have hbody : e.body = [e.tagged, .noNewline Edit.markerText] := by simp [Edit.body, hended]
        rw [hbody]
        simp [marked_cons_iff, here, ne_noNewline_cons, picks.marker]
    rw [List.flatMap_cons, first, ih]
    cases hpick : pick e with
    | none => simp [hpick]
    | some l =>
      rw [List.filterMap_cons_some hpick, List.all_cons, picks.line e l hpick,
        Bool.and_eq_false_iff]
      simp

end

/-! ## Sides of scripts -/

/-- The old lines of two scripts are those of both, in order. -/
@[simp] theorem oldSide_append (es fs : List Edit) :
    oldSide (es ++ fs) = oldSide es ++ oldSide fs :=
  List.filterMap_append

/-- The new lines of two scripts are those of both, in order. -/
@[simp] theorem newSide_append (es fs : List Edit) :
    newSide (es ++ fs) = newSide es ++ newSide fs :=
  List.filterMap_append

/-- Kept lines are lines of the old text. -/
@[simp] theorem oldSide_map_kept (ls : List FullLine) : oldSide (ls.map Edit.kept) = ls := by
  rw [oldSide, List.filterMap_map]
  exact List.filterMap_some

/-- Kept lines are lines of the new text. -/
@[simp] theorem newSide_map_kept (ls : List FullLine) : newSide (ls.map Edit.kept) = ls := by
  rw [newSide, List.filterMap_map]
  exact List.filterMap_some

/-- The edits of the first part stand in front of the lines kept behind it. -/
theorem Parts.edits_cons (es : List Edit) (gap : List FullLine) (ps : Parts) :
    Parts.edits ((es, gap) :: ps) = es ++ (gap.map Edit.kept ++ Parts.edits ps) := by
  simp [Parts.edits]

/-- The lines between two parts are on the old side. -/
@[simp] theorem oldSide_edits_cons (es : List Edit) (gap : List FullLine) (ps : Parts) :
    oldSide (Parts.edits ((es, gap) :: ps)) = oldSide es ++ (gap ++ oldSide (Parts.edits ps)) := by
  simp [Parts.edits_cons]

/-- The lines between two parts are on the new side. -/
@[simp] theorem newSide_edits_cons (es : List Edit) (gap : List FullLine) (ps : Parts) :
    newSide (Parts.edits ((es, gap) :: ps)) = newSide es ++ (gap ++ newSide (Parts.edits ps)) := by
  simp [Parts.edits_cons]

/-- Every step is about a line of one of the texts. -/
theorem line_mem_sides {es : List Edit} {e : Edit} (he : e ∈ es) :
    e.line ∈ oldSide es ∨ e.line ∈ newSide es := by
  cases e with
  | kept l => exact .inl (List.mem_filterMap.2 ⟨_, he, rfl⟩)
  | removed l => exact .inl (List.mem_filterMap.2 ⟨_, he, rfl⟩)
  | added l => exact .inr (List.mem_filterMap.2 ⟨_, he, rfl⟩)

/-- Steps that add no line and change something remove a line. -/
theorem oldSide_ne_nil {es : List Edit} (change : ∃ e ∈ es, e.isChange = true)
    (hnew : newSide es = []) : oldSide es ≠ [] := by
  obtain ⟨e, he, -⟩ := change
  rcases line_mem_sides he with h | h
  · exact List.ne_nil_of_mem h
  · rw [hnew] at h
    cases h

/-! ## Hunks of parts -/

section

variable (old new : Nat) (es : List Edit)

/-- A hunk starts behind the lines before it. -/
@[simp] theorem hunkOf_start : (hunkOf old new es).start = old := by
  unfold Hunk.start hunkOf startOf
  by_cases none : (oldSide es).length = 0
  · simp [none]
  · simp [none]

/-- A hunk stops behind the old lines of its edits. -/
@[simp] theorem hunkOf_stop : (hunkOf old new es).stop = old + (oldSide es).length := by
  rw [Hunk.stop, hunkOf_start]
  rfl

/-- The old side of a hunk are the old lines of its edits. -/
theorem hunkOf_oldLines : (hunkOf old new es).oldLines = (oldSide es).map FullLine.text :=
  filterMap_body picks_old es

/-- The new side of a hunk are the new lines of its edits. -/
theorem hunkOf_newLines : (hunkOf old new es).newLines = (newSide es).map FullLine.text :=
  filterMap_body picks_new es

/-- The new side of a hunk is marked unless all its lines have their newlines. -/
theorem not_newUnterminated_hunkOf :
    (!(hunkOf old new es).newUnterminated) = (newSide es).all (·.ended) := by
  have marked : (hunkOf old new es).newUnterminated = true ↔
      (newSide es).all (·.ended) = false :=
    Hunk.newUnterminated_eq_true_iff.trans (marked_body picks_new es)
  cases hall : (newSide es).all (·.ended) <;> simp_all

end

/-- The number in a header is that of a line of the text, or of the one before. -/
theorem startOf_le (before count : Nat) : startOf before count ≤ before + count := by
  unfold startOf
  split <;> omega

/-- The lines that a hunk prints are the lines of its steps behind their tags. -/
theorem not_mem_toLine_of_mem_body {e : Edit} (free : '\n' ∉ e.line.text) {b : BodyLine}
    (hb : b ∈ e.body) : '\n' ∉ b.toLine := by
  rcases List.mem_cons.1 hb with rfl | hb
  · cases e with
    | kept l => simpa [Edit.tagged, Edit.line, BodyLine.toLine] using free
    | removed l => simpa [Edit.tagged, Edit.line, BodyLine.toLine] using free
    | added l => simpa [Edit.tagged, Edit.line, BodyLine.toLine] using free
  · have marker : '\n' ∉ (BodyLine.noNewline Edit.markerText).toLine := by decide
    split at hb
    · cases hb
    · rw [List.mem_singleton.1 hb]
      exact marker

/-- A hunk can be printed if 64 bits hold the numbers of its lines, and no line holds a newline. -/
theorem hunkOf_printable {old new : Nat} {es : List Edit}
    (hold : old + (oldSide es).length ≤ maxNumber) (hnew : new + (newSide es).length ≤ maxNumber)
    (free : ∀ e ∈ es, '\n' ∉ e.line.text) : (hunkOf old new es).Printable where
  old := by rw [hunkOf_oldLines, List.length_map]; rfl
  new := by rw [hunkOf_newLines, List.length_map]; rfl
  small := by
    have hs := startOf_le old (oldSide es).length
    have hs' := startOf_le new (newSide es).length
    simp only [hunkOf, List.forall_mem_cons, List.not_mem_nil, false_imp_iff, implies_true,
      and_true]
    omega
  free b hb := by
    obtain ⟨e, he, hb⟩ := List.mem_flatMap.1 hb
    exact not_mem_toLine_of_mem_body (free e he) hb

/-- The hunks of parts can be printed if 64 bits hold the numbers of the lines. -/
theorem Parts.printable {ps : Parts} {old new : Nat}
    (hold : old + (oldSide ps.edits).length ≤ maxNumber)
    (hnew : new + (newSide ps.edits).length ≤ maxNumber)
    (free : ∀ e ∈ ps.edits, '\n' ∉ e.line.text) : ∀ h ∈ ps.hunks old new, h.Printable := by
  induction ps generalizing old new with
  | nil => exact nofun
  | cons p ps ih =>
    obtain ⟨es, gap⟩ := p
    rw [oldSide_edits_cons, List.length_append, List.length_append] at hold
    rw [newSide_edits_cons, List.length_append, List.length_append] at hnew
    rw [edits_cons] at free
    rw [Parts.hunks, List.forall_mem_cons]
    refine ⟨hunkOf_printable (by omega) (by omega) fun e he => free e (by simp [he]), ?_⟩
    exact ih (by omega) (by omega) fun e he => free e (by simp [he])

/-! ## The hunks take the old text to the new one -/

/-- Hunks follow each other in the order of the script. -/
theorem Parts.inOrder {ps : Parts} {cursor old new : Nat} (h : cursor ≤ old) :
    InOrder cursor (ps.hunks old new) := by
  induction ps generalizing cursor old new with
  | nil => trivial
  | cons p ps ih =>
    obtain ⟨es, gap⟩ := p
    refine ⟨by rw [hunkOf_start]; exact h, ih ?_⟩
    rw [hunkOf_stop]
    exact Nat.le_add_right _ _

/-- The hunk of a part of the old text meets it. -/
theorem hunkOf_meets {t : LineText} {front back : List FullLine} {es : List Edit} (new : Nat)
    (hsplit : t.fullLines = front ++ (oldSide es ++ back)) :
    (hunkOf front.length new es).Meets t := by
  have hlines : t.lines = front.map FullLine.text ++
      ((oldSide es).map FullLine.text ++ back.map FullLine.text) := by
    rw [← map_text_fullLines, hsplit, List.map_append, List.map_append]
  have hlen : t.lines.length = front.length + ((oldSide es).length + back.length) := by
    simp [hlines]
  have hcount : (hunkOf front.length new es).oldCount = (oldSide es).length := rfl
  constructor
  · rw [hunkOf_stop]
    omega
  · rw [hunkOf_start, hunkOf_oldLines, hcount, hlines]
    rw [List.drop_left' (List.length_map _), List.take_left' (List.length_map _)]
  · intro some hend
    rw [hcount] at some
    rw [hunkOf_stop] at hend
    have noBack : back = [] := List.length_eq_zero_iff.1 (by omega)
    subst noBack
    rw [List.append_nil] at hsplit
    -- The hunk has the last line of the text, and the lines in front of it are ended.
    have before : front.all (·.ended) = true :=
      proper_fullLines t front (oldSide es) hsplit (List.ne_nil_of_length_pos some)
    have lines : t.lines ≠ [] := List.ne_nil_of_length_pos (by omega)
    have marked := marked_body picks_old es
    rw [← all_ended_fullLines lines, hsplit, List.all_append, before, Bool.true_and]
    exact marked

/-- The hunks of parts of the old text meet it. -/
theorem Parts.meets {t : LineText} {ps : Parts} (front : List FullLine) (new : Nat)
    (hsplit : t.fullLines = front ++ oldSide ps.edits) :
    ∀ h ∈ ps.hunks front.length new, h.Meets t := by
  induction ps generalizing front new with
  | nil => exact nofun
  | cons p ps ih =>
    obtain ⟨es, gap⟩ := p
    rw [oldSide_edits_cons] at hsplit
    rw [Parts.hunks, List.forall_mem_cons]
    refine ⟨hunkOf_meets new hsplit, ?_⟩
    have later := ih (front ++ oldSide es ++ gap) (new + (newSide es).length + gap.length)
      (by simp [hsplit])
    rwa [List.length_append, List.length_append] at later

/-- Splicing the hunks of parts replaces the old sides by the new ones. -/
theorem Parts.splice {lines : List Line} {ps : Parts} (front : List Line) (new : Nat)
    (hlines : lines = front ++ (oldSide ps.edits).map FullLine.text) :
    Diff.splice lines (ps.hunks front.length new) =
      front ++ (newSide ps.edits).map FullLine.text := by
  induction ps generalizing front new with
  | nil => exact hlines
  | cons p ps ih =>
    obtain ⟨es, gap⟩ := p
    rw [oldSide_edits_cons, List.map_append, List.map_append] at hlines
    -- What the later hunks leave alone is in front of them: this hunk's lines and the kept ones.
    have later := ih (front ++ (oldSide es).map FullLine.text ++ gap.map FullLine.text)
      (new + (newSide es).length + gap.length) (by simp [hlines])
    rw [List.length_append, List.length_append, List.length_map, List.length_map,
      List.append_assoc, List.append_assoc] at later
    rw [Parts.hunks, splice_cons, later, hunkOf_start, hunkOf_stop, hunkOf_newLines,
      newSide_edits_cons, List.take_left' rfl, List.drop_length_add_append,
      List.drop_left' (List.length_map _), List.map_append, List.map_append, List.append_assoc]

/-! ## The final newline -/

/-- What precedes the rest of two texts: nothing of the new one, or kept lines last. -/
def EndsKept (front front' : List FullLine) : Prop :=
  front' = [] ∨ ∃ ls ls' gap, gap ≠ [] ∧ front = ls ++ gap ∧ front' = ls' ++ gap

/-- If the new text has a line behind the last hunk or in it, all lines before that are ended; and
if it ends with kept lines before the last hunk, the old text goes on behind them. -/
theorem all_ended_front {front front' : List FullLine} {es : List Edit} {t : LineText}
    (change : ∃ e ∈ es, e.isChange = true) (kept : EndsKept front front')
    (hold : t.fullLines = front ++ oldSide es) (proper : Proper (front' ++ newSide es)) :
    front'.all (·.ended) = true := by
  by_cases hnew : newSide es = []
  · rcases kept with rfl | ⟨ls, ls', gap, ne, rfl, rfl⟩
    · rfl
    · -- The kept lines are lines of the old text too, where the hunk removes lines behind them.
      rw [hnew, List.append_nil] at proper
      have before : (ls ++ gap).all (·.ended) = true :=
        proper_fullLines t _ _ hold (oldSide_ne_nil change hnew)
      rw [List.all_append, Bool.and_eq_true] at before
      rw [List.all_append, proper ls' gap rfl ne, before.2]
      rfl
  · exact proper front' (newSide es) rfl hnew

/-- Of proper lines only those at the end can lack their newlines. -/
theorem Proper.all_append {ls ms : List FullLine} (proper : Proper (ls ++ ms)) (ne : ms ≠ []) :
    (ls ++ ms).all (·.ended) = ms.all (·.ended) := by
  rw [List.all_append, proper ls ms rfl ne, Bool.true_and]

/-- A hunk with lines of the old text behind it leaves the final newline alone. -/
theorem terminatedAfter_hunkOf {t : LineText} {front back : List FullLine} {es : List Edit}
    (new : Nat) (hold : t.fullLines = front ++ (oldSide es ++ back)) (ne : back ≠ []) :
    terminatedAfter t.lines.length t.terminated (hunkOf front.length new es) = t.terminated := by
  have pos := List.length_pos_iff.2 ne
  have hlen : t.lines.length = front.length + ((oldSide es).length + back.length) := by
    rw [← map_text_fullLines, hold]
    simp
  rw [terminatedAfter, hunkOf_stop, if_neg (by omega)]

/-- The last hunk says whether the new text ends in a newline, if it reaches the end of the old
text; otherwise both texts end with the same lines. -/
theorem terminatedAfter_last {t : LineText} {front front' gap : List FullLine} {es : List Edit}
    (new : Nat) (change : ∃ e ∈ es, e.isChange = true) (kept : EndsKept front front')
    (hold : t.fullLines = front ++ (oldSide es ++ gap))
    (proper : Proper (front' ++ (newSide es ++ gap))) :
    terminatedAfter t.lines.length t.terminated (hunkOf front.length new es) =
      (front' ++ (newSide es ++ gap)).all (·.ended) := by
  by_cases none : gap = []
  · subst none
    rw [List.append_nil] at hold proper ⊢
    have hlen : t.lines.length = front.length + (oldSide es).length := by
      rw [← map_text_fullLines, hold]
      simp
    -- The hunk reaches the end, and the lines in front of its new side are ended.
    rw [terminatedAfter, hunkOf_stop, if_pos hlen.symm, not_newUnterminated_hunkOf,
      List.all_append, all_ended_front change kept hold proper, Bool.true_and]
  · -- Both texts end with the lines behind the hunk.
    have lines : t.lines ≠ [] := by
      intro empty
      have full := map_text_fullLines t
      rw [empty, hold] at full
      simp [none] at full
    rw [terminatedAfter_hunkOf new hold none, ← all_ended_fullLines lines, hold,
      ← List.append_assoc, ← List.append_assoc, Proper.all_append _ none, Proper.all_append _ none]
    · rwa [List.append_assoc]
    · rw [List.append_assoc, ← hold]
      exact proper_fullLines t

/-- The hunks of all parts leave the final newline as it is in the new text. Hunks before the last
one do not reach the end of the old text, for a kept line is behind them. -/
theorem Parts.terminated {t : LineText} {ps : Parts} (some : ps ≠ []) (separate : ps.Separate)
    (front front' : List FullLine) (new : Nat) (hold : t.fullLines = front ++ oldSide ps.edits)
    (proper : Proper (front' ++ newSide ps.edits)) (kept : EndsKept front front') :
    (ps.hunks front.length new).foldl (terminatedAfter t.lines.length) t.terminated =
      (front' ++ newSide ps.edits).all (·.ended) := by
  induction ps generalizing front front' new with
  | nil => exact absurd rfl some
  | cons p ps ih =>
    obtain ⟨es, gap⟩ := p
    obtain ⟨change, gaps⟩ := separate
    obtain ⟨first, change⟩ := List.forall_mem_cons.1 change
    rw [oldSide_edits_cons] at hold
    rw [newSide_edits_cons] at proper ⊢
    rw [hunks, List.foldl_cons]
    cases ps with
    | nil =>
      have noOld : oldSide (edits []) = [] := rfl
      have noNew : newSide (edits []) = [] := rfl
      rw [noOld, List.append_nil] at hold
      rw [noNew, List.append_nil] at proper ⊢
      exact terminatedAfter_last new first kept hold proper
    | cons q ps =>
      rw [List.dropLast_cons_cons, List.forall_mem_cons] at gaps
      obtain ⟨ne, gaps⟩ := gaps
      -- The kept line between this hunk and the next one keeps this one from the end.
      have behind : gap ++ oldSide (edits (q :: ps)) ≠ [] := List.append_ne_nil_of_left_ne_nil ne _
      rw [terminatedAfter_hunkOf new hold behind]
      have later := ih (List.cons_ne_nil q ps) ⟨change, gaps⟩ (front ++ oldSide es ++ gap)
        (front' ++ newSide es ++ gap) (new + (newSide es).length + gap.length)
        (by rw [hold, List.append_assoc, List.append_assoc])
        (by rwa [List.append_assoc, List.append_assoc])
        (.inr ⟨_, _, gap, ne, rfl, rfl⟩)
      rw [List.length_append, List.length_append, List.append_assoc, List.append_assoc] at later
      exact later

/-! ## Carrying an edit -/

namespace Grouping

/-- There is a hunk, as there is a part. -/
theorem hunks_ne_nil (g : Grouping) : g.hunks ≠ [] := by
  obtain ⟨p, ps, hp⟩ := List.exists_cons_of_ne_nil g.some
  obtain ⟨es, gap⟩ := p
  rw [hunks, hp]
  exact List.cons_ne_nil _ _

section

variable {g : Grouping} {original target : List Char}
  (hold : (LineText.ofChars original).fullLines = g.before ++ oldSide g.parts.edits)
  (hnew : (LineText.ofChars target).fullLines = g.before ++ newSide g.parts.edits)

include hold hnew

/-- The hunks of a script through two texts can be printed. -/
theorem printable (smallOld : (LineText.ofChars original).lines.length ≤ maxNumber)
    (smallNew : (LineText.ofChars target).lines.length ≤ maxNumber) :
    ∀ h ∈ g.hunks, h.Printable := by
  rw [← map_text_fullLines, List.length_map, hold, List.length_append] at smallOld
  rw [← map_text_fullLines, List.length_map, hnew, List.length_append] at smallNew
  have free : ∀ cs, ∀ l ∈ (LineText.ofChars cs).fullLines, '\n' ∉ l.text := by
    intro cs l hl
    have hmem := List.mem_map_of_mem (f := FullLine.text) hl
    rw [map_text_fullLines] at hmem
    exact LineText.not_mem_of_mem_lines hmem
  refine Parts.printable smallOld smallNew fun e he => ?_
  rcases line_mem_sides he with h | h
  · exact free original _ (by rw [hold]; exact List.mem_append_right _ h)
  · exact free target _ (by rw [hnew]; exact List.mem_append_right _ h)

/-- Splicing the hunks of a script into its old text gives the new text. -/
theorem toChars_splice : ((LineText.ofChars original).splice g.hunks).toChars = target := by
  have kept : EndsKept g.before g.before := by
    by_cases none : g.before = []
    · exact .inl none
    · exact .inr ⟨[], [], g.before, none, rfl, rfl⟩
  have lines : splice (LineText.ofChars original).lines g.hunks =
      (LineText.ofChars target).lines := by
    have hsplit : (LineText.ofChars original).lines =
        g.before.map FullLine.text ++ (oldSide g.parts.edits).map FullLine.text := by
      rw [← map_text_fullLines, hold, List.map_append]
    have spliced := Parts.splice (g.before.map FullLine.text) g.before.length hsplit
    rw [List.length_map] at spliced
    rw [hunks, spliced, ← map_text_fullLines, hnew, List.map_append]
  -- How the new text ends follows from its last line, through whichever hunks or kept lines it has.
  have terminated : splicedTerminated (LineText.ofChars original) g.hunks =
      (LineText.ofChars target).fullLines.all (·.ended) := by
    rw [← foldl_terminatedAfter, hnew]
    exact Parts.terminated g.some g.separate _ _ _ hold (hnew ▸ proper_fullLines _) kept
  rw [LineText.splice, lines, terminated]
  by_cases empty : (LineText.ofChars target).lines = []
  · -- Without lines it does not matter what would end the last one.
    have all := LineText.toChars_ofChars target
    rw [LineText.toChars, empty] at all
    rw [LineText.toChars, empty, ← all]
    simp
  · rw [all_ended_fullLines empty]
    exact LineText.toChars_ofChars target

end

end Grouping

/-- Every edit can be carried by a diff: if the steps of a script take one text to the other line by
line, the printed hunks of every grouping of them are read back, for whatever file, and applied to
the one text they give the other. The texts have no more lines than 64 bits can number, as every
text that fits into memory. -/
theorem apply_print (filename : String) {original target : String} (g : Grouping)
    (hold : oldSide g.edits = (LineText.ofChars original.toList).fullLines)
    (hnew : newSide g.edits = (LineText.ofChars target.toList).fullLines)
    (smallOld : (LineText.ofChars original.toList).lines.length ≤ maxNumber)
    (smallNew : (LineText.ofChars target.toList).lines.length ≤ maxNumber) :
    ∃ d, FileDiff.parse filename (print g.hunks) = .ok d ∧ d.apply original = .ok target := by
  have hold' : (LineText.ofChars original.toList).fullLines =
      g.before ++ oldSide g.parts.edits := by
    rw [← hold, Grouping.edits, oldSide_append, oldSide_map_kept]
  have hnew' : (LineText.ofChars target.toList).fullLines =
      g.before ++ newSide g.parts.edits := by
    rw [← hnew, Grouping.edits, newSide_append, newSide_map_kept]
  have parsed : FileDiff.parse filename (print g.hunks) = .ok ⟨filename, g.hunks⟩ :=
    FileDiff.parse_print filename g.hunks_ne_nil (g.printable hold' hnew' smallOld smallNew)
  refine ⟨_, parsed, ?_⟩
  refine (FileDiff.apply_eq_ok_iff (FileDiff.complete_of_parse parsed)).2
    ⟨⟨Parts.inOrder (Nat.zero_le _), Parts.meets g.before _ hold'⟩, ?_⟩
  rw [g.toChars_splice hold' hnew', String.ofList_toList]

/-- A line that looks like a header is inserted in front, and behind a line that no hunk takes a
line is removed and the last one gets its newline. -/
theorem apply_print_two_hunks :
    ∃ d, FileDiff.parse "f" ("@@ -0,0 +1,1 @@\n+@@ -1 +1 @@\n" ++
        "@@ -2,2 +3,1 @@\n-b\n-c\n\\ No newline at end of file\n+c\n") = .ok d ∧
      d.apply "-- a\nb\nc" = .ok "@@ -1 +1 @@\n-- a\nc\n" := by
  let g : Grouping :=
    { before := []
      parts :=
        [([.added ⟨"@@ -1 +1 @@".toList, true⟩], [⟨"-- a".toList, true⟩]),
          ([.removed ⟨['b'], true⟩, .removed ⟨['c'], false⟩, .added ⟨['c'], true⟩], [])]
      some := nofun
      separate := ⟨by decide, by decide⟩ }
  have printed : "@@ -0,0 +1,1 @@\n+@@ -1 +1 @@\n" ++
      "@@ -2,2 +3,1 @@\n-b\n-c\n\\ No newline at end of file\n+c\n" = print g.hunks := by
    decide +kernel
  rw [printed]
  exact apply_print "f" g (by decide +kernel) (by decide +kernel) (by decide +kernel)
    (by decide +kernel)

end OverlaySync.Diff
