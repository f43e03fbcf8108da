import OverlaySync.Proofs.Diff.ReversedText

/-! # Undoing a diff

Applying a diff is undone by the reversed diff, as long as the hunks name the places where their new
sides stand in the new text. There are two exceptions, both about the newline at the end of the
text, of which a hunk only speaks where it takes or leaves the last line:

* a last hunk that takes no line away and stands behind a last line without a newline: this line
  gets one, also if the hunk adds none, and the reversed diff leaves it there
  (`EndsBehindBareLine`);
* a hunk whose new side is the end of the new text, though there are hunks behind it, and which says
  that there is no newline: the text has one, so the reversed diff does not apply
  (`MarksBeforeLast`).

Main statement: `apply_reverse`. -/

namespace OverlaySync.Diff

/-- The lines of the new side stand in the text, at the line that the header names. -/
def Hunk.StandsIn (h : Hunk) (t : LineText) : Prop :=
  (t.lines.drop h.reverse.start).take h.newCount = h.newLines

/-- The last hunk takes no line away, and stands behind a last line without a newline. It may add
lines there or not. -/
def EndsBehindBareLine (t : LineText) (hunks : List Hunk) : Prop :=
  ∃ front h, hunks = front ++ [h] ∧ h.oldCount = 0 ∧ h.stop = t.lines.length ∧ t.lines ≠ [] ∧
    t.terminated = false

/-- A hunk with others behind it has the end of the new text as its new side, and says that there is
no newline. -/
def MarksBeforeLast (t : LineText) (hunks : List Hunk) : Prop :=
  ∃ front h later, hunks = front ++ h :: later ∧ later ≠ [] ∧ Marked BodyLine.new? h.body ∧
    h.reverse.stop = t.lines.length

/-! ## Markers and sides -/

/-- A side that is marked has a line. -/
theorem Marked.filterMap_ne_nil {side : BodyLine → Option Line} {body : List BodyLine}
    (h : Marked side body) : body.filterMap side ≠ [] := by
  obtain ⟨front, b, markers, text, back, rfl, -, hb⟩ := h
  obtain ⟨l, hl⟩ := Option.isSome_iff_exists.1 hb
  exact List.ne_nil_of_mem (List.mem_filterMap.2 ⟨b, by simp, hl⟩)

/-- A new side without lines is not marked. -/
theorem Hunk.newUnterminated_eq_false {h : Hunk} (size : h.newLines.length = h.newCount)
    (none : h.newCount = 0) : h.newUnterminated = false := by
  refine Bool.eq_false_iff.2 fun marked => ?_
  refine (newUnterminated_eq_true_iff.1 marked).filterMap_ne_nil ?_
  exact List.length_eq_zero_iff.1 (size.trans none)

/-- An old side without lines is not marked, since it is the new side of the reversed hunk. -/
theorem Hunk.oldUnterminated_eq_false {h : Hunk} (size : h.oldLines.length = h.oldCount)
    (none : h.oldCount = 0) : h.oldUnterminated = false := by
  rw [← newUnterminated_reverse]
  exact newUnterminated_eq_false (by rwa [newLines_reverse]) none

/-- The markers of the new side are those of the old side, reversed. -/
theorem Hunk.marked_reverse_iff {h : Hunk} :
    Marked BodyLine.old? h.reverse.body ↔ Marked BodyLine.new? h.body := by
  rw [← oldUnterminated_eq_true_iff, ← newUnterminated_eq_true_iff, oldUnterminated_reverse]

/-! ## The final newline -/

/-- With or without its final newline a text is the same only if it has no lines. -/
theorem LineText.toChars_eq_iff {lines : List Line} {b c : Bool} :
    toChars ⟨lines, b⟩ = toChars ⟨lines, c⟩ ↔ b = c ∨ lines = [] := by
  cases b <;> cases c <;> simp [toChars]

/-- Whether the new text ends in a newline is up to the last hunk. -/
theorem splicedTerminated_concat {t : LineText} {front : List Hunk} {last : Hunk} {cursor : Nat}
    (order : InOrder cursor (front ++ [last])) (inside : last.stop ≤ t.lines.length) :
    splicedTerminated t (front ++ [last]) =
      if last.stop = t.lines.length then !last.newUnterminated else t.terminated := by
  rw [splicedTerminated, List.reverse_append, List.reverse_singleton, List.singleton_append]
  by_cases hlast : last.stop = t.lines.length
  · simp [hlast]
  · -- No hunk before the last one ends behind it.
    have none : front.reverse.find? (·.stop = t.lines.length) = none := by
      refine List.find?_eq_none.2 fun h hh => ?_
      obtain ⟨before, behind, rfl⟩ := List.append_of_mem (List.mem_reverse.1 hh)
      rw [List.append_assoc, List.cons_append] at order
      have hstart := order.of_append.le_start last (by simp)
      have hstop := last.start_le_stop
      simp only [decide_eq_true_eq]
      omega
    simp [hlast, none]

/-! ## The new text -/

/-- The last hunk reaches the end of the one text if it reaches the end of the other. -/
theorem Aligned.stop_eq_iff {olds news : List Line} {front : List Hunk} {last : Hunk}
    (aligned : Aligned 0 0 olds news (front ++ [last])) :
    last.stop = olds.length ↔ last.reverse.stop = news.length := by
  obtain ⟨before, before', rest, rfl, rfl, hstop, hstop'⟩ := aligned.last
  rw [List.length_append, List.length_append]
  omega

/-- Lines of a new side that stand in a text are part of it. -/
theorem Hunk.StandsIn.inside {t : LineText} {h : Hunk} (stands : h.StandsIn t)
    (complete : h.Complete) (some : 0 < h.newCount) : h.reverse.stop ≤ t.lines.length := by
  have long := congrArg List.length stands
  rw [List.length_take, List.length_drop, complete.new] at long
  have hstop : h.reverse.stop = h.reverse.start + h.newCount := rfl
  omega

/-- Hunks, the last of which is `last`, that apply to a text and name their places. -/
structure Applies (t : LineText) (front : List Hunk) (last : Hunk) : Prop where
  complete : ∀ h ∈ front ++ [last], h.Complete
  /-- The lines of the text are lines. -/
  free : ∀ l ∈ t.lines, '\n' ∉ l
  /-- The text shows its last line. -/
  trace : t.terminated = false → t.lines.getLast? ≠ some []
  order : InOrder 0 (front ++ [last])
  meets : ∀ h ∈ front ++ [last], h.Meets t
  placed : Placed 0 0 (front ++ [last])

namespace Applies

variable {t : LineText} {front : List Hunk} {last : Hunk}

/-- The last hunk is one of them. -/
theorem mem_last : last ∈ front ++ [last] :=
  List.mem_append_right _ List.mem_cons_self

/-- The text and what becomes of it are the same in front of each hunk, between hunks and behind
them. -/
theorem aligned (a : Applies t front last) :
    Aligned 0 0 t.lines (t.splice (front ++ [last])).lines (front ++ [last]) :=
  aligned_of_meets a.complete a.order a.meets a.placed rfl

/-- The last hunk decides how the new text ends if it reaches the end of the old one. -/
theorem terminated (a : Applies t front last) :
    (t.splice (front ++ [last])).terminated =
      if last.stop = t.lines.length then !last.newUnterminated else t.terminated :=
  splicedTerminated_concat a.order (a.meets last mem_last).inside

/-- If the new side of the last hunk stands in the new text, then this shows its last line. -/
theorem shows_last (a : Applies t front last)
    (stands : last.StandsIn (.ofChars (t.splice (front ++ [last])).toChars)) :
    (t.splice (front ++ [last])).terminated = false →
      (t.splice (front ++ [last])).lines.getLast? ≠ some [] := by
  intro bare empty
  have read := LineText.lines_ofChars_toChars (t.splice (front ++ [last]))
    (not_mem_of_mem_splice a.free a.complete)
  rw [if_pos ⟨bare, empty⟩] at read
  have flag := a.terminated
  rw [bare] at flag
  by_cases hstop : last.stop = t.lines.length
  · -- The empty line is the last one of the new side, and the text that is read ends before it.
    rw [if_pos hstop] at flag
    have complete := a.complete last mem_last
    have some : 0 < last.newCount := Nat.pos_of_ne_zero fun none => by
      simp [Hunk.newUnterminated_eq_false complete.new none] at flag
    have inside := stands.inside complete some
    have ends := a.aligned.stop_eq_iff.1 hstop
    rw [read, List.length_dropLast, ends] at inside
    have pos : 0 < last.reverse.stop := Nat.lt_of_lt_of_le some (Nat.le_add_left _ _)
    omega
  · -- The empty line is the last one of the old text.
    rw [if_neg hstop] at flag
    obtain ⟨before, before', rest, hold, hnew, hstop', -⟩ := a.aligned.last
    have some : rest ≠ [] := by
      rintro rfl
      simp [hold, hstop'] at hstop
    have last_append : ∀ ls : List Line, (ls ++ rest).getLast? = rest.getLast? := fun ls => by
      rw [List.getLast?_append, List.getLast?_eq_some_getLast some, Option.some_or]
    refine a.trace flag.symm ?_
    rw [hold, last_append, ← last_append before', ← hnew, empty]

/-- If the new side of the last hunk stands in the new text, then this is read back; of a text
without lines it cannot be told whether they are ended. -/
theorem read_back (a : Applies t front last)
    (stands : last.StandsIn (.ofChars (t.splice (front ++ [last])).toChars)) :
    (LineText.ofChars (t.splice (front ++ [last])).toChars).lines =
        (t.splice (front ++ [last])).lines ∧
      ((t.splice (front ++ [last])).lines ≠ [] →
        LineText.ofChars (t.splice (front ++ [last])).toChars = t.splice (front ++ [last])) := by
  have trace := a.shows_last stands
  have free : ∀ l ∈ (t.splice (front ++ [last])).lines, '\n' ∉ l :=
    not_mem_of_mem_splice a.free a.complete
  refine ⟨?_, fun some => LineText.ofChars_toChars some free trace⟩
  rw [LineText.lines_ofChars_toChars _ free, if_neg fun lost => trace lost.1 lost.2]

/-- Where a hunk with others behind it has the end of the new text as its new side, the others only
take lines away, and the new text ends in a newline. -/
theorem terminated_of_stop (a : Applies t front last) {before later : List Hunk} {h : Hunk}
    (split : front ++ [last] = before ++ h :: later) (some : later ≠ [])
    (ends : h.reverse.stop = (t.splice (front ++ [last])).lines.length) :
    (t.splice (front ++ [last])).terminated = true := by
  obtain ⟨later, last', rfl⟩ := (List.eq_nil_or_concat later).resolve_left some
  rw [List.concat_eq_append, ← List.cons_append, ← List.append_assoc] at split
  obtain ⟨-, hlast⟩ := List.append_inj' split rfl
  cases hlast
  have order := a.aligned.reverse.inOrder
  rw [split, List.append_assoc, List.cons_append, List.map_append, List.map_cons] at order
  have hstart : h.reverse.stop ≤ last.reverse.start :=
    order.of_append.le_start last.reverse (by simp)
  have hstop : last.reverse.stop = last.reverse.start + last.newCount := rfl
  have hinside : last.reverse.stop ≤ (t.splice (front ++ [last])).lines.length := by
    obtain ⟨before, before', rest, -, hnew, -, hstop'⟩ := a.aligned.last
    rw [hnew, hstop', List.length_append]
    omega
  -- The last hunk ends where this one does, so there is nothing on its new side.
  have none : last.newCount = 0 := by omega
  rw [a.terminated, if_pos (a.aligned.stop_eq_iff.2 (by omega)),
    Hunk.newUnterminated_eq_false (a.complete last mem_last).new none, Bool.not_false]

/-! ## The way back -/

/-- The reversed hunks go back from the text that is read to the old one. -/
theorem aligned_reverse (a : Applies t front last)
    (stands : last.StandsIn (.ofChars (t.splice (front ++ [last])).toChars)) :
    Aligned 0 0 (LineText.ofChars (t.splice (front ++ [last])).toChars).lines t.lines
      ((front ++ [last]).map Hunk.reverse) := by
  rw [(a.read_back stands).1]
  exact a.aligned.reverse

/-- Where all new sides stand in the new text, the reversed hunks meet it, unless a marker is in the
way. -/
theorem reverse_meets_iff (a : Applies t front last)
    (stands : last.StandsIn (.ofChars (t.splice (front ++ [last])).toChars)) :
    (∀ h ∈ front ++ [last],
        h.reverse.Meets (.ofChars (t.splice (front ++ [last])).toChars)) ↔
      ¬MarksBeforeLast (.ofChars (t.splice (front ++ [last])).toChars) (front ++ [last]) := by
  obtain ⟨lines, read⟩ := a.read_back stands
  constructor
  · -- The marked hunk wants the text to end without a newline; as others stand behind it, there is
    -- one (`terminated_of_stop`).
    rintro meets ⟨before, h, later, split, some, marked, ends⟩
    have hmem : h ∈ front ++ [last] := by
      rw [split]
      simp
    have pos : 0 < h.newCount := by
      rw [← (a.complete h hmem).new]
      exact List.length_pos_iff.2 marked.filterMap_ne_nil
    have bare := ((meets h hmem).ending pos ends).1 (Hunk.marked_reverse_iff.2 marked)
    have hpos : 0 < h.reverse.stop := Nat.lt_of_lt_of_le pos (Nat.le_add_left _ _)
    rw [lines] at ends
    rw [read (List.length_pos_iff.1 (ends ▸ hpos)), a.terminated_of_stop split some ends] at bare
    cases bare
  · intro unmarked h hmem
    obtain ⟨inside, same⟩ := (a.aligned_reverse stands).same rfl (Nat.zero_le _) h.reverse
      (List.mem_map_of_mem hmem)
    refine ⟨inside, same, fun pos ends => ?_⟩
    have hpos : 0 < h.reverse.stop := Nat.lt_of_lt_of_le pos (Nat.le_add_left _ _)
    have ends' := ends
    rw [lines] at ends'
    rw [Hunk.marked_reverse_iff, read (List.length_pos_iff.1 (ends' ▸ hpos))]
    obtain ⟨before, later, split⟩ := List.append_of_mem hmem
    by_cases hlater : later = []
    · -- The last hunk has said so itself.
      subst hlater
      obtain ⟨-, hlast⟩ := List.append_inj' split rfl
      cases hlast
      rw [a.terminated, if_pos (a.aligned.stop_eq_iff.2 ends'), Bool.not_eq_false',
        Hunk.newUnterminated_eq_true_iff]
    · rw [a.terminated_of_stop split hlater ends']
      simp only [Bool.true_eq_false, iff_false]
      exact fun marked => unmarked ⟨before, h, later, split, hlater, marked, ends⟩

/-- Whether the text that the reversed hunks make ends in a newline is up to the last hunk too. -/
theorem terminated_reverse (a : Applies t front last)
    (stands : last.StandsIn (.ofChars (t.splice (front ++ [last])).toChars)) :
    splicedTerminated (.ofChars (t.splice (front ++ [last])).toChars)
        ((front ++ [last]).map Hunk.reverse) =
      if last.stop = t.lines.length then !last.oldUnterminated else t.terminated := by
  obtain ⟨lines, read⟩ := a.read_back stands
  have back := a.aligned_reverse stands
  obtain ⟨inside, -⟩ := back.same rfl (Nat.zero_le _) last.reverse (List.mem_map_of_mem mem_last)
  have order := back.inOrder
  rw [List.map_append, List.map_singleton] at order ⊢
  have ends := a.aligned.stop_eq_iff
  rw [splicedTerminated_concat order inside, lines]
  by_cases hstop : last.stop = t.lines.length
  · rw [if_pos hstop, if_pos (ends.1 hstop), Hunk.newUnterminated_reverse]
  · -- Behind the last hunk the texts are the same, up to their ends.
    rw [if_neg hstop, if_neg fun h => hstop (ends.2 h), read ?_, a.terminated, if_neg hstop]
    obtain ⟨before, before', rest, hold, hnew, hstop', -⟩ := a.aligned.last
    rw [hnew]
    refine List.append_ne_nil_of_right_ne_nil _ fun none => hstop ?_
    rw [hold, none, hstop', Nat.zero_add, List.append_nil]

/-- Going back gives the old text, unless the last hunk gave a newline to a line that had none. -/
theorem toChars_reverse_iff (a : Applies t front last)
    (stands : last.StandsIn (.ofChars (t.splice (front ++ [last])).toChars)) :
    ((LineText.ofChars (t.splice (front ++ [last])).toChars).splice
        ((front ++ [last]).map Hunk.reverse)).toChars = t.toChars ↔
      ¬EndsBehindBareLine t (front ++ [last]) := by
  have spliced := (a.aligned_reverse stands).drop_splice rfl (Nat.zero_le _)
  rw [List.drop_zero] at spliced
  have behind : EndsBehindBareLine t (front ++ [last]) ↔
      last.oldCount = 0 ∧ last.stop = t.lines.length ∧ t.lines ≠ [] ∧ t.terminated = false := by
    constructor
    · rintro ⟨front', last', split, facts⟩
      obtain ⟨-, hlast⟩ := List.append_inj' split rfl
      cases hlast
      exact facts
    · exact fun facts => ⟨front, last, rfl, facts⟩
  rw [behind, LineText.splice, spliced, a.terminated_reverse stands]
  refine LineText.toChars_eq_iff (c := t.terminated).trans ?_
  by_cases hstop : last.stop = t.lines.length
  · rw [if_pos hstop]
    by_cases none : last.oldCount = 0
    · rw [Hunk.oldUnterminated_eq_false (a.complete last mem_last).old none]
      cases t.terminated <;> simp [none, hstop]
    · -- The last hunk takes the last line away, so it has said whether this has a newline.
      have ending := (a.meets last mem_last).ending (Nat.pos_of_ne_zero none) hstop
      rw [← Hunk.oldUnterminated_eq_true_iff] at ending
      have flag : (!last.oldUnterminated) = t.terminated := by
        cases hold : last.oldUnterminated <;> cases hterm : t.terminated <;> simp_all
      simp [flag, none]
  · rw [if_neg hstop]
    simp [hstop]

end Applies

/-! ## Diffs -/

/-- A diff that was read, applied, and names the places of its new sides, is undone by the reversed
diff. This is read in any case. It takes the new text back to the old one exactly if the new sides
stand in the new text, the last hunk does not just stand behind a last line without a newline, and
no hunk but the last one says how the new text ends. -/
theorem apply_reverse {filename diff original patched : String} {d : FileDiff}
    (parsed : FileDiff.parse filename diff = .ok d) (applied : d.apply original = .ok patched)
    (placed : Placed 0 0 d.hunks) :
    ∃ back, FileDiff.parse filename (reverseText diff) = .ok back ∧
      (back.apply patched = .ok original ↔
        (∀ h ∈ d.hunks, h.StandsIn (.ofChars patched.toList)) ∧
        ¬EndsBehindBareLine (.ofChars original.toList) d.hunks ∧
        ¬MarksBeforeLast (.ofChars patched.toList) d.hunks) := by
  have complete := FileDiff.complete_of_parse parsed
  have parsed' := FileDiff.parse_reverseText parsed
  have complete' := FileDiff.complete_of_parse parsed'
  refine ⟨_, parsed', ?_⟩
  obtain ⟨⟨order, meets⟩, rfl⟩ := (FileDiff.apply_eq_ok_iff complete).1 applied
  -- A diff that is read has a last hunk.
  obtain ⟨front, last, hlast⟩ :=
    (List.eq_nil_or_concat d.hunks).resolve_left (FileDiff.hunks_ne_nil_of_parse parsed)
  rw [List.concat_eq_append] at hlast
  rw [hlast] at complete order meets placed
  have a : Applies (.ofChars original.toList) front last :=
    ⟨complete, fun l hl => LineText.not_mem_of_mem_lines hl, LineText.getLast?_lines_ne, order,
      meets, placed⟩
  have whole := LineText.toChars_ofChars original.toList
  generalize LineText.ofChars original.toList = t at a whole ⊢
  rw [FileDiff.apply_eq_ok_iff complete', String.toList_ofList, hlast, ← String.toList_inj,
    String.toList_ofList, ← whole, eq_comm (a := t.toChars), List.forall_mem_map]
  constructor
  · rintro ⟨⟨-, meets'⟩, undone⟩
    -- A reversed hunk meets the text only where its old side stands.
    have stands : ∀ h ∈ front ++ [last],
        h.StandsIn (.ofChars (t.splice (front ++ [last])).toChars) := fun h hh => by
      have same := (meets' h hh).same
      rwa [Hunk.oldCount_reverse, Hunk.oldLines_reverse] at same
    have last_stands := stands last Applies.mem_last
    exact ⟨stands, (a.toChars_reverse_iff last_stands).1 undone,
      (a.reverse_meets_iff last_stands).1 meets'⟩
  · rintro ⟨stands, bare, unmarked⟩
    have last_stands := stands last Applies.mem_last
    exact ⟨⟨(a.aligned_reverse last_stands).inOrder, (a.reverse_meets_iff last_stands).2 unmarked⟩,
      (a.toChars_reverse_iff last_stands).2 bare⟩

/-- An insertion at the start and a new last line with a newline that was missing are undone. -/
theorem apply_reverse_both_ends :
    ∃ d back, FileDiff.parse "f"
        "+++ f\n@@ -0,0 +1 @@ top\n+x\n@@ -3 +4 @@\n-c\n\\ No newline\n+d\n" = .ok d ∧
      d.apply "a\nb\nc" = .ok "x\na\nb\nd\n" ∧ Placed 0 0 d.hunks ∧
      FileDiff.parse "f"
        "+++ f\n@@ -1 +0,0 @@ top\n-x\n@@ -4 +3 @@\n+c\n\\ No newline\n-d\n" = .ok back ∧
      back.apply "x\na\nb\nd\n" = .ok "a\nb\nc" ∧
      (∀ h ∈ d.hunks, h.StandsIn (.ofChars "x\na\nb\nd\n".toList)) ∧
      ¬EndsBehindBareLine (.ofChars "a\nb\nc".toList) d.hunks ∧
      ¬MarksBeforeLast (.ofChars "x\na\nb\nd\n".toList) d.hunks := by
  let marker : BodyLine := .noNewline " No newline".toList
  let d : FileDiff := ⟨"f", [⟨⟨0, 0, 1, 1⟩, [.added ['x']]⟩,
    ⟨⟨3, 1, 4, 1⟩, [.removed ['c'], marker, .added ['d']]⟩]⟩
  have parsed : FileDiff.parse "f"
      "+++ f\n@@ -0,0 +1 @@ top\n+x\n@@ -3 +4 @@\n-c\n\\ No newline\n+d\n" = .ok d :=
    Outcome.eq_ok_of_toOption (by decide +kernel)
  have applied : d.apply "a\nb\nc" = .ok "x\na\nb\nd\n" :=
    Outcome.eq_ok_of_toOption (by decide +kernel)
  have placed : Placed 0 0 d.hunks := ⟨rfl, rfl, trivial⟩
  have text : reverseText
      "+++ f\n@@ -0,0 +1 @@ top\n+x\n@@ -3 +4 @@\n-c\n\\ No newline\n+d\n" =
      "+++ f\n@@ -1 +0,0 @@ top\n-x\n@@ -4 +3 @@\n+c\n\\ No newline\n-d\n" := by
    decide +kernel
  obtain ⟨back, parsed', undone⟩ := apply_reverse parsed applied placed
  rw [text] at parsed'
  have found : (FileDiff.parse "f"
      "+++ f\n@@ -1 +0,0 @@ top\n-x\n@@ -4 +3 @@\n+c\n\\ No newline\n-d\n").toOption =
      some ⟨"f", d.hunks.map Hunk.reverse⟩ := by
    decide +kernel
  have applied' : back.apply "x\na\nb\nd\n" = .ok "a\nb\nc" := by
    rw [parsed', Except.toOption, Option.some.injEq] at found
    rw [found]
    exact Outcome.eq_ok_of_toOption (by decide +kernel)
  exact ⟨d, back, parsed, applied, placed, parsed', applied', undone.1 applied'⟩

/-- Lines added behind a last line without a newline are taken away again, but the newline that they
needed stays. And a marker in front of the last hunk keeps the reversed diff from applying. -/
theorem reversed_is_not_undone :
    (∃ d back, FileDiff.parse "f" "@@ -1,0 +2 @@\n+b\n" = .ok d ∧
      d.apply "a" = .ok "a\nb\n" ∧ Placed 0 0 d.hunks ∧
      (∀ h ∈ d.hunks, h.StandsIn (.ofChars "a\nb\n".toList)) ∧
      reverseText "@@ -1,0 +2 @@\n+b\n" = "@@ -2 +1,0 @@\n-b\n" ∧
      FileDiff.parse "f" "@@ -2 +1,0 @@\n-b\n" = .ok back ∧ back.apply "a\nb\n" = .ok "a\n") ∧
    ∃ d back, FileDiff.parse "f" "@@ -1 +1 @@\n-a\n+b\n\\\n@@ -2 +1,0 @@\n-c\n" = .ok d ∧
      d.apply "a\nc\n" = .ok "b\n" ∧ Placed 0 0 d.hunks ∧
      (∀ h ∈ d.hunks, h.StandsIn (.ofChars "b\n".toList)) ∧
      reverseText "@@ -1 +1 @@\n-a\n+b\n\\\n@@ -2 +1,0 @@\n-c\n" =
        "@@ -1 +1 @@\n+a\n-b\n\\\n@@ -1,0 +2 @@\n+c\n" ∧
      FileDiff.parse "f" "@@ -1 +1 @@\n+a\n-b\n\\\n@@ -1,0 +2 @@\n+c\n" = .ok back ∧
      (back.apply "b\n").toOption = none := by
  refine ⟨⟨⟨"f", [⟨⟨1, 0, 2, 1⟩, [.added ['b']]⟩]⟩, ⟨"f", [⟨⟨2, 1, 1, 0⟩, [.removed ['b']]⟩]⟩, ?_⟩,
    ⟨"f", [⟨⟨1, 1, 1, 1⟩, [.removed ['a'], .added ['b'], .noNewline []]⟩,
      ⟨⟨2, 1, 1, 0⟩, [.removed ['c']]⟩]⟩,
    ⟨"f", [⟨⟨1, 1, 1, 1⟩, [.added ['a'], .removed ['b'], .noNewline []]⟩,
      ⟨⟨1, 0, 2, 1⟩, [.added ['c']]⟩]⟩, ?_⟩
  · refine ⟨Outcome.eq_ok_of_toOption (by decide +kernel),
      Outcome.eq_ok_of_toOption (by decide +kernel), ⟨rfl, trivial⟩, ?_, by decide +kernel,
      Outcome.eq_ok_of_toOption (by decide +kernel), Outcome.eq_ok_of_toOption (by decide +kernel)⟩
    simp only [Hunk.StandsIn]
    decide +kernel
  · refine ⟨Outcome.eq_ok_of_toOption (by decide +kernel),
      Outcome.eq_ok_of_toOption (by decide +kernel), ⟨rfl, rfl, trivial⟩, ?_, by decide +kernel,
      Outcome.eq_ok_of_toOption (by decide +kernel), by decide +kernel⟩
    simp only [Hunk.StandsIn]
    decide +kernel

end OverlaySync.Diff
