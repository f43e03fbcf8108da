import OverlaySync.Proofs.Diff.Reversal

/-! # Which markers are borne out

A marker in a hunk says of the line right before it that it is the last line of its text, and that
this text does not end in a newline. For a removed line the text is the old one, for an added line
the new one, and for a line of both sides it is both. A diff is applied without a look at most
markers: only a hunk that takes the last line of the old text away is compared with it. So a marker
is borne out if its hunk reaches the end of the old text and the marked line is the last one of its
side; on the new side the hunk also has to be the last one, and the line must not be empty.

Main statement: `marker_borne_out_iff`. -/

namespace OverlaySync.Diff

/-- The line with the number `n`, counted from zero, is `l`, and the text ends with it and without a
newline. -/
structure LineText.EndsBare (t : LineText) (n : Nat) (l : Line) : Prop where
  /-- The line is where it is said to be. -/
  found : t.lines[n]? = some l
  /-- It is the last one. -/
  last : n + 1 = t.lines.length
  /-- It has no newline. -/
  bare : t.terminated = false

/-- Which line of the old text an old line of a hunk is matched with; `before` is the body in front
of it. -/
def Hunk.oldIndex (h : Hunk) (before : List BodyLine) : Nat :=
  h.start + (before.filterMap BodyLine.old?).length

/-- Which line of the new text a new line of a hunk becomes, behind the hunks `front`: these have
moved the lines behind them by what they add and take away. -/
def Hunk.newIndex (h : Hunk) (front : List Hunk) (before : List BodyLine) : Nat :=
  h.start + total (·.newCount) front - total (·.oldCount) front +
    (before.filterMap BodyLine.new?).length

/-! ## Counts -/

/-- The lines of some hunks and those of others add up. -/
theorem total_append (count : Hunk → Nat) (hs gs : List Hunk) :
    total count (hs ++ gs) = total count hs + total count gs := by
  induction hs with
  | nil => simp [total]
  | cons h hs ih => simp [total, ih, Nat.add_assoc]

/-- The hunks before a hunk take no more lines away than there are before it. -/
theorem InOrder.total_le_start {cursor : Nat} {front later : List Hunk} {h : Hunk}
    (order : InOrder cursor (front ++ h :: later)) :
    cursor + total (·.oldCount) front ≤ h.start := by
  induction front generalizing cursor with
  | nil => exact order.1
  | cons g front ih =>
    obtain ⟨first, order⟩ := order
    have rest := ih order
    have hstop : g.stop = g.start + g.oldCount := rfl
    rw [total]
    omega

/-- All hunks in order take no more lines away than there are up to the end of the last one. -/
theorem InOrder.total_le_stop {cursor : Nat} {front : List Hunk} {last : Hunk}
    (order : InOrder cursor (front ++ [last])) :
    cursor + total (·.oldCount) (front ++ [last]) ≤ last.stop := by
  have rest := order.total_le_start
  have hstop : last.stop = last.start + last.oldCount := rfl
  rw [total_append, total, total]
  omega

/-! ## Where the lines of a hunk are -/

/-- A side of a body that is taken apart at a line of this side with a marker behind it. -/
theorem filterMap_marked {side : BodyLine → Option Line} (hside : ∀ s, side (.noNewline s) = none)
    {before behind : List BodyLine} {b : BodyLine} {text l : Line} (hb : side b = some l) :
    (before ++ b :: .noNewline text :: behind).filterMap side =
      before.filterMap side ++ l :: behind.filterMap side := by
  rw [List.filterMap_append, List.filterMap_cons_some hb, List.filterMap_cons_none (hside text)]

/-- A marker behind a line of a side marks the side. -/
theorem marked_of_body {side : BodyLine → Option Line} {before behind : List BodyLine}
    {b : BodyLine} {text l : Line} (hb : side b = some l) :
    Marked side (before ++ b :: .noNewline text :: behind) :=
  ⟨before, b, [], text, behind, rfl, nofun, by rw [hb]; rfl⟩

/-- The old lines of a hunk are matched with the lines of the text from its start on. -/
theorem Hunk.Meets.getElem?_lines {h : Hunk} {t : LineText} (meets : h.Meets t)
    (complete : h.Complete) {before behind : List Line} {l : Line}
    (lines : h.oldLines = before ++ l :: behind) : t.lines[h.start + before.length]? = some l := by
  have size := complete.old
  rw [lines, List.length_append, List.length_cons] at size
  have found : ((t.lines.drop h.start).take h.oldCount)[before.length]? = some l := by
    rw [meets.same, lines]
    simp
  rwa [List.getElem?_take_of_lt (by omega), List.getElem?_drop] at found

/-- The new side of a hunk stands in the splice behind the lines in front of it, with those that the
hunks before have added and without those that they have taken away. -/
theorem drop_splice_append {lines : List Line} {cursor : Nat} {front later : List Hunk} {h : Hunk}
    (order : InOrder cursor (front ++ h :: later))
    (inside : ∀ g ∈ front ++ h :: later, g.stop ≤ lines.length)
    (complete : ∀ g ∈ front ++ h :: later, g.Complete) :
    ∃ before behind, (splice lines (front ++ h :: later)).drop cursor =
        before ++ (h.newLines ++ behind) ∧
      before.length + cursor + total (·.oldCount) front = h.start + total (·.newCount) front := by
  induction front generalizing cursor with
  | nil =>
    have hinside := inside h List.mem_cons_self
    refine ⟨_, _, (drop_splice_cons order hinside).trans (List.append_assoc ..), ?_⟩
    have hstart := h.start_le_stop
    have first := order.1
    rw [List.length_take, List.length_drop, total, total]
    omega
  | cons g front ih =>
    obtain ⟨ginside, inside⟩ := List.forall_mem_cons.1 inside
    obtain ⟨gcomplete, complete⟩ := List.forall_mem_cons.1 complete
    obtain ⟨before, behind, hdrop, size⟩ := ih order.2 inside complete
    refine ⟨(lines.drop cursor).take (g.start - cursor) ++ g.newLines ++ before, behind, ?_, ?_⟩
    · rw [List.append_assoc _ before, ← hdrop]
      exact drop_splice_cons order ginside
    · have hstop : g.stop = g.start + g.oldCount := rfl
      have first := order.1
      rw [List.length_append, List.length_append, List.length_take, List.length_drop,
        gcomplete.new, total, total]
      omega

/-! ## Texts that show their last line -/

/-- A text that ends in a line without a newline is what it was written from. -/
theorem LineText.eq_of_terminated_eq_false {t : LineText} (free : ∀ l ∈ t.lines, '\n' ∉ l)
    (some : (ofChars t.toChars).lines ≠ []) (bare : (ofChars t.toChars).terminated = false) :
    ofChars t.toChars = t := by
  obtain ⟨lines, terminated⟩ := t
  obtain rfl | ⟨front, last, rfl⟩ := List.eq_nil_or_concat lines
  · simp [toChars, Text.joined, ofChars] at some
  refine ofChars_toChars (by simp) free fun unended empty => ?_
  -- An empty last line without a newline leaves the lines in front of it, which are ended.
  obtain rfl : terminated = false := unended
  obtain rfl : last = [] := by simpa using empty
  rw [List.concat_eq_append] at free some bare
  rw [toChars_unterminated, List.append_nil] at some bare
  have ne : front ≠ [] := by
    rintro rfl
    exact some rfl
  rw [ofChars_terminated ne fun l hl => free l (List.mem_append_left _ hl)] at bare
  cases bare

/-! ## Markers of the old side -/

/-- On the old side a marker is borne out if the hunk reaches the end of the text and has no old
line behind the marked one. -/
theorem endsBare_old_iff {t : LineText} {h : Hunk} (meets : h.Meets t) (complete : h.Complete)
    {before behind : List BodyLine} {b : BodyLine} {text l : Line}
    (body : h.body = before ++ b :: .noNewline text :: behind) (hb : b.old? = some l) :
    t.lines[h.oldIndex before]? = some l ∧
      (t.EndsBare (h.oldIndex before) l ↔
        h.stop = t.lines.length ∧ behind.filterMap BodyLine.old? = []) := by
  have lines : h.oldLines =
      before.filterMap BodyLine.old? ++ l :: behind.filterMap BodyLine.old? := by
    rw [Hunk.oldLines, body, filterMap_marked (fun _ => rfl) hb]
  have size := complete.old
  rw [lines, List.length_append, List.length_cons] at size
  have hstop : h.stop = h.start + h.oldCount := rfl
  have inside := meets.inside
  have found : t.lines[h.oldIndex before]? = some l := meets.getElem?_lines complete lines
  refine ⟨found, ?_⟩
  rw [← List.length_eq_zero_iff]
  constructor
  · rintro ⟨-, last, -⟩
    rw [Hunk.oldIndex] at last
    exact ⟨by omega, by omega⟩
  · rintro ⟨ends, none⟩
    refine ⟨found, by rw [Hunk.oldIndex]; omega, (meets.ending (by omega) ends).1 ?_⟩
    rw [body]
    exact marked_of_body hb

/-! ## Markers of the new side -/

/-- The new text ends with a marked line of a hunk exactly if the hunk reaches the end of the old
text, is the last one, and has no new line behind the marked one. For if there are hunks behind it,
then they take the rest of the old text away and leave a newline at the end. -/
theorem endsBare_splice_iff {t : LineText} {front later : List Hunk} {h : Hunk}
    (order : InOrder 0 (front ++ h :: later)) (meets : ∀ g ∈ front ++ h :: later, g.Meets t)
    (complete : ∀ g ∈ front ++ h :: later, g.Complete) {before behind : List BodyLine}
    {b : BodyLine} {text l : Line} (body : h.body = before ++ b :: .noNewline text :: behind)
    (hb : b.new? = some l) :
    (t.splice (front ++ h :: later)).EndsBare (h.newIndex front before) l ↔
      h.stop = t.lines.length ∧ later = [] ∧ behind.filterMap BodyLine.new? = [] := by
  have lines : h.newLines =
      before.filterMap BodyLine.new? ++ l :: behind.filterMap BodyLine.new? := by
    rw [Hunk.newLines, body, filterMap_marked (fun _ => rfl) hb]
  have hmem : h ∈ front ++ h :: later := by simp
  have size := (complete h hmem).new
  rw [lines, List.length_append, List.length_cons] at size
  have hstop : h.stop = h.start + h.oldCount := rfl
  have inside := (meets h hmem).inside
  have first := order.total_le_start
  have length := length_splice order meets complete
  rw [total_append, total_append, total, total] at length
  -- Where the line is the last one, the lengths of all hunks leave no room behind it.
  constructor
  · rintro ⟨-, last, bare⟩
    change h.newIndex front before + 1 = (splice t.lines (front ++ h :: later)).length at last
    rw [Hunk.newIndex] at last
    obtain rfl | ⟨between, final, rfl⟩ := List.eq_nil_or_concat later
    · rw [total, total] at length
      exact ⟨by omega, rfl, List.length_eq_zero_iff.1 (by omega)⟩
    · -- The last hunk takes the end of the old text away and puts nothing in its place.
      rw [List.concat_eq_append] at order meets complete bare length last
      have reach := order.of_append.total_le_stop
      have hfinal : final ∈ front ++ h :: (between ++ [final]) := by simp
      have limit := (meets final hfinal).inside
      have none : final.newCount = 0 := by
        simp only [total_append, total] at length reach
        omega
      have ends : final.stop = t.lines.length := by omega
      have whole : front ++ h :: (between ++ [final]) = (front ++ h :: between) ++ [final] := by
        simp
      rw [LineText.splice, whole, splicedTerminated_concat (whole ▸ order) limit, if_pos ends,
        Hunk.newUnterminated_eq_false (complete final hfinal).new none] at bare
      cases bare
  · rintro ⟨ends, rfl, none⟩
    rw [total, total] at length
    rw [← List.length_eq_zero_iff] at none
    obtain ⟨ahead, rest, hdrop, place⟩ :=
      drop_splice_append order (fun g hg => (meets g hg).inside) complete
    rw [List.drop_zero] at hdrop
    have index : h.newIndex front before =
        ahead.length + (before.filterMap BodyLine.new?).length := by
      rw [Hunk.newIndex]
      omega
    refine ⟨?_, ?_, ?_⟩
    · rw [LineText.splice, hdrop, lines, index]
      simp
    · change h.newIndex front before + 1 = (splice t.lines (front ++ [h])).length
      omega
    · have marked : h.newUnterminated = true :=
        Hunk.newUnterminated_eq_true_iff.2 (by rw [body]; exact marked_of_body hb)
      rw [LineText.splice, splicedTerminated_concat order inside, if_pos ends, marked,
        Bool.not_true]

/-! ## Diffs -/

/-- When a diff applies, every line of the old side with a marker behind it is matched with a line
of the old text. This is its last line, and without a newline, exactly if the hunk reaches the end
of the text and the marked line is the last old line of the hunk. A marked line of the new side is
the last line of the result, and without a newline, exactly if in addition the hunk is the last one
and the line is not empty. -/
theorem marker_borne_out_iff {filename diff original patched : String} {d : FileDiff}
    {front later : List Hunk} {h : Hunk} {before behind : List BodyLine} {b : BodyLine}
    {text : Line} (parsed : FileDiff.parse filename diff = .ok d)
    (applied : d.apply original = .ok patched) (hunks : d.hunks = front ++ h :: later)
    (body : h.body = before ++ b :: .noNewline text :: behind) :
    (∀ l, b.old? = some l →
      (LineText.ofChars original.toList).lines[h.oldIndex before]? = some l ∧
      ((LineText.ofChars original.toList).EndsBare (h.oldIndex before) l ↔
        h.stop = (LineText.ofChars original.toList).lines.length ∧
        behind.filterMap BodyLine.old? = [])) ∧
    ∀ l, b.new? = some l →
      ((LineText.ofChars patched.toList).EndsBare (h.newIndex front before) l ↔
        h.stop = (LineText.ofChars original.toList).lines.length ∧ later = [] ∧
        behind.filterMap BodyLine.new? = [] ∧ l ≠ []) := by
  have complete := FileDiff.complete_of_parse parsed
  obtain ⟨⟨order, meets⟩, rfl⟩ := (FileDiff.apply_eq_ok_iff complete).1 applied
  rw [hunks] at order meets complete ⊢
  have hmem : h ∈ front ++ h :: later := by simp
  refine ⟨fun l hl => endsBare_old_iff (meets h hmem) (complete h hmem) body hl, fun l hl => ?_⟩
  have spliced := endsBare_splice_iff order meets complete body hl
  have free : ∀ l ∈ ((LineText.ofChars original.toList).splice (front ++ h :: later)).lines,
      '\n' ∉ l :=
    not_mem_of_mem_splice (fun l hl => LineText.not_mem_of_mem_lines hl) complete
  rw [String.toList_ofList]
  generalize LineText.ofChars original.toList = t at spliced free ⊢
  constructor
  · intro ends
    -- The result ends in a line without a newline, so it shows all lines of the splice.
    have some : (LineText.ofChars (t.splice (front ++ h :: later)).toChars).lines ≠ [] := by
      intro none
      have last := ends.last
      rw [none] at last
      cases last
    have same := LineText.eq_of_terminated_eq_false free some ends.bare
    have nonempty : l ≠ [] := by
      rintro rfl
      refine LineText.getLast?_lines_ne ends.bare ?_
      rw [List.getLast?_eq_getElem?, ← ends.last, Nat.add_sub_cancel, ends.found]
    rw [same] at ends
    obtain ⟨reaches, last, none⟩ := spliced.1 ends
    exact ⟨reaches, last, none, nonempty⟩
  · rintro ⟨reaches, last, none, nonempty⟩
    have ends := spliced.2 ⟨reaches, last, none⟩
    have final : (t.splice (front ++ h :: later)).lines.getLast? = some l := by
      rw [List.getLast?_eq_getElem?, ← ends.last, Nat.add_sub_cancel, ends.found]
    rwa [LineText.ofChars_toChars (fun none => by simp [none] at final) free fun _ => by
      rw [final]
      simpa using nonempty]

/-- Behind another hunk, the last line of both texts has no newline. -/
theorem marker_borne_out_at_end :
    ∃ d h front before before' behind,
      FileDiff.parse "f"
        "@@ -1 +1,2 @@\n-a\n+x\n+y\n@@ -3 +4 @@\n-c\n\\ No newline\n+d\n\\ No newline\n" = .ok d ∧
      d.apply "a\nb\nc" = .ok "x\ny\nb\nd" ∧ d.hunks = front ++ [h] ∧
      h.body = before ++ .removed ['c'] :: .noNewline " No newline".toList :: behind ∧
      h.body = before' ++ [.added ['d'], .noNewline " No newline".toList] ∧
      (LineText.ofChars "a\nb\nc".toList).EndsBare (h.oldIndex before) ['c'] ∧
      (LineText.ofChars "x\ny\nb\nd".toList).EndsBare (h.newIndex front before') ['d'] := by
  let marker : BodyLine := .noNewline " No newline".toList
  let first : Hunk := ⟨⟨1, 1, 1, 2⟩, [.removed ['a'], .added ['x'], .added ['y']]⟩
  let h : Hunk := ⟨⟨3, 1, 4, 1⟩, [.removed ['c'], marker, .added ['d'], marker]⟩
  have parsed : FileDiff.parse "f"
      "@@ -1 +1,2 @@\n-a\n+x\n+y\n@@ -3 +4 @@\n-c\n\\ No newline\n+d\n\\ No newline\n" =
      .ok ⟨"f", [first, h]⟩ :=
    Outcome.eq_ok_of_toOption (by decide +kernel)
  have applied : FileDiff.apply ⟨"f", [first, h]⟩ "a\nb\nc" = .ok "x\ny\nb\nd" :=
    Outcome.eq_ok_of_toOption (by decide +kernel)
  have ends : h.stop = (LineText.ofChars "a\nb\nc".toList).lines.length := by decide +kernel
  have hunks : [first, h] = [first] ++ [h] := rfl
  have bodyOld : h.body = [] ++ .removed ['c'] :: marker :: [.added ['d'], marker] := rfl
  have bodyNew : h.body = [.removed ['c'], marker] ++ [.added ['d'], marker] := rfl
  obtain ⟨old, -⟩ := marker_borne_out_iff parsed applied hunks bodyOld
  obtain ⟨-, new⟩ := marker_borne_out_iff parsed applied hunks bodyNew
  exact ⟨_, h, _, _, _, _, parsed, applied, hunks, bodyOld, bodyNew,
    (old ['c'] rfl).2.2 ⟨ends, rfl⟩, (new ['d'] rfl).2 ⟨ends, rfl, rfl, by decide⟩⟩

/-- Markers in front of the end are not looked at: neither text ends at the marked line. -/
theorem marker_not_borne_out :
    ∃ d h,
      FileDiff.parse "f" "@@ -1 +1 @@\n-a\n\\ No newline\n+b\n\\ No newline\n" = .ok d ∧
      d.apply "a\nc\n" = .ok "b\nc\n" ∧ d.hunks = [h] ∧
      h.body = [.removed ['a'], .noNewline " No newline".toList, .added ['b'],
        .noNewline " No newline".toList] ∧
      (¬∃ n, (LineText.ofChars "a\nc\n".toList).EndsBare n ['a']) ∧
      ¬∃ n, (LineText.ofChars "b\nc\n".toList).EndsBare n ['b'] := by
  refine ⟨⟨"f", [⟨⟨1, 1, 1, 1⟩, [.removed ['a'], .noNewline " No newline".toList, .added ['b'],
    .noNewline " No newline".toList]⟩]⟩, _, Outcome.eq_ok_of_toOption (by decide +kernel),
    Outcome.eq_ok_of_toOption (by decide +kernel), rfl, rfl, ?_, ?_⟩
  · rintro ⟨n, ends⟩
    exact absurd ends.bare (by decide +kernel)
  · rintro ⟨n, ends⟩
    exact absurd ends.bare (by decide +kernel)

end OverlaySync.Diff
