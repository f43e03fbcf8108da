import OverlaySync.Diff.Application
import OverlaySync.Proofs.Diff.Completeness
import OverlaySync.Proofs.Diff.LineText
import OverlaySync.Proofs.Lists

/-! # Applying a diff is a splice

A diff applies exactly to the texts that its hunks meet, and the result is the old text with the
range of every hunk replaced by the hunk's new lines. The ranges are numbers of lines of the old
text, so `splice` replaces them from the last one to the first.

Main statement: `apply_splices`. -/

namespace OverlaySync.Diff

/-! ## Markers -/

/-- Some marker has a line of the given side as the nearest line before it that is no marker. -/
def Marked (side : BodyLine → Option Line) (body : List BodyLine) : Prop :=
  ∃ front b markers text back, body = front ++ b :: (markers ++ .noNewline text :: back) ∧
    (∀ m ∈ markers, ∃ s, m = .noNewline s) ∧ (side b).isSome = true

/-- The first marker behind a line is right behind it, so only the head of what follows counts. -/
theorem marked_cons_iff {side : BodyLine → Option Line} {b : BodyLine} {body : List BodyLine} :
    Marked side (b :: body) ↔
      ((side b).isSome = true ∧ ∃ s ls, body = .noNewline s :: ls) ∨ Marked side body := by
  constructor
  · rintro ⟨front, c, markers, text, back, hbody, hmarkers, hc⟩
    cases front with
    | nil =>
      rw [List.nil_append, List.cons.injEq] at hbody
      obtain ⟨rfl, rfl⟩ := hbody
      refine .inl ⟨hc, ?_⟩
      cases markers with
      | nil => exact ⟨text, back, rfl⟩
      | cons m ms =>
        obtain ⟨s, rfl⟩ := hmarkers m List.mem_cons_self
        exact ⟨s, _, rfl⟩
    | cons d front =>
      rw [List.cons_append, List.cons.injEq] at hbody
      exact .inr ⟨front, c, markers, text, back, hbody.2, hmarkers, hc⟩
  · rintro (⟨hb, s, ls, rfl⟩ | ⟨front, c, markers, text, back, rfl, hmarkers, hc⟩)
    · exact ⟨[], b, [], s, ls, rfl, nofun, hb⟩
    · exact ⟨b :: front, c, markers, text, back, rfl, hmarkers, hc⟩

/-- Going through a body finds the marked sides. -/
theorem Hunk.markedIn_eq_true_iff {side : BodyLine → Option Line}
    (hside : ∀ s, side (.noNewline s) = none) {before : Bool} {body : List BodyLine} :
    markedIn side before body = true ↔
      (before = true ∧ ∃ s ls, body = .noNewline s :: ls) ∨ Marked side body := by
  induction body generalizing before with
  | nil =>
    have hnone : ¬Marked side [] := by
      rintro ⟨front, b, markers, text, back, hbody, -⟩
      simp at hbody
    simp [markedIn, hnone]
  | cons b body ih =>
    rw [marked_cons_iff]
    cases b with
    | noNewline s =>
      -- A marker marks what it stands behind, and so does a marker behind it.
      rw [markedIn, Bool.or_eq_true, ih]
      cases before <;> simp [hside]
    | context s =>
      rw [markedIn, ih] <;> simp
    | removed s =>
      rw [markedIn, ih] <;> simp
    | added s =>
      rw [markedIn, ih] <;> simp

/-- The old side is marked exactly if a marker follows one of its lines. -/
theorem Hunk.oldUnterminated_eq_true_iff {h : Hunk} :
    h.oldUnterminated = true ↔ Marked BodyLine.old? h.body := by
  rw [oldUnterminated, markedIn_eq_true_iff fun _ => rfl]
  simp

/-- The new side is marked exactly if a marker follows one of its lines. -/
theorem Hunk.newUnterminated_eq_true_iff {h : Hunk} :
    h.newUnterminated = true ↔ Marked BodyLine.new? h.body := by
  rw [newUnterminated, markedIn_eq_true_iff fun _ => rfl]
  simp

/-! ## What it means to apply -/

/-- No hunk starts before the end of the one before it; the first one starts behind `cursor`
lines or more. -/
def InOrder (cursor : Nat) : List Hunk → Prop
  | [] => True
  | h :: hs => cursor ≤ h.start ∧ InOrder h.stop hs

/-- A hunk meets a text: its range is a part of the text, its old lines are the lines there, and if
it takes the last line of the text away, it says of this line whether it has a newline. -/
structure Hunk.Meets (h : Hunk) (t : LineText) : Prop where
  /-- The range is a part of the text. -/
  inside : h.stop ≤ t.lines.length
  /-- The old lines are the lines in the range. -/
  same : (t.lines.drop h.start).take h.oldCount = h.oldLines
  /-- At the end of the text the old side is marked exactly if the text has no final newline. -/
  ending : 0 < h.oldCount → h.stop = t.lines.length →
    (Marked BodyLine.old? h.body ↔ t.terminated = false)

/-- Lines with the range of every hunk replaced by the hunk's new lines. -/
def splice (lines : List Line) (hunks : List Hunk) : List Line :=
  -- From the last hunk to the first, so that the numbers of lines are still those of the old text.
  hunks.foldr (fun h ls => ls.take h.start ++ h.newLines ++ ls.drop h.stop) lines

/-- A number in the headers of hunks, summed up. -/
def total (count : Hunk → Nat) : List Hunk → Nat
  | [] => 0
  | h :: hs => count h + total count hs

/-- Whether the new text ends in a newline: the last hunk that reaches the end of the old text says
so, and without one it is as in the old text. -/
def splicedTerminated (t : LineText) (hunks : List Hunk) : Bool :=
  match hunks.reverse.find? (·.stop = t.lines.length) with
  | some h => !h.newUnterminated
  | none => t.terminated

/-- A text with the range of every hunk replaced. -/
def LineText.splice (t : LineText) (hunks : List Hunk) : LineText :=
  ⟨Diff.splice t.lines hunks, splicedTerminated t hunks⟩

/-! ## Splicing -/

@[simp] theorem splice_nil (lines : List Line) : splice lines [] = lines := rfl

/-- Hunks are put in from the last one on, so that the lines in front of each keep their numbers. -/
theorem splice_cons (lines : List Line) (h : Hunk) (hs : List Hunk) :
    splice lines (h :: hs) =
      (splice lines hs).take h.start ++ h.newLines ++ (splice lines hs).drop h.stop := rfl

/-- A hunk does not start behind its end. -/
theorem Hunk.start_le_stop (h : Hunk) : h.start ≤ h.stop :=
  Nat.le_add_right _ _

/-- Hunks behind a line leave the lines before it alone. -/
theorem take_splice {lines : List Line} {cursor n : Nat} {hs : List Hunk}
    (order : InOrder cursor hs) (hn : n ≤ cursor) (inside : n ≤ lines.length) :
    (splice lines hs).take n = lines.take n := by
  induction hs generalizing cursor with
  | nil => rfl
  | cons h hs ih =>
    obtain ⟨first, order⟩ := order
    have hstart := h.start_le_stop
    -- The later hunks leave these lines alone, and this one replaces lines behind them.
    have later : (splice lines hs).take n = lines.take n := ih order (by omega)
    have long : n ≤ (splice lines hs).length := le_length_of_take_eq later inside
    rw [splice_cons, List.append_assoc, List.take_append_of_le_length, List.take_take,
      Nat.min_eq_left (Nat.le_trans hn first), later]
    rw [List.length_take]
    omega

/-- The part of spliced lines behind a line before the first hunk. -/
theorem drop_splice_cons {lines : List Line} {cursor : Nat} {h : Hunk} {hs : List Hunk}
    (order : InOrder cursor (h :: hs)) (inside : h.stop ≤ lines.length) :
    (splice lines (h :: hs)).drop cursor =
      (lines.drop cursor).take (h.start - cursor) ++ h.newLines ++
        (splice lines hs).drop h.stop := by
  obtain ⟨first, order⟩ := order
  have hstart := h.start_le_stop
  -- In front of this hunk the lines are still the old ones.
  have front : (splice lines hs).take h.start = lines.take h.start :=
    take_splice order hstart (Nat.le_trans hstart inside)
  rw [splice_cons, front, List.append_assoc, List.drop_append_of_le_length, List.drop_take,
    List.append_assoc]
  rw [List.length_take]
  omega

/-- Splicing adds the lines of all new sides and takes those of all old sides away. -/
theorem length_splice {t : LineText} {cursor : Nat} {hs : List Hunk} (order : InOrder cursor hs)
    (meets : ∀ h ∈ hs, h.Meets t) (complete : ∀ h ∈ hs, h.Complete) :
    (splice t.lines hs).length + total (·.oldCount) hs =
      t.lines.length + total (·.newCount) hs := by
  induction hs generalizing cursor with
  | nil => rfl
  | cons h hs ih =>
    obtain ⟨first, order⟩ := order
    obtain ⟨hmeets, meets⟩ := List.forall_mem_cons.1 meets
    obtain ⟨hcomplete, complete⟩ := List.forall_mem_cons.1 complete
    have inside := hmeets.inside
    have later := ih order meets complete
    have front : (splice t.lines hs).take h.stop = t.lines.take h.stop :=
      take_splice order (Nat.le_refl _) inside
    have long : h.stop ≤ (splice t.lines hs).length := le_length_of_take_eq front inside
    have hstop : h.stop = h.start + h.oldCount := rfl
    rw [splice_cons, List.length_append, List.length_append, List.length_take, List.length_drop,
      hcomplete.new, total, total]
    omega

/-- Lines that are put into lines without newlines bring none in. -/
theorem not_mem_of_mem_splice {lines : List Line} {hs : List Hunk} (free : ∀ l ∈ lines, '\n' ∉ l)
    (complete : ∀ h ∈ hs, h.Complete) : ∀ l ∈ splice lines hs, '\n' ∉ l := by
  induction hs with
  | nil => exact free
  | cons h hs ih =>
    obtain ⟨hcomplete, complete⟩ := List.forall_mem_cons.1 complete
    intro l hl
    rw [splice_cons, List.mem_append, List.mem_append] at hl
    rcases hl with (hl | hl) | hl
    · exact ih complete l (List.mem_of_mem_take hl)
    · exact hcomplete.free l hl
    · exact ih complete l (List.mem_of_mem_drop hl)

/-! ## Application -/

/-- Lines that are expected in the place of as many lines differ nowhere exactly if they are the
same. -/
theorem firstMismatch_eq_none_iff {es fs : List Line} (h : es.length = fs.length) :
    firstMismatch es fs = none ↔ es = fs := by
  induction es generalizing fs with
  | nil =>
    rw [List.length_nil, eq_comm, List.length_eq_zero_iff] at h
    simp [h, firstMismatch]
  | cons e es ih =>
    cases fs with
    | nil => cases h
    | cons f fs =>
      rw [firstMismatch, List.cons.injEq]
      by_cases he : e = f
      · rw [if_pos he, Option.map_eq_none_iff, ih (Nat.succ.inj h)]
        simp [he]
      · simp [he]

/-- Whether the new text ends in a newline, decided hunk by hunk: the flag after a hunk. -/
def terminatedAfter (total : Nat) (terminated : Bool) (h : Hunk) : Bool :=
  if h.stop = total then !h.newUnterminated else terminated

/-- The last hunk that reaches the end decides about the final newline. -/
theorem foldl_terminatedAfter (t : LineText) (hs : List Hunk) :
    hs.foldl (terminatedAfter t.lines.length) t.terminated = splicedTerminated t hs := by
  -- The flag changes from hunk to hunk, so the induction is about all flags.
  suffices ∀ b, hs.foldl (terminatedAfter t.lines.length) b =
      match hs.reverse.find? (·.stop = t.lines.length) with
      | some h => !h.newUnterminated
      | none => b from this t.terminated
  induction hs with
  | nil => exact fun b => rfl
  | cons h hs ih =>
    intro b
    rw [List.foldl_cons, ih, List.reverse_cons, List.find?_append]
    cases hs.reverse.find? (·.stop = t.lines.length) with
    | some g => rfl
    | none =>
      by_cases hstop : h.stop = t.lines.length
      · simp [terminatedAfter, hstop]
      · simp [terminatedAfter, hstop]

/-- One hunk applies if it starts late enough and meets the text, and then the later ones decide.
A hunk that takes lines away does not start at the end, so the flag that it is compared with is
still that of the old text. -/
theorem applyHunks_cons_eq_ok_iff {t : LineText} {index cursor : Nat} {terminated : Bool}
    {h : Hunk} {hs : List Hunk} {r : List Line × Bool} (complete : h.Complete)
    (flag : cursor < t.lines.length → terminated = t.terminated) :
    applyHunks t.lines.length index cursor (t.lines.drop cursor) terminated (h :: hs) = .ok r ↔
      (cursor ≤ h.start ∧ h.Meets t) ∧
        ∃ later, applyHunks t.lines.length (index + 1) h.stop (t.lines.drop h.stop)
            (terminatedAfter t.lines.length terminated h) hs = .ok later ∧
          r = ((t.lines.drop cursor).take (h.start - cursor) ++ h.newLines ++ later.1,
            later.2) := by
  have hstop : h.stop = h.start + h.oldCount := rfl
  rw [applyHunks]
  by_cases first : h.start < cursor
  · rw [if_pos first]
    constructor
    · rintro ⟨⟩
    · rintro ⟨⟨hc, -⟩, -⟩
      omega
  rw [if_neg first]
  by_cases beyond : t.lines.length < h.stop
  · rw [if_pos beyond]
    constructor
    · rintro ⟨⟩
    · rintro ⟨⟨-, meets⟩, -⟩
      exact absurd meets.inside (by omega)
  rw [if_neg beyond]
  have here : (t.lines.drop cursor).drop (h.start - cursor) = t.lines.drop h.start := by
    rw [List.drop_drop, Nat.add_sub_cancel' (by omega)]
  have later : (t.lines.drop h.start).drop h.oldCount = t.lines.drop h.stop := by
    rw [List.drop_drop, hstop]
  -- As many lines are expected as are there, so the comparison stops at neither end too early.
  have hlen : h.oldLines.length = ((t.lines.drop h.start).take h.oldCount).length := by
    rw [complete.old, List.length_take, List.length_drop]
    omega
  dsimp only
  rw [here, later]
  cases hm : firstMismatch h.oldLines ((t.lines.drop h.start).take h.oldCount) with
  | some m =>
    constructor
    · rintro ⟨⟩
    · rintro ⟨⟨-, meets⟩, -⟩
      rw [(firstMismatch_eq_none_iff hlen).2 meets.same.symm] at hm
      cases hm
  | none =>
    have same := ((firstMismatch_eq_none_iff hlen).1 hm).symm
    by_cases ending : h.stop = t.lines.length ∧ 0 < h.oldCount ∧ h.oldUnterminated = terminated
    · rw [if_pos ending]
      obtain ⟨hend, some, hflag⟩ := ending
      constructor
      · rintro ⟨⟩
      · rintro ⟨⟨-, meets⟩, -⟩
        -- The flag is still that of the old text, which the hunk then contradicts.
        have hiff := meets.ending some hend
        rw [← Hunk.oldUnterminated_eq_true_iff, hflag, flag (by omega)] at hiff
        cases ht : t.terminated <;> simp [ht] at hiff
    · rw [if_neg ending]
      have meets : h.Meets t := by
        refine ⟨by omega, same, fun some hend => ?_⟩
        have hflag : h.oldUnterminated ≠ terminated := fun he => ending ⟨hend, some, he⟩
        rw [flag (by omega)] at hflag
        rw [← Hunk.oldUnterminated_eq_true_iff]
        cases ht : t.terminated <;> simpa [ht] using hflag
      have after : (if h.stop = t.lines.length then !h.newUnterminated else terminated) =
          terminatedAfter t.lines.length terminated h := rfl
      rw [after]
      cases applyHunks t.lines.length (index + 1) h.stop (t.lines.drop h.stop)
        (terminatedAfter t.lines.length terminated h) hs with
      | error f =>
        constructor
        · rintro ⟨⟩
        · rintro ⟨-, _, ⟨⟩, -⟩
      | ok found =>
        simp only [Except.ok.injEq, exists_eq_left']
        constructor
        · rintro rfl
          exact ⟨⟨by omega, meets⟩, rfl⟩
        · rintro ⟨-, rfl⟩
          rfl

/-- Hunks apply exactly if they are in order and meet the text, and the result is the splice. -/
theorem applyHunks_eq_ok_iff {t : LineText} {index cursor : Nat} {terminated : Bool}
    {hs : List Hunk} {r : List Line × Bool} (complete : ∀ h ∈ hs, h.Complete)
    (flag : cursor < t.lines.length → terminated = t.terminated) :
    applyHunks t.lines.length index cursor (t.lines.drop cursor) terminated hs = .ok r ↔
      (InOrder cursor hs ∧ ∀ h ∈ hs, h.Meets t) ∧
        r = ((splice t.lines hs).drop cursor,
          hs.foldl (terminatedAfter t.lines.length) terminated) := by
  induction hs generalizing index cursor terminated r with
  | nil => simp [applyHunks, InOrder, eq_comm]
  | cons h hs ih =>
    obtain ⟨hcomplete, complete⟩ := List.forall_mem_cons.1 complete
    -- In front of the end of the text no hunk has changed the flag yet.
    have flag' : cursor ≤ h.start → h.stop < t.lines.length →
        terminatedAfter t.lines.length terminated h = t.terminated := by
      intro first hlt
      have hstart := h.start_le_stop
      rw [terminatedAfter, if_neg (by omega)]
      exact flag (by omega)
    rw [applyHunks_cons_eq_ok_iff hcomplete flag, List.forall_mem_cons]
    constructor
    · rintro ⟨⟨first, meets⟩, later, happly, rfl⟩
      obtain ⟨⟨order, others⟩, rfl⟩ := (ih complete (flag' first)).1 happly
      have order' : InOrder cursor (h :: hs) := ⟨first, order⟩
      exact ⟨⟨order', meets, others⟩, by rw [drop_splice_cons order' meets.inside]; rfl⟩
    · rintro ⟨⟨order', meets, others⟩, rfl⟩
      have ⟨first, order⟩ := order'
      refine ⟨⟨first, meets⟩, _, (ih complete (flag' first)).2 ⟨⟨order, others⟩, rfl⟩, ?_⟩
      rw [drop_splice_cons order' meets.inside]
      rfl

/-- A text with hunks applied is the spliced text. -/
theorem LineText.patch_eq_ok_iff {t u : LineText} {hs : List Hunk}
    (complete : ∀ h ∈ hs, h.Complete) :
    t.patch hs = .ok u ↔ (InOrder 0 hs ∧ ∀ h ∈ hs, h.Meets t) ∧ u = t.splice hs := by
  have happly : ∀ r, applyHunks t.lines.length 1 0 t.lines t.terminated hs = .ok r ↔
      (InOrder 0 hs ∧ ∀ h ∈ hs, h.Meets t) ∧ r = (Diff.splice t.lines hs, splicedTerminated t hs) :=
    fun r => by rw [← foldl_terminatedAfter]; exact applyHunks_eq_ok_iff complete fun _ => rfl
  unfold patch
  rw [Outcome.map_eq_ok_iff]
  constructor
  · rintro ⟨r, hr, rfl⟩
    obtain ⟨applies, rfl⟩ := (happly r).1 hr
    exact ⟨applies, rfl⟩
  · rintro ⟨applies, rfl⟩
    exact ⟨_, (happly _).2 ⟨applies, rfl⟩, rfl⟩

/-! ## Diffs -/

/-- The text that a diff makes of another one, if it can be read and applies. -/
def patched (filename diff original : String) : Except Fault String := do
  let d ← FileDiff.parse filename diff
  d.apply original

/-- A text with a diff applied is the spliced text. -/
theorem FileDiff.apply_eq_ok_iff {d : FileDiff} {original patched : String}
    (complete : ∀ h ∈ d.hunks, h.Complete) :
    d.apply original = .ok patched ↔
      (InOrder 0 d.hunks ∧ ∀ h ∈ d.hunks, h.Meets (.ofChars original.toList)) ∧
        patched = String.ofList (((LineText.ofChars original.toList).splice d.hunks).toChars) := by
  unfold apply
  rw [Outcome.map_eq_ok_iff]
  constructor
  · rintro ⟨u, hu, rfl⟩
    obtain ⟨applies, rfl⟩ := (LineText.patch_eq_ok_iff complete).1 hu
    exact ⟨applies, rfl⟩
  · rintro ⟨applies, rfl⟩
    exact ⟨_, (LineText.patch_eq_ok_iff complete).2 ⟨applies, rfl⟩, rfl⟩

/-- Applying a diff that was read is a splice. It succeeds exactly if the hunks are in order and
meet the text; the result is the text of the spliced lines, of which there are as many as the
headers say; and these are the lines of the result, except that an empty last line without a newline
leaves no trace in a text. -/
theorem apply_splices {filename diff : String} {d : FileDiff}
    (parsed : FileDiff.parse filename diff = .ok d) (original : String) :
    ((∃ patched, d.apply original = .ok patched) ↔
      InOrder 0 d.hunks ∧ ∀ h ∈ d.hunks, h.Meets (.ofChars original.toList)) ∧
    ∀ patched spliced, d.apply original = .ok patched →
      (LineText.ofChars original.toList).splice d.hunks = spliced →
        patched = String.ofList spliced.toChars ∧
        spliced.lines.length + total (·.oldCount) d.hunks =
          (LineText.ofChars original.toList).lines.length + total (·.newCount) d.hunks ∧
        (LineText.ofChars patched.toList).lines =
          if spliced.terminated = false ∧ spliced.lines.getLast? = some [] then
            spliced.lines.dropLast
          else spliced.lines := by
  have complete := FileDiff.complete_of_parse parsed
  constructor
  · constructor
    · rintro ⟨patched, happly⟩
      exact ((FileDiff.apply_eq_ok_iff complete).1 happly).1
    · intro applies
      exact ⟨_, (FileDiff.apply_eq_ok_iff complete).2 ⟨applies, rfl⟩⟩
  · rintro patched spliced happly rfl
    obtain ⟨⟨order, meets⟩, rfl⟩ := (FileDiff.apply_eq_ok_iff complete).1 happly
    refine ⟨rfl, length_splice order meets complete, ?_⟩
    rw [String.toList_ofList]
    exact LineText.lines_ofChars_toChars _
      (not_mem_of_mem_splice (fun l hl => LineText.not_mem_of_mem_lines hl) complete)

/-- An insertion before the first line and the removal of the last one, which has no newline. -/
theorem apply_splices_both_ends :
    ∃ d, FileDiff.parse "f" "@@ -0,0 +1 @@\n+x\n@@ -3 +4,0 @@\n-c\n\\ No newline\n" = .ok d ∧
      (InOrder 0 d.hunks ∧ ∀ h ∈ d.hunks, h.Meets (.ofChars "a\nb\nc".toList)) ∧
      "x\na\nb\n" = String.ofList ((LineText.ofChars "a\nb\nc".toList).splice d.hunks).toChars := by
  let d : FileDiff := ⟨"f", [⟨⟨0, 0, 1, 1⟩, [.added ['x']]⟩,
    ⟨⟨3, 1, 4, 0⟩, [.removed ['c'], .noNewline " No newline".toList]⟩]⟩
  have parsed : FileDiff.parse "f"
      "@@ -0,0 +1 @@\n+x\n@@ -3 +4,0 @@\n-c\n\\ No newline\n" = .ok d :=
    Outcome.eq_ok_of_toOption (by decide +kernel)
  have happly : d.apply "a\nb\nc" = .ok "x\na\nb\n" :=
    Outcome.eq_ok_of_toOption (by decide +kernel)
  obtain ⟨applies, result⟩ := apply_splices parsed "a\nb\nc"
  exact ⟨d, parsed, applies.1 ⟨_, happly⟩, (result _ _ happly rfl).1⟩

/-- An added empty line without a newline is a line of the splice, but not of the result. -/
theorem apply_leaves_out_empty_last_line :
    ∃ d, FileDiff.parse "f" "@@ -1 +1,2 @@\n a\n+\n\\ No newline at end of file\n" = .ok d ∧
      d.apply "a\n" = .ok "a\n" ∧
      splice (LineText.ofChars "a\n".toList).lines d.hunks = [['a'], []] ∧
      (LineText.ofChars "a\n".toList).lines = [['a']] := by
  refine ⟨⟨"f", [⟨⟨1, 1, 1, 2⟩,
    [.context ['a'], .added [], .noNewline " No newline at end of file".toList]⟩]⟩, ?_, ?_, ?_, ?_⟩
  · exact Outcome.eq_ok_of_toOption (by decide +kernel)
  · exact Outcome.eq_ok_of_toOption (by decide +kernel)
  · decide +kernel
  · decide +kernel

end OverlaySync.Diff
