import OverlaySync.Proofs.Diff.Splice

/-! # Two texts side by side

Hunks that take an old text to a new one go through both texts together: over lines that both have,
then over the lines that a hunk takes out of the one and puts into the other, and so on. `Aligned`
says this of both texts in the same way, so it also holds of the reversed hunks with the texts
exchanged (`Aligned.reverse`). What it takes to apply hunks, and what comes out, can be read off
for either direction. -/

namespace OverlaySync.Diff

/-! ## Reversed hunks -/

/-- The body line with the two sides exchanged. -/
def BodyLine.reverse : BodyLine → BodyLine
  | context s => context s
  | removed s => added s
  | added s => removed s
  | noNewline s => noNewline s

/-- The old side of a reversed line is its new one. -/
@[simp] theorem BodyLine.old?_reverse (b : BodyLine) : b.reverse.old? = b.new? := by
  cases b <;> rfl

/-- The new side of a reversed line is its old one. -/
@[simp] theorem BodyLine.new?_reverse (b : BodyLine) : b.reverse.new? = b.old? := by
  cases b <;> rfl

/-- The header with the two sides exchanged. -/
def Header.reverse (h : Header) : Header :=
  ⟨h.newStart, h.newCount, h.oldStart, h.oldCount⟩

/-- The hunk with the two sides exchanged. -/
def Hunk.reverse (h : Hunk) : Hunk :=
  ⟨h.toHeader.reverse, h.body.map BodyLine.reverse⟩

namespace Hunk

@[simp] theorem oldCount_reverse (h : Hunk) : h.reverse.oldCount = h.newCount := rfl

@[simp] theorem newCount_reverse (h : Hunk) : h.reverse.newCount = h.oldCount := rfl

/-- The old lines of the reversed hunk are the new ones. -/
@[simp] theorem oldLines_reverse (h : Hunk) : h.reverse.oldLines = h.newLines := by
  rw [oldLines, newLines, reverse, List.filterMap_map]
  exact congrArg (h.body.filterMap ·) (funext BodyLine.old?_reverse)

/-- The new lines of the reversed hunk are the old ones. -/
@[simp] theorem newLines_reverse (h : Hunk) : h.reverse.newLines = h.oldLines := by
  rw [oldLines, newLines, reverse, List.filterMap_map]
  exact congrArg (h.body.filterMap ·) (funext BodyLine.new?_reverse)

/-- The start of the old side does not depend on the body. -/
@[simp] theorem start_reverse_reverse (h : Hunk) : h.reverse.reverse.start = h.start := rfl

/-- Exchanging the sides of the lines moves no marker. -/
theorem markedIn_map_reverse (side : BodyLine → Option Line) (before : Bool)
    (body : List BodyLine) :
    markedIn side before (body.map BodyLine.reverse) =
      markedIn (fun b => side b.reverse) before body := by
  induction body generalizing before with
  | nil => rfl
  | cons b body ih => cases b <;> simp [BodyLine.reverse, markedIn, ih]

/-- The last line of the old side is bare if that of the new side was. -/
@[simp] theorem oldUnterminated_reverse (h : Hunk) :
    h.reverse.oldUnterminated = h.newUnterminated := by
  rw [oldUnterminated, reverse, markedIn_map_reverse]
  simp [newUnterminated]

/-- The last line of the new side is bare if that of the old side was. -/
@[simp] theorem newUnterminated_reverse (h : Hunk) :
    h.reverse.newUnterminated = h.oldUnterminated := by
  rw [newUnterminated, reverse, markedIn_map_reverse]
  simp [oldUnterminated]

end Hunk

/-! ## Order -/

/-- No hunk starts before the first one may. -/
theorem InOrder.le_start {cursor : Nat} {hs : List Hunk} (order : InOrder cursor hs) :
    ∀ h ∈ hs, cursor ≤ h.start := by
  induction hs generalizing cursor with
  | nil => exact nofun
  | cons h hs ih =>
    obtain ⟨first, order⟩ := order
    refine List.forall_mem_cons.2 ⟨first, fun g hg => ?_⟩
    exact Nat.le_trans (Nat.le_trans first h.start_le_stop) (ih order g hg)

/-- What is left of hunks in order is in order. -/
theorem InOrder.of_append {cursor : Nat} {front : List Hunk} {h : Hunk} {later : List Hunk}
    (order : InOrder cursor (front ++ h :: later)) : InOrder h.stop later := by
  induction front generalizing cursor with
  | nil => exact order.2
  | cons g front ih => exact ih order.2

/-! ## Alignment -/

/-- The hunks take `olds`, which are the lines of the old text behind the first `old`, to `news`,
which are the lines of the new text behind the first `new`. -/
inductive Aligned : Nat → Nat → List Line → List Line → List Hunk → Prop
  /-- Behind the last hunk the texts are the same. -/
  | nil (old new : Nat) (rest : List Line) : Aligned old new rest rest []
  /-- In front of a hunk the texts are the same, and each of them has its side of the hunk. -/
  | cons {old new : Nat} {olds news : List Line} {h : Hunk} {hs : List Hunk} (kept : List Line)
      (start : h.start = old + kept.length) (start' : h.reverse.start = new + kept.length)
      (size : h.oldLines.length = h.oldCount) (size' : h.newLines.length = h.newCount)
      (later : Aligned h.stop h.reverse.stop olds news hs) :
      Aligned old new (kept ++ (h.oldLines ++ olds)) (kept ++ (h.newLines ++ news)) (h :: hs)

namespace Aligned

variable {old new : Nat} {olds news : List Line} {hs : List Hunk}

/-- The reversed hunks go the other way. -/
theorem reverse (h : Aligned old new olds news hs) :
    Aligned new old news olds (hs.map Hunk.reverse) := by
  induction h with
  | nil => exact .nil ..
  | cons kept start start' size size' later ih =>
    have step := Aligned.cons kept start' ((Hunk.start_reverse_reverse _).trans start)
      (by simpa using size') (by simpa using size) ih
    simpa using step

/-- Aligned hunks are in order: what is kept in front of each of them separates it from the one
before. -/
theorem inOrder (h : Aligned old new olds news hs) : InOrder old hs := by
  induction h with
  | nil => trivial
  | cons kept start _ _ _ _ ih => exact ⟨by omega, ih⟩

/-- The old text goes on behind the lines before a hunk with the old lines of the hunk. -/
theorem drop_start {lines : List Line} {h : Hunk} {kept rest : List Line}
    (start : h.start = old + kept.length) (size : h.oldLines.length = h.oldCount)
    (behind : lines.drop old = kept ++ (h.oldLines ++ rest)) :
    (lines.drop h.start).take h.oldCount = h.oldLines ∧ lines.drop h.stop = rest := by
  have here : lines.drop h.start = h.oldLines ++ rest := by
    rw [start, ← List.drop_drop, behind, List.drop_left]
  refine ⟨by rw [here, ← size, List.take_left], ?_⟩
  rw [Hunk.stop, ← List.drop_drop, here, ← size, List.drop_left]

/-- Every hunk finds its old lines in the old text. -/
theorem same {lines : List Line} (h : Aligned old new olds news hs)
    (behind : lines.drop old = olds) (inside : old ≤ lines.length) :
    ∀ g ∈ hs, g.stop ≤ lines.length ∧ (lines.drop g.start).take g.oldCount = g.oldLines := by
  induction h with
  | nil => exact nofun
  | @cons old new olds news g hs kept start _ size _ _ ih =>
    obtain ⟨here, rest⟩ := drop_start start size behind
    have long := congrArg List.length behind
    rw [List.length_drop, List.length_append, List.length_append, size] at long
    have stop : g.stop ≤ lines.length := by
      rw [Hunk.stop, start]
      omega
    exact List.forall_mem_cons.2 ⟨⟨stop, here⟩, ih rest stop⟩

/-- Splicing the hunks into the old text gives the new text. -/
theorem drop_splice {lines : List Line} (h : Aligned old new olds news hs)
    (behind : lines.drop old = olds) (inside : old ≤ lines.length) :
    (splice lines hs).drop old = news := by
  induction h with
  | nil => exact behind
  | @cons old new olds news g hs kept start start' size size' later ih =>
    obtain ⟨stop, -⟩ := (cons kept start start' size size' later).same behind inside g
      List.mem_cons_self
    have order := (cons kept start start' size size' later).inOrder
    rw [drop_splice_cons order stop, ih (drop_start start size behind).2 stop, behind, start,
      Nat.add_sub_cancel_left, List.take_left, List.append_assoc]

/-- Behind the last hunk the texts have the same lines. -/
theorem last {front : List Hunk} {h : Hunk} (aligned : Aligned old new olds news (front ++ [h])) :
    ∃ before before' rest, olds = before ++ rest ∧ news = before' ++ rest ∧
      h.stop = old + before.length ∧ h.reverse.stop = new + before'.length := by
  generalize hhs : front ++ [h] = hs at aligned
  -- On the hunks in front of the last one, whose lines all go before the common rest.
  induction aligned generalizing front with
  | nil => simp at hhs
  | @cons old new olds news g hs kept start start' size size' later ih =>
    have hstop : g.stop = old + (kept ++ g.oldLines).length := by
      rw [Hunk.stop, start, List.length_append, size, Nat.add_assoc]
    have hstop' : g.reverse.stop = new + (kept ++ g.newLines).length := by
      rw [Hunk.stop, start', List.length_append, size', Nat.add_assoc]
      rfl
    cases front with
    | nil =>
      cases hhs
      cases later
      exact ⟨kept ++ h.oldLines, kept ++ h.newLines, _, (List.append_assoc ..).symm,
        (List.append_assoc ..).symm, hstop, hstop'⟩
    | cons g' front =>
      cases hhs
      obtain ⟨before, before', rest, rfl, rfl, hb, hb'⟩ := ih rfl
      refine ⟨kept ++ g.oldLines ++ before, kept ++ g.newLines ++ before', rest, by simp, by simp,
        ?_, ?_⟩
      · simp only [hb, hstop, List.length_append, Nat.add_assoc]
      · simp only [hb', hstop', List.length_append, Nat.add_assoc]

end Aligned

/-! ## Hunks that name their places -/

/-- Every header names the line of the new text at which the new side of the hunk stands: this is
the line at which its old side stands in the old text, moved by what the hunks before have added
and removed. -/
def Placed (removed added : Nat) : List Hunk → Prop
  | [] => True
  | h :: hs =>
    h.reverse.start + removed = h.start + added ∧
      Placed (removed + h.oldCount) (added + h.newCount) hs

/-- Hunks that meet a text and name their places go through it and its splice side by side. -/
theorem aligned_of_meets {t : LineText} {old new removed added : Nat} {hs : List Hunk}
    (complete : ∀ h ∈ hs, h.Complete) (order : InOrder old hs) (meets : ∀ h ∈ hs, h.Meets t)
    (placed : Placed removed added hs) (shift : new + removed = old + added) :
    Aligned old new (t.lines.drop old) ((splice t.lines hs).drop old) hs := by
  induction hs generalizing old new removed added with
  | nil => exact .nil ..
  | cons h hs ih =>
    obtain ⟨hcomplete, complete⟩ := List.forall_mem_cons.1 complete
    obtain ⟨hmeets, meets⟩ := List.forall_mem_cons.1 meets
    have inside := hmeets.inside
    rw [drop_splice_cons order inside]
    obtain ⟨first, order⟩ := order
    obtain ⟨place, placed⟩ := placed
    have hstop : h.stop = h.start + h.oldCount := rfl
    have hstop' : h.reverse.stop = h.reverse.start + h.newCount := rfl
    have later : Aligned h.stop h.reverse.stop _ _ hs := ih complete order meets placed (by omega)
    have size : ((t.lines.drop old).take (h.start - old)).length = h.start - old := by
      rw [List.length_take, List.length_drop]
      omega
    -- In front of the hunk are kept lines, and behind them the hunk's old side, which it meets.
    have olds : t.lines.drop old =
        (t.lines.drop old).take (h.start - old) ++ (h.oldLines ++ t.lines.drop h.stop) := by
      have here : (t.lines.drop old).drop (h.start - old) = h.oldLines ++ t.lines.drop h.stop := by
        rw [List.drop_drop, Nat.add_sub_cancel' first, ← hmeets.same, hstop, ← List.drop_drop,
          List.take_append_drop]
      rw [← here, List.take_append_drop]
    have aligned : Aligned old new _ _ (h :: hs) :=
      .cons ((t.lines.drop old).take (h.start - old)) (by omega) (by omega) hcomplete.old
        hcomplete.new later
    rwa [← olds, ← List.append_assoc] at aligned

end OverlaySync.Diff
