import OverlaySync.Diff.LineText

/-! # Which lines are the lines of a text

Writing lines down and splitting the text again gives the lines back, with one exception: an empty
last line without a newline leaves no trace in the text (`LineText.lines_ofChars_toChars`). -/

namespace OverlaySync

namespace Text

variable {α : Type}

/-- All pieces but the last are followed by a separator. -/
theorem joined_concat (sep : α) (ps : List (List α)) (p : List α) :
    joined sep (ps ++ [p]) = ps.flatMap (· ++ [sep]) ++ p := by
  induction ps with
  | nil => rfl
  | cons q ps ih =>
    obtain ⟨r, rs, hr⟩ := List.exists_cons_of_ne_nil (List.append_ne_nil_of_right_ne_nil ps
      (List.cons_ne_nil p []))
    rw [List.cons_append, hr, joined, ← hr, ih]
    simp

/-- A row of pieces and one more separator. -/
theorem joined_append_sep (sep : α) {ps : List (List α)} (ne : ps ≠ []) :
    joined sep ps ++ [sep] = ps.flatMap (· ++ [sep]) := by
  obtain ⟨front, p, rfl⟩ := (List.eq_nil_or_concat ps).resolve_left ne
  rw [List.concat_eq_append, joined_concat]
  simp

end Text

namespace Diff.LineText

/-- The lines of a text hold no newline. -/
theorem not_mem_of_mem_lines {cs : List Char} {l : Line} (h : l ∈ (ofChars cs).lines) :
    '\n' ∉ l := by
  unfold ofChars at h
  split at h
  · simp at h
  split at h
  · exact Text.not_mem_of_mem_pieces h
  · exact Text.not_mem_of_mem_pieces h

/-- A text that ends in a newline is made of ended lines. -/
theorem toChars_terminated (lines : List Line) :
    toChars ⟨lines, true⟩ = lines.flatMap (· ++ ['\n']) := by
  by_cases ne : lines = []
  · rw [ne]
    rfl
  · have hempty : lines.isEmpty = false := by simpa using ne
    rw [← Text.joined_append_sep '\n' ne]
    simp [toChars, hempty]

/-- In a text that does not end in a newline all lines but the last are ended. -/
theorem toChars_unterminated (front : List Line) (last : Line) :
    toChars ⟨front ++ [last], false⟩ = front.flatMap (· ++ ['\n']) ++ last := by
  rw [← Text.joined_concat]
  simp [toChars]

/-- Ended lines are read back. -/
theorem ofChars_terminated {lines : List Line} (ne : lines ≠ []) (free : ∀ l ∈ lines, '\n' ∉ l) :
    ofChars (lines.flatMap (· ++ ['\n'])) = ⟨lines, true⟩ := by
  rw [← Text.joined_append_sep '\n' ne]
  simp [ofChars, Text.pieces_joined ne free]

/-- Ended lines and a last line that is not ended, and not empty, are read back. -/
theorem ofChars_unterminated {front : List Line} {last : Line} (ne : last ≠ [])
    (free : ∀ l ∈ front ++ [last], '\n' ∉ l) :
    ofChars (front.flatMap (· ++ ['\n']) ++ last) = ⟨front ++ [last], false⟩ := by
  -- The text does not end in a newline, for its last line does not.
  have hlast : last.getLast? ≠ some '\n' := fun h =>
    free last (by simp) (List.mem_of_getLast? h)
  have hpieces : Text.pieces '\n' (front.flatMap (· ++ ['\n']) ++ last) = front ++ [last] := by
    rw [← Text.joined_concat]
    exact Text.pieces_joined (by simp) free
  simp [ofChars, ne, hlast, hpieces]

/-- The lines that are read back from written lines: all of them, unless the last one is empty and
not ended. -/
theorem lines_ofChars_toChars (t : LineText) (free : ∀ l ∈ t.lines, '\n' ∉ l) :
    (ofChars t.toChars).lines =
      if t.terminated = false ∧ t.lines.getLast? = some [] then t.lines.dropLast else t.lines := by
  obtain ⟨lines, terminated⟩ := t
  obtain rfl | ⟨front, last, rfl⟩ := List.eq_nil_or_concat lines
  · simp [toChars, Text.joined, ofChars]
  rw [List.concat_eq_append] at free ⊢
  cases terminated with
  | true =>
    rw [toChars_terminated, ofChars_terminated (by simp) free]
    simp
  | false =>
    rw [toChars_unterminated]
    by_cases hlast : last = []
    · -- The text is that of the lines in front, which are all ended.
      subst hlast
      rw [List.append_nil]
      by_cases ne : front = []
      · simp [ne, ofChars]
      · rw [ofChars_terminated ne fun l hl => free l (List.mem_append_left _ hl)]
        simp
    · rw [ofChars_unterminated hlast free]
      simp [hlast]

/-- A last line without a newline is not empty. -/
theorem getLast?_lines_ne {cs : List Char} (bare : (ofChars cs).terminated = false) :
    (ofChars cs).lines.getLast? ≠ some [] := by
  intro hlast
  have hlines := lines_ofChars_toChars (ofChars cs) fun l hl => not_mem_of_mem_lines hl
  rw [toChars_ofChars, if_pos ⟨bare, hlast⟩] at hlines
  have ne : (ofChars cs).lines ≠ [] := fun h => by simp [h] at hlast
  have hlen := congrArg List.length hlines
  rw [List.length_dropLast] at hlen
  have pos := List.length_pos_iff.2 ne
  omega

/-- A text with lines is read back if it leaves a trace of its last line. -/
theorem ofChars_toChars {t : LineText} (ne : t.lines ≠ []) (free : ∀ l ∈ t.lines, '\n' ∉ l)
    (trace : t.terminated = false → t.lines.getLast? ≠ some []) : ofChars t.toChars = t := by
  obtain ⟨lines, terminated⟩ := t
  cases terminated with
  | true => rw [toChars_terminated, ofChars_terminated ne free]
  | false =>
    obtain ⟨front, last, rfl⟩ := (List.eq_nil_or_concat lines).resolve_left ne
    rw [List.concat_eq_append] at free trace ⊢
    have hlast : last ≠ [] := fun h => trace rfl (by simp [h])
    rw [toChars_unterminated, ofChars_unterminated hlast free]

end Diff.LineText

end OverlaySync
